import SeekingOs.Kernel.Memory

/-!
# `sys_malloc` and `sys_free`

An arena is a page, or a range of them, with a header of 12 bytes; a small one is cut into blocks of
one size, and the blocks that are not in use are on the `free_list` of the descriptor of that size.
A header is found by rounding the address of a block down to its page.

The headers, and the links of the lists, which lie in the blocks, are kept beside `ram`. Blocks are
byte addresses.
-/

namespace SeekingOs

open Lib

/-- `struct arena`; `desc` is a place in the array of descriptors, `none` is `NULL`. -/
structure Arena where
  desc : Option Nat
  cnt : Nat
  large : Bool
  deriving DecidableEq, Repr

/-- `sizeof(struct arena)` -/
def arenaSize : Nat := 12

/-- `DESC_CNT` -/
def descCnt : Nat := 7

/-- `block_size` of a descriptor, as `block_descs_init` sets it -/
def blockSize (descIdx : Nat) : Nat := 16 * 2 ^ descIdx

/-- `blocks_per_arena` -/
def blocksPerArena (descIdx : Nat) : Nat := (4096 - arenaSize) / blockSize descIdx

/-- The descriptors of a task, and the arenas that its pages are, by their first page. -/
structure BlockDescs where
  freeList : Nat → List Nat
  arena : Nat → Arena

/-- The allocator as the running task meets it. -/
structure Allocator where
  memory : Memory
  descs : BlockDescs
  poolSize : PoolFlags → Nat

/-- `arena2block` -/
def arena2block (page descIdx idx : Nat) : Nat := 4096 * page + arenaSize + idx * blockSize descIdx

/-- `block2arena` -/
def block2arena (b : Nat) : Nat := b / 4096

/-- The descriptor that the loop of `sys_malloc` stops at: the first one with blocks of that size.
-/
def matchDesc (size : Nat) : Nat :=
  ((List.range descCnt).find? fun descIdx => size ≤ blockSize descIdx).getD descCnt

/-- The pages of a large request: `DIV_ROUND_UP(size + sizeof(struct arena), PG_SIZE)` -/
def largePages (size : Nat) : Nat := u32 (size + arenaSize + 4095 : Nat) / 4096

namespace BlockDescs

variable (d : BlockDescs)

/-- A header is written. -/
def setArena (page : Nat) (a : Arena) : BlockDescs :=
  { d with arena := Function.update d.arena page a }

/-- A `free_list` is changed. -/
def setFreeList (descIdx : Nat) (blocks : List Nat) : BlockDescs :=
  { d with freeList := Function.update d.freeList descIdx blocks }

section Updates

variable {d} {page q i j : Nat} {a : Arena} {l l' : List Nat}

@[simp] theorem setArena_freeList : (d.setArena page a).freeList = d.freeList := rfl

@[simp] theorem setFreeList_arena : (d.setFreeList i l).arena = d.arena := rfl

@[simp] theorem setArena_arena_self : (d.setArena page a).arena page = a :=
  Function.update_self _ _ _

@[simp] theorem setArena_arena_ne (h : q ≠ page) : (d.setArena page a).arena q = d.arena q :=
  Function.update_of_ne h _ _

@[simp] theorem setFreeList_freeList_self : (d.setFreeList i l).freeList i = l :=
  Function.update_self _ _ _

@[simp] theorem setFreeList_freeList_ne (h : j ≠ i) :
    (d.setFreeList i l).freeList j = d.freeList j := Function.update_of_ne h _ _

@[simp] theorem setFreeList_same : d.setFreeList i (d.freeList i) = d :=
  congrArg (fun f => { d with freeList := f }) (Function.update_eq_self i d.freeList)

@[simp] theorem setFreeList_twice : (d.setFreeList i l).setFreeList i l' = d.setFreeList i l' :=
  congrArg (fun f => { d with freeList := f }) (Function.update_idem _ _ _)

end Updates

/-- The loop that cuts an arena into blocks. -/
def splitArena (page descIdx : Nat) : (left blockIdx : Nat) → BlockDescs → Except Fault BlockDescs
  | 0, _, d => .ok d
  | left + 1, blockIdx, d => do
    let b := arena2block page descIdx blockIdx
    assertThat false (b ∉ d.freeList descIdx) "sys_malloc"
      "!elem_find(&a->desc->free_list, &b->free_elem)"
    splitArena page descIdx left (blockIdx + 1) (d.setFreeList descIdx (d.freeList descIdx ++ [b]))

/-- The loop that takes the blocks of an arena off the list again. -/
def takeOff (page descIdx : Nat) : (left bkIdx : Nat) → BlockDescs → Except Fault BlockDescs
  | 0, _, d => .ok d
  | left + 1, bkIdx, d => do
    let b := arena2block page descIdx bkIdx
    assertThat false (b ∈ d.freeList descIdx) "sys_free"
      "elem_find(&a->desc->free_list, &b->free_elem)"
    takeOff page descIdx left (bkIdx + 1) (d.setFreeList descIdx ((d.freeList descIdx).erase b))

end BlockDescs

namespace Allocator

variable (s : Allocator)

/-- A new arena for blocks of a size; `false` is `NULL`. -/
def newArena (pf : PoolFlags) (descIdx : Nat) : Except Fault (Bool × Allocator) := do
  let (a, m) ← s.memory.mallocPage pf 1
  match a with
  | none => return (false, { s with memory := m })
  | some a => do
    let m ← m.clearPages "sys_malloc" a 1
    let d := s.descs.setArena a ⟨some descIdx, blocksPerArena descIdx, false⟩
    let d ← d.splitArena a descIdx (blocksPerArena descIdx) 0
    return (true, { s with memory := m, descs := d })

/-- The first block of the list is taken off, and cleared. -/
def takeBlock (descIdx : Nat) : Except Fault (Nat × Allocator) :=
  match s.descs.freeList descIdx with
  | [] => .error (.pageFault "sys_malloc")
  | b :: rest => do
    let _ ← s.memory.readPage "sys_malloc" (b / 4096)
    let _ ← s.memory.readPage "sys_malloc" ((b + blockSize descIdx - 1) / 4096)
    let page := block2arena b
    let a := s.descs.arena page
    let d := (s.descs.setFreeList descIdx rest).setArena page { a with cnt := u32 (a.cnt - 1) }
    return (b, { s with descs := d })

/-- A large request. -/
def mallocLarge (pf : PoolFlags) (size : Nat) : Except Fault (Option Nat × Allocator) := do
  let pgCnt := largePages size
  let (a, m) ← s.memory.mallocPage pf pgCnt
  match a with
  | none => return (none, { s with memory := m })
  | some a => do
    let m ← m.clearPages "sys_malloc" a pgCnt
    return (some (4096 * a + arenaSize),
      { s with memory := m, descs := s.descs.setArena a ⟨none, pgCnt, true⟩ })

/-- A small request. -/
def mallocSmall (pf : PoolFlags) (size : Nat) : Except Fault (Option Nat × Allocator) := do
  let descIdx := matchDesc size
  let (there, s) ← if s.descs.freeList descIdx = [] then s.newArena pf descIdx else pure (true, s)
  if there = true then do
    let (b, s) ← s.takeBlock descIdx
    return (some b, s)
  else return (none, s)

/-- `sys_malloc`, for a task that uses that pool -/
def sysMalloc (pf : PoolFlags) (size : Nat) : Except Fault (Option Nat × Allocator) :=
  if ¬ (size > 0 ∧ size < s.poolSize pf) then .ok (none, s)
  else if size > 1024 then s.mallocLarge pf size
  else s.mallocSmall pf size

/-- The page count that a request computes, when it comes to `malloc_page`. -/
def pagesAsked (pf : PoolFlags) (size : Nat) : Option Nat :=
  if ¬ (size > 0 ∧ size < s.poolSize pf) then none
  else if size > 1024 then some (largePages size)
  else if s.descs.freeList (matchDesc size) = [] then some 1
  else none

/-! ## Giving a block back -/

/-- A small block: the arena goes with its last block. -/
def freeSmall (pf : PoolFlags) (ptr descIdx : Nat) : Except Fault Allocator := do
  let page := block2arena ptr
  let a := s.descs.arena page
  let cnt := u32 (a.cnt + 1)
  let d :=
    (s.descs.setFreeList descIdx (s.descs.freeList descIdx ++ [ptr])).setArena page { a with cnt }
  if cnt = blocksPerArena descIdx then do
    let d ← d.takeOff page descIdx (blocksPerArena descIdx) 0
    let m ← s.memory.mfreePage pf page 1
    return { s with memory := m, descs := d }
  else return { s with descs := d }

/-- The address that a task of the kernel must not be below. -/
def lowestPtr : PoolFlags → Nat
  | .kernel => 4096 * kHeapStart
  | .user => 0

/-- `sys_free`, for a task that uses that pool. A header says `large` or not, so that the assertion
on it holds. -/
def sysFree (pf : PoolFlags) (ptr : Nat) : Except Fault Allocator := do
  assertThat false (ptr ≠ 0) "sys_free" "ptr != NULL"
  assertThat false (lowestPtr pf ≤ ptr) "sys_free" "(uint32_t)ptr >= K_HEAP_START"
  let page := block2arena ptr
  let _ ← s.memory.readPage "sys_free" page
  let a := s.descs.arena page
  match a.desc with
  | some descIdx => s.freeSmall pf ptr descIdx
  | none =>
    if a.large = true then do
      let m ← s.memory.mfreePage pf page a.cnt
      return { s with memory := m }
    else .error (.pageFault "sys_free")

end Allocator

end SeekingOs
