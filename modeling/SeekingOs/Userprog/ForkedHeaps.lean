import Mathlib.Data.Finset.Basic
import SeekingOs.Kernel.Malloc
import SeekingOs.Lib.Linked
import SeekingOs.Lib.Machine
import SeekingOs.Userprog.Fork

/-!
# The heaps of a process and of its child

`sys_fork` copies the pages of the parent, arenas and all, and gives the child descriptors of its
own with empty lists. The two ends of a list are in a descriptor, that is in a task structure, which
is in the part of memory that all processes share; its elements are in blocks, and one address of a
block is different memory in the parent and in the child. The header of an arena holds the address
of a descriptor, which may be one of another process.

Headers and links are kept beside `ram`, for each process; the directory and the bitmap of addresses
of each process are put into the memory when it runs.
-/

namespace SeekingOs

open Lib

/-- The two processes. -/
inductive Side where
  | parent
  | child
  deriving DecidableEq, Repr

/-- Whose descriptors an address leads to; the parent may have been forked itself. A task that is
gone is none of the two processes, even where its page has been given to one of them. -/
inductive Owner where
  | side (p : Side)
  | elder (n : Nat)
  deriving DecidableEq, Repr

/-- The address of a `struct list_elem`: an end of the list of a descriptor, or a block. -/
inductive ListElem where
  | head (o : Owner) (descIdx : Nat)
  | tail (o : Owner) (descIdx : Nat)
  | block (b : Nat)
  deriving DecidableEq, Repr

/-- `NULL` -/
def ListElem.null : ListElem := .block 0

/-- `struct arena`, with the address of a descriptor. -/
structure TaskArena where
  desc : Option (Owner × Nat)
  cnt : Nat
  large : Bool
  deriving DecidableEq, Repr

/-- What a process has for itself. -/
structure HeapSpace where
  cr3 : Nat
  userVaddr : Bitmap
  arena : Nat → TaskArena
  links : Nat → Node ListElem

/-- The memory, the two address spaces, and the ends of the lists of all descriptors; `live` are the
blocks that each process has got and not given back. -/
structure ForkedHeaps where
  memory : Memory
  space : Side → HeapSpace
  descs : Owner → Nat → Node ListElem × Node ListElem
  poolSize : Nat
  live : Side → Finset Nat

namespace ForkedHeaps

variable (s : ForkedHeaps) (p : Side)

/-- The memory when a process runs. -/
def view : Memory := { s.memory with cr3 := (s.space p).cr3, userVaddr := (s.space p).userVaddr }

/-- What a process has for itself is changed. -/
def setSpace (x : HeapSpace) : ForkedHeaps := { s with space := Function.update s.space p x }

/-- What the process has done to the memory. -/
def setMemory (m : Memory) : ForkedHeaps :=
  { s.setSpace p { s.space p with userVaddr := m.userVaddr } with memory := m }

/-- A header is written. -/
def setArena (page : Nat) (a : TaskArena) : ForkedHeaps :=
  s.setSpace p { s.space p with arena := Function.update (s.space p).arena page a }

/-- The list elements, as a process finds them at their addresses. -/
def nodes : Nodes ListElem
  | .head o descIdx => (s.descs o descIdx).1
  | .tail o descIdx => (s.descs o descIdx).2
  | .block b => (s.space p).links b

/-- List elements are written. -/
def setNodes (n : Nodes ListElem) : ForkedHeaps :=
  { s.setSpace p { s.space p with links := fun b => n (.block b) } with
    descs := fun o descIdx => (n (.head o descIdx), n (.tail o descIdx)) }

/-- The links between two addresses are cleared. -/
def clearLinks (first last : Nat) : ForkedHeaps :=
  s.setSpace p { s.space p with
    links := fun b => if first ≤ b ∧ b < last then ⟨.null, .null⟩ else (s.space p).links b }

/-! ## `list.c` -/

/-- `list_append`, to the list of a descriptor -/
def listAppend (o : Owner) (descIdx : Nat) (elem : ListElem) : ForkedHeaps :=
  s.setNodes p ((s.nodes p).insertBefore (.tail o descIdx) elem)

/-- `list_remove` -/
def listRemove (pelem : ListElem) : ForkedHeaps := s.setNodes p ((s.nodes p).remove pelem)

/-- `list_empty` -/
def listEmpty (o : Owner) (descIdx : Nat) : Bool :=
  (s.nodes p (.head o descIdx)).next = .tail o descIdx

/-- `elem_find`. There are fewer than 2^32 addresses; a search that takes more turns never ends. -/
def elemFind (o : Owner) (descIdx : Nat) (objElem : ListElem) : Except Fault Bool :=
  match (s.nodes p).find (.tail o descIdx) objElem (2 ^ 32) (s.nodes p (.head o descIdx)).next with
  | some found => .ok found
  | none => .error (.panic "elem_find" "endless")

/-! ## `sys_malloc` -/

/-- The loop that cuts an arena into blocks. -/
def splitArena (page descIdx : Nat) : (left blockIdx : Nat) → ForkedHeaps → Except Fault ForkedHeaps
  | 0, _, s => .ok s
  | left + 1, blockIdx, s => do
    let b := ListElem.block (arena2block page descIdx blockIdx)
    let found ← s.elemFind p (.side p) descIdx b
    assertThat false (found = false) "sys_malloc" "!elem_find(&a->desc->free_list, &b->free_elem)"
    splitArena page descIdx left (blockIdx + 1) (s.listAppend p (.side p) descIdx b)

/-- A new arena for blocks of a size; `false` is `NULL`. -/
def newArena (descIdx : Nat) : Except Fault (Bool × ForkedHeaps) := do
  let (a, m) ← (s.view p).mallocPage .user 1
  match a with
  | none => return (false, s.setMemory p m)
  | some a => do
    let m ← m.clearPages "sys_malloc" a 1
    let s := (s.setMemory p m).clearLinks p (4096 * a) (4096 * (a + 1))
    let s := s.setArena p a ⟨some (.side p, descIdx), blocksPerArena descIdx, false⟩
    let s ← splitArena p a descIdx (blocksPerArena descIdx) 0 s
    return (true, s)

/-- The first block of the list is taken off, and cleared. -/
def takeBlock (descIdx : Nat) : Except Fault (Nat × ForkedHeaps) :=
  match (s.nodes p (.head (.side p) descIdx)).next with
  | .block b => do
    let s := s.listRemove p (.block b)
    let _ ← (s.view p).readPage "sys_malloc" (b / 4096)
    let _ ← (s.view p).readPage "sys_malloc" ((b + blockSize descIdx - 1) / 4096)
    let s := s.clearLinks p b (b + blockSize descIdx)
    let page := block2arena b
    let a := (s.space p).arena page
    return (b, s.setArena p page { a with cnt := u32 (a.cnt - 1) })
  | _ => .error (.pageFault "sys_malloc")

/-- A large request. -/
def mallocLarge (size : Nat) : Except Fault (Option Nat × ForkedHeaps) := do
  let pgCnt := largePages size
  let (a, m) ← (s.view p).mallocPage .user pgCnt
  match a with
  | none => return (none, s.setMemory p m)
  | some a => do
    let m ← m.clearPages "sys_malloc" a pgCnt
    let s := (s.setMemory p m).clearLinks p (4096 * a) (4096 * (a + pgCnt))
    return (some (4096 * a + arenaSize), s.setArena p a ⟨none, pgCnt, true⟩)

/-- A small request. -/
def mallocSmall (size : Nat) : Except Fault (Option Nat × ForkedHeaps) := do
  let descIdx := matchDesc size
  let (there, s) ← if s.listEmpty p (.side p) descIdx then s.newArena p descIdx else pure (true, s)
  if there = true then do
    let (b, s) ← s.takeBlock p descIdx
    return (some b, s)
  else return (none, s)

/-- `sys_malloc`, called by one of the processes -/
def sysMalloc (size : Nat) : Except Fault (Option Nat × ForkedHeaps) :=
  if ¬ (size > 0 ∧ size < s.poolSize) then .ok (none, s)
  else if size > 1024 then s.mallocLarge p size
  else s.mallocSmall p size

/-! ## `sys_free` -/

/-- The loop that takes the blocks of an arena off the list again. -/
def takeOff (o : Owner) (page descIdx : Nat) :
    (left bkIdx : Nat) → ForkedHeaps → Except Fault ForkedHeaps
  | 0, _, s => .ok s
  | left + 1, bkIdx, s => do
    let b := ListElem.block (arena2block page descIdx bkIdx)
    let found ← s.elemFind p o descIdx b
    assertThat false (found = true) "sys_free" "elem_find(&a->desc->free_list, &b->free_elem)"
    takeOff o page descIdx left (bkIdx + 1) (s.listRemove p b)

/-- A small block goes to the list of the descriptor that the header of its arena leads to. -/
def freeSmall (ptr : Nat) (o : Owner) (descIdx : Nat) : Except Fault ForkedHeaps := do
  let page := block2arena ptr
  let s := s.listAppend p o descIdx (.block ptr)
  let a := (s.space p).arena page
  let cnt := u32 (a.cnt + 1)
  let s := s.setArena p page { a with cnt }
  if cnt = blocksPerArena descIdx then do
    let s ← takeOff p o page descIdx (blocksPerArena descIdx) 0 s
    let m ← (s.view p).mfreePage .user page 1
    return s.setMemory p m
  else return s

/-- `sys_free`, called by one of the processes -/
def sysFree (ptr : Nat) : Except Fault ForkedHeaps := do
  assertThat false (ptr ≠ 0) "sys_free" "ptr != NULL"
  let page := block2arena ptr
  let _ ← (s.view p).readPage "sys_free" page
  let a := (s.space p).arena page
  match a.desc with
  | some (o, descIdx) => s.freeSmall p ptr o descIdx
  | none =>
    if a.large = true then do
      let m ← (s.view p).mfreePage .user page a.cnt
      return s.setMemory p m
    else .error (.pageFault "sys_free")

/-! ## `sys_fork` -/

/-- `list_init`, for the list of a descriptor -/
def listInit (o : Owner) (descIdx : Nat) : Node ListElem × Node ListElem :=
  (⟨.null, .tail o descIdx⟩, ⟨.head o descIdx, .null⟩)

/-- The child has new descriptors and the parent's bitmap; what is in the parent's pages, headers
and links too, is in its own ones. It will run with the directory that `page_dir_activate` finds in
its page. -/
def withChild (child : Proc) (m : Memory) : ForkedHeaps where
  memory := m
  space := Function.update s.space .child
    { s.space .parent with cr3 := (m.pageAt kernelDir child.pgdir).getD 0,
                           userVaddr := child.vaddrBitmap }
  descs := Function.update s.descs (.side .child) (listInit (.side .child))
  poolSize := s.poolSize
  live := Function.update s.live .child (s.live .parent)

/-- `sys_fork`, called by the parent; `false` is −1. -/
def sysFork (parent : Proc) : Except Fault (Bool × ForkedHeaps) := do
  let (child, m) ← (s.view .parent).sysFork parent
  match child with
  | none => return (false, s.setMemory .parent m)
  | some child => return (true, s.withChild child m)

/-! ## The calls of both processes, in any order -/

end ForkedHeaps

/-- A call by one of the processes. -/
inductive HeapsCall where
  | malloc (p : Side) (size : Nat)
  | free (p : Side) (ptr : Nat)
  deriving DecidableEq, Repr

/-- The process that calls. -/
def HeapsCall.caller : HeapsCall → Side
  | .malloc p _ => p
  | .free p _ => p

namespace ForkedHeaps

/-- What a call does, and what it answers. -/
def step (s : ForkedHeaps) : HeapsCall → Except Fault (ForkedHeaps × Option Nat)
  | .malloc p size => do
    let (b, s) ← s.sysMalloc p size
    match b with
    | none => return (s, none)
    | some b => return ({ s with live := Function.update s.live p (insert b (s.live p)) }, some b)
  | .free p ptr => do
    let s ← s.sysFree p ptr
    return ({ s with live := Function.update s.live p ((s.live p).erase ptr) }, none)

/-- A process frees what it has got. -/
def Enabled (s : ForkedHeaps) : HeapsCall → Prop
  | .malloc _ _ => True
  | .free p ptr => ptr ∈ s.live p

def machine : Machine ForkedHeaps HeapsCall (Option Nat) Fault where
  enabled := Enabled
  step := step

end ForkedHeaps

end SeekingOs
