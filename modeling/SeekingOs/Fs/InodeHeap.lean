import SeekingOs.Kernel.Base
import SeekingOs.Lib.Machine

/-!
# From which heap an in-memory inode is

`sys_malloc` and `sys_free` take the pool from `pgdir` of the running task: a kernel thread uses the
kernel's heap, a process its own. An inode in `open_inodes` outlives the call that has made it, and
whoever closes it last frees it. So `inode_open` and `inode_close` set `pgdir` to `NULL` around the
call. `file_create` does not.

The functions are translated as far as they allocate and free: what a path leads to and what the
disk answers are arguments, and so is whether `sys_malloc` answers where the code asks. Pipes have
no inode.
-/

namespace SeekingOs.Fs.Cached

open Lib

/-- The heap of the kernel, or that of a process. -/
inductive Heap where
  | kernel
  | user (p : Nat)
  deriving DecidableEq, Repr

/-- A block that `sys_malloc` has answered. Blocks of the kernel's heap, and no others, lie at
`K_HEAP_START` or above. -/
structure Block where
  heap : Heap
  serial : Nat
  deriving DecidableEq, Repr

/-- `file_table[i]`, its inode alone. -/
abbrev Slots := Nat → Option Block

structure InodeHeap where
  /-- The running task. -/
  cur : Nat
  /-- `cur->pgdir != NULL` -/
  pgdir : Bool
  openInodes : List Block
  iNo : Block → Nat
  iOpenCnts : Block → Nat
  /-- The `i_no` in each place of the inode table. -/
  diskNo : Nat → Nat
  /-- The inode of `root_dir`. -/
  rootInode : Block
  slots : Slots
  /-- Ghost: how many blocks there have been. -/
  next : Nat
  /-- Ghost: of every block freed, the heap it was from and the heap it was given to. -/
  frees : List (Heap × Heap)

/-- The heap that `sys_malloc` and `sys_free` work on. -/
def InodeHeap.heap (s : InodeHeap) : Heap := if s.pgdir then .user s.cur else .kernel

/-- Kernel code that allocates. -/
abbrev Code := StateT InodeHeap (Except Fault)

theorem get_bind {α : Type} (f : InodeHeap → Code α) (s : InodeHeap) : (get >>= f) s = f s s := rfl

/-- `sys_malloc` -/
def sysMalloc : Code Block := fun s => .ok (⟨s.heap, s.next⟩, { s with next := s.next + 1 })

/-- `sys_malloc` where the caller asks for `NULL`. -/
def trySysMalloc (answers : Bool) : Code (Option Block) :=
  if answers then some <$> sysMalloc else pure none

/-- The assertion of `sys_free` for a kernel thread. -/
def sysFreeAssert : Fault := .assert "sys_free" "(uint32_t)ptr >= K_HEAP_START"

/-- `sys_free` -/
def sysFree (b : Block) : Code Unit := fun s =>
  if s.pgdir = false ∧ b.heap ≠ .kernel then .error sysFreeAssert
  else .ok ((), { s with frees := s.frees ++ [(b.heap, s.heap)] })

/-- `cur->pgdir = NULL`, and back after `f`. -/
def withoutPgdir {α : Type} (f : Code α) : Code α := do
  let curPgdir := (← get).pgdir
  modify ({ · with pgdir := false })
  let a ← f
  modify ({ · with pgdir := curPgdir })
  return a

/-- `inode_open` -/
def inodeOpen (inodeNo : Nat) : Code Block := do
  let s ← get
  match s.openInodes.find? fun b => s.iNo b == inodeNo with
  | some b =>
    modify fun s => { s with iOpenCnts := Function.update s.iOpenCnts b (u32 (s.iOpenCnts b + 1)) }
    return b
  | none =>
    let retinode ← withoutPgdir sysMalloc
    let inodeBuf ← sysMalloc
    modify fun s => { s with
      openInodes := retinode :: s.openInodes
      iNo := Function.update s.iNo retinode (s.diskNo inodeNo)
      iOpenCnts := Function.update s.iOpenCnts retinode 1 }
    sysFree inodeBuf
    return retinode

/-- `inode_close` -/
def inodeClose (inode : Block) : Code Unit := do
  modify fun s =>
    { s with iOpenCnts := Function.update s.iOpenCnts inode (u32 (s.iOpenCnts inode - 1)) }
  if (← get).iOpenCnts inode = 0 then
    modify fun s => { s with openInodes := s.openInodes.erase inode }
    withoutPgdir (sysFree inode)

/-- `struct dir`; `root_dir` is no block. -/
structure Dir where
  block : Option Block
  inode : Block
  deriving DecidableEq, Repr

/-- `dir_open` -/
def dirOpen (inodeNo : Nat) : Code Dir := do
  let pdir ← sysMalloc
  return ⟨some pdir, ← inodeOpen inodeNo⟩

/-- `dir_close` -/
def dirClose (dir : Dir) : Code Unit :=
  match dir.block with
  | none => pure ()
  | some pdir => do
    inodeClose dir.inode
    sysFree pdir

/-- `inode_sync`, as far as the number goes -/
def inodeSync (inode : Block) : Code Unit :=
  modify fun s => { s with diskNo := Function.update s.diskNo (s.iNo inode) (s.iNo inode) }

/-- `search_dir_entry`: two buffers. -/
def searchDirEntry : Code Unit := do
  let allBlocks ← sysMalloc
  let buf ← sysMalloc
  sysFree buf
  sysFree allBlocks

/-- How `search_file` ends. -/
inductive Last where
  /-- A name is not there, or there is no memory for `all_blocks`. -/
  | missing (allBlocks : Bool)
  /-- A regular file. -/
  | regular (inodeNo : Nat)
  /-- The names are used up: `dir_e.i_no` is answered. -/
  | done (inodeNo : Nat)
  deriving DecidableEq, Repr

/-- What a path leads to: the root by one of its three names, or through directories to an end. -/
inductive Path where
  | root
  | names (dirs : List Nat) (last : Last)
  deriving DecidableEq, Repr

/-- What `search_file` answers and leaves in `searched_record`. -/
structure Searched where
  inodeNo : Option Nat
  directory : Bool
  parentDir : Dir

/-- The loop of `search_file` through the directories of the path. -/
def searchDirs (parentDir : Dir) (parentInodeNo : Nat) : List Nat → Code (Dir × Nat)
  | [] => pure (parentDir, parentInodeNo)
  | i :: dirs => do
    searchDirEntry
    let parentInodeNo := (← get).iNo parentDir.inode
    dirClose parentDir
    searchDirs (← dirOpen i) parentInodeNo dirs

/-- `search_file` -/
def searchFile (path : Path) : Code Searched := do
  let root : Dir := ⟨none, (← get).rootInode⟩
  match path with
  | .root => return ⟨some 0, true, root⟩
  | .names dirs last =>
    let (parentDir, parentInodeNo) ← searchDirs root 0 dirs
    match last with
    | .missing allBlocks =>
      if allBlocks then searchDirEntry
      return ⟨none, false, parentDir⟩
    | .regular i =>
      searchDirEntry
      return ⟨some i, false, parentDir⟩
    | .done i =>
      dirClose parentDir
      return ⟨some i, true, ← dirOpen parentInodeNo⟩

/-- What `file_create` is answered: memory for `io_buf`, an inode number, memory for the inode, and
`sync_dir_entry`. -/
structure CreateAnswers where
  ioBuf : Bool
  inodeNo : Option Nat
  inode : Bool
  synced : Bool
  deriving DecidableEq, Repr

/-- `get_free_slot_in_global` -/
def freeSlot (slots : Slots) : Option Nat := (List.range' 3 29).find? fun g => slots g == none

def setSlot (g : Nat) (inode : Option Block) : Code Unit :=
  modify fun s => { s with slots := Function.update s.slots g inode }

/-- `file_create` -/
def fileCreate (parentDir : Dir) (a : CreateAnswers) : Code Unit := do
  let some ioBuf ← trySysMalloc a.ioBuf | return
  match a.inodeNo with
  | none => sysFree ioBuf
  | some inodeNo =>
    match ← trySysMalloc a.inode with
    | none => sysFree ioBuf
    | some newFileInode =>
      match freeSlot (← get).slots with
      | none =>
        sysFree newFileInode
        sysFree ioBuf
      | some g =>
        setSlot g (some newFileInode)
        if a.synced then
          inodeSync parentDir.inode
          modify fun s => { s with
            openInodes := newFileInode :: s.openInodes
            iNo := Function.update s.iNo newFileInode inodeNo
            iOpenCnts := Function.update s.iOpenCnts newFileInode 1
            diskNo := Function.update s.diskNo inodeNo inodeNo }
          sysFree ioBuf
        else
          setSlot g none
          sysFree newFileInode
          sysFree ioBuf

/-- `file_open`. Whether it refuses a writer makes no difference to the slot. -/
def fileOpen (inodeNo : Nat) : Code Unit := do
  match freeSlot (← get).slots with
  | none => return
  | some g => setSlot g (some (← inodeOpen inodeNo))

/-- `sys_open`. The path may end in `/`, and its depth may be another than that of the part that was
searched. -/
def sysOpen (slash : Bool) (path : Path) (sameDepth create : Bool) (a : CreateAnswers) :
    Code Unit := do
  if slash then return
  let searched ← searchFile path
  if searched.directory then dirClose searched.parentDir
  else if !sameDepth then dirClose searched.parentDir
  else match searched.inodeNo with
    | none =>
      if create then
        fileCreate searched.parentDir a
        dirClose searched.parentDir
      else dirClose searched.parentDir
    | some inodeNo =>
      if create then dirClose searched.parentDir
      else fileOpen inodeNo

/-- `sys_close` of a descriptor that leads to slot `g` -/
def sysClose (g : Nat) : Code Unit := do
  match (← get).slots g with
  | none => throw (.pageFault "file_close")
  | some inode =>
    inodeClose inode
    setSlot g none

/-- `sys_write` to a file, as far as `file_write` allocates -/
def sysWrite (ioBuf allBlocks : Bool) : Code Unit := do
  let some ioBuf ← trySysMalloc ioBuf | return
  let some allBlocks ← trySysMalloc allBlocks | return
  sysFree ioBuf
  sysFree allBlocks

/-- `sys_mkdir`; `made` is the number of the new inode, if an inode, a block and a directory entry
are to be had. -/
def sysMkdir (ioBuf : Bool) (path : Path) (sameDepth : Bool) (made : Option Nat) : Code Unit := do
  let some ioBuf ← trySysMalloc ioBuf | return
  let searched ← searchFile path
  match if searched.inodeNo.isNone && sameDepth then made else none with
  | some inodeNo =>
    inodeSync searched.parentDir.inode
    modify fun s => { s with diskNo := Function.update s.diskNo inodeNo inodeNo }
    sysFree ioBuf
    dirClose searched.parentDir
  | none =>
    dirClose searched.parentDir
    sysFree ioBuf

/-- `&root_dir` -/
def rootDir : Code Dir := return ⟨none, (← get).rootInode⟩

/-- `dir_open` of what was found, if it is a directory -/
def tryDirOpen : Option Nat → Code (Option Dir)
  | none => pure none
  | some inodeNo => some <$> dirOpen inodeNo

/-- `sys_opendir` -/
def sysOpendir (path : Path) : Code (Option Dir) := do
  if path = .root then return some (← rootDir)
  let searched ← searchFile path
  let ret ← tryDirOpen (if searched.directory then searched.inodeNo else none)
  dirClose searched.parentDir
  return ret

/-- `sys_stat` -/
def sysStat (path : Path) : Code Unit := do
  if path = .root then return
  let searched ← searchFile path
  match searched.inodeNo with
  | none => pure ()
  | some inodeNo =>
    let objInode ← inodeOpen inodeNo
    inodeClose objInode
  dirClose searched.parentDir

/-! ## The machine -/

/-- A system call. -/
inductive InodeCall where
  | sysOpen (slash : Bool) (path : Path) (sameDepth create : Bool) (a : CreateAnswers)
  | sysClose (g : Nat)
  | sysWrite (ioBuf allBlocks : Bool)
  | sysMkdir (ioBuf : Bool) (path : Path) (sameDepth : Bool) (made : Option Nat)
  | sysOpendir (path : Path)
  | sysStat (path : Path)
  deriving DecidableEq, Repr

/-- The code of a call. -/
def InodeCall.code : InodeCall → Code Unit
  | .sysOpen slash path sameDepth create a => Cached.sysOpen slash path sameDepth create a
  | .sysClose g => Cached.sysClose g
  | .sysWrite ioBuf allBlocks => Cached.sysWrite ioBuf allBlocks
  | .sysMkdir ioBuf path sameDepth made => Cached.sysMkdir ioBuf path sameDepth made
  | .sysOpendir path => do let _ ← Cached.sysOpendir path
  | .sysStat path => Cached.sysStat path

/-- A task makes a call: a kernel thread, or a process. -/
structure InodeEvent where
  task : Nat
  process : Bool
  call : InodeCall
  deriving DecidableEq, Repr

/-- A descriptor that is closed leads to a filled slot. -/
def inodeEnabled (s : InodeHeap) (e : InodeEvent) : Prop :=
  match e.call with
  | .sysClose g => s.slots g ≠ none
  | _ => True

instance (s : InodeHeap) (e : InodeEvent) : Decidable (inodeEnabled s e) := by
  unfold inodeEnabled
  split <;> exact inferInstance

/-- Kernel threads and processes call the file system in any order. -/
def inodeMachine : Machine InodeHeap InodeEvent Unit Fault where
  enabled := inodeEnabled
  step s e := do
    let (_, s') ← e.call.code { s with cur := e.task, pgdir := e.process }
    return (s', ())

instance (s : InodeHeap) (e : InodeEvent) : Decidable (inodeMachine.enabled s e) :=
  inferInstanceAs (Decidable (inodeEnabled s e))

/-- After `filesys_init`: the main thread has opened the root. The other inodes on the disk are any.
-/
def inodeStart (diskNo : Nat → Nat) : InodeHeap where
  cur := 0
  pgdir := false
  openInodes := [⟨.kernel, 0⟩]
  iNo _ := 0
  iOpenCnts b := if b = ⟨.kernel, 0⟩ then 1 else 0
  diskNo := diskNo
  rootInode := ⟨.kernel, 0⟩
  slots _ := none
  next := 1
  frees := []

end SeekingOs.Fs.Cached
