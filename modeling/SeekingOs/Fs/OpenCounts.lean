import SeekingOs.Fs.InodeHeap
import SeekingOs.Lib.RefCount

/-!
# Who has an inode open

The calls that open and close directories, beside the ones that open and close files. `search_file`
opens the directories of the path one after the other and closes each again but the last, which is
its caller's to close.

`inode_realse` opens the inode that it deletes, and `sys_rmdir` the directory, so that both
are opened once more while they go away.
-/

namespace SeekingOs.Fs.Cached

open Lib

/-- `ASSERT(cond)` in the function `func` -/
def asserted (cond : Bool) (func text : String) : Code Unit :=
  if cond then pure () else throw (.assert func text)

/-- `inode_realse` -/
def inodeRealse (inodeNo : Nat) : Code Unit := do
  let inode2del ← inodeOpen inodeNo
  asserted ((← get).iNo inode2del == inodeNo) "inode_realse" "inode2del->i_no == inode_no"
  let ioBuf ← sysMalloc
  modify fun s => { s with diskNo := Function.update s.diskNo inodeNo 0 }
  sysFree ioBuf
  inodeClose inode2del

/-- `delete_dir_entry` writes the inode of the directory when it has found the entry. -/
def deleteDirEntry (pdir : Dir) (found : Bool) : Code Unit :=
  if found then inodeSync pdir.inode else pure ()

/-- A slot of `file_table` leads to an inode of that number. -/
def inUse (s : InodeHeap) (inodeNo : Nat) : Bool :=
  (List.range 32).any fun g => (s.slots g).any fun inode => s.iNo inode == inodeNo

/-- `sys_unlink` -/
def sysUnlink (path : Path) (ioBuf found : Bool) : Code Unit := do
  let searched ← searchFile path
  asserted (searched.inodeNo != some 0) "sys_unlink" "inode_no != 0"
  match searched.inodeNo with
  | none => dirClose searched.parentDir
  | some inodeNo =>
    if searched.directory then dirClose searched.parentDir
    else if inUse (← get) inodeNo then dirClose searched.parentDir
    else
      match ← trySysMalloc ioBuf with
      | none => dirClose searched.parentDir
      | some ioBuf =>
        deleteDirEntry searched.parentDir found
        inodeRealse inodeNo
        sysFree ioBuf
        dirClose searched.parentDir

/-- `dir_remove`, if the directory is `empty` -/
def dirRemove (empty : Bool) (parentDir childDir : Dir) (ioBuf found : Bool) : Code Unit := do
  let some ioBuf ← trySysMalloc (empty && ioBuf) | return
  deleteDirEntry parentDir found
  inodeRealse ((← get).iNo childDir.inode)
  sysFree ioBuf

/-- `sys_rmdir` -/
def sysRmdir (path : Path) (empty ioBuf found : Bool) : Code Unit := do
  let searched ← searchFile path
  asserted (searched.inodeNo != some 0) "sys_rmdir" "inode_no != 0"
  match searched.inodeNo with
  | none => dirClose searched.parentDir
  | some inodeNo =>
    if searched.directory then
      let dir2del ← dirOpen inodeNo
      dirRemove empty searched.parentDir dir2del ioBuf found
      dirClose dir2del
      dirClose searched.parentDir
    else dirClose searched.parentDir

/-- `sys_chdir`: nothing is closed. -/
def sysChdir (path : Path) : Code Unit := do
  let _ ← searchFile path

/-! ## The machine -/

/-- The inodes, and the directories that `sys_opendir` has answered and that are not closed yet. -/
structure Opened where
  heap : InodeHeap
  dirs : List Dir

/-- A system call. -/
inductive CountCall where
  | sysOpen (slash : Bool) (path : Path) (sameDepth create : Bool) (a : CreateAnswers)
  | sysClose (g : Nat)
  | sysOpendir (path : Path)
  | sysClosedir (dir : Dir)
  | sysStat (path : Path)
  | sysChdir (path : Path)
  | sysMkdir (ioBuf : Bool) (path : Path) (sameDepth : Bool) (made : Option Nat)
  | sysRmdir (path : Path) (empty ioBuf found : Bool)
  | sysUnlink (path : Path) (ioBuf found : Bool)
  deriving DecidableEq, Repr

/-- The code of a call, which answers the open directories. -/
def CountCall.code (dirs : List Dir) : CountCall → Code (List Dir)
  | .sysOpen slash path sameDepth create a => do
    Cached.sysOpen slash path sameDepth create a
    return dirs
  | .sysClose g => do
    Cached.sysClose g
    return dirs
  | .sysOpendir path => return (← Cached.sysOpendir path).toList ++ dirs
  | .sysClosedir dir => do
    dirClose dir
    return dirs.erase dir
  | .sysStat path => do
    Cached.sysStat path
    return dirs
  | .sysChdir path => do
    Cached.sysChdir path
    return dirs
  | .sysMkdir ioBuf path sameDepth made => do
    Cached.sysMkdir ioBuf path sameDepth made
    return dirs
  | .sysRmdir path empty ioBuf found => do
    Cached.sysRmdir path empty ioBuf found
    return dirs
  | .sysUnlink path ioBuf found => do
    Cached.sysUnlink path ioBuf found
    return dirs

/-- A task makes a call: a kernel thread, or a process. -/
structure CountEvent where
  task : Nat
  process : Bool
  call : CountCall
  deriving DecidableEq, Repr

/-- The inode that an open directory holds. `root_dir` is open by itself. -/
def Dir.held (dir : Dir) : List Block := if dir.block.isSome then [dir.inode] else []

/-- `sizeof(struct dir)` -/
def sizeofDir : Nat := 520

/-- What is closed is open. Each open directory but `root_dir` is a `struct dir` of its own in an
address space of 4 GiB. -/
def countEnabled (s : Opened) (e : CountEvent) : Prop :=
  match e.call with
  | .sysClose g => s.heap.slots g ≠ none
  | .sysClosedir dir => dir ∈ s.dirs
  | .sysOpendir _ => sizeofDir * (s.dirs.flatMap Dir.held).length < 2 ^ 32
  | _ => True

instance (s : Opened) (e : CountEvent) : Decidable (countEnabled s e) := by
  unfold countEnabled
  split <;> exact inferInstance

/-- The tasks call the file system in any order. -/
def countMachine : Machine Opened CountEvent Unit Fault where
  enabled := countEnabled
  step s e := do
    let (dirs, heap) ← e.call.code s.dirs { s.heap with cur := e.task, pgdir := e.process }
    return (⟨heap, dirs⟩, ())

instance (s : Opened) (e : CountEvent) : Decidable (countMachine.enabled s e) :=
  inferInstanceAs (Decidable (countEnabled s e))

/-- After `filesys_init` -/
def countStart (diskNo : Nat → Nat) : Opened := ⟨inodeStart diskNo, []⟩

/-! ## The balance -/

/-- Who has an inode open between two calls: slots of `file_table`, directories, and the root
directory. -/
def Opened.number (s : Opened) (b : Block) : Nat :=
  ((List.range 32).countP fun g => s.heap.slots g == some b) +
    (s.dirs.countP fun dir => dir.held == [b]) +
    if b = s.heap.rootInode then 1 else 0

/-- Each inode in `open_inodes` counts those who have it open, and it is there as long as there are
some. -/
structure Balanced (s : Opened) : Prop where
  counts : ∀ b ∈ s.heap.openInodes, s.heap.iOpenCnts b = s.number b
  linked : ∀ b, b ∈ s.heap.openInodes ↔ 0 < s.number b

/-- `search_file` leaves a directory open other than `root_dir`. -/
def Path.enters : Path → Bool
  | .root => false
  | .names _ (.done _) => true
  | .names dirs _ => !dirs.isEmpty

/-- The call never closes the directory that `search_file` has left open: `sys_open` of an existing
file that is not in the root, and `sys_chdir` unless it gets no further than the root. -/
def CountCall.leaks : CountCall → Bool
  | .sysOpen false (.names dirs (.regular _)) true false _ => !dirs.isEmpty
  | .sysChdir path => path.enters
  | _ => false

/-- The step closes what it has opened. -/
def ClosesParent (_ : Opened) (e : CountEvent) : Prop := e.call.leaks = false

end SeekingOs.Fs.Cached
