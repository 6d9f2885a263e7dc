import Mathlib.Logic.Function.Basic
import SeekingOs.Kernel.Base
import SeekingOs.Lib.Machine

/-!
# Descriptors: `file_table` and the `fd_table` of each process

A descriptor of a process is an index into its `fd_table`, and the number it
finds there an index into the one `file_table` of the system. `fork` and
`sys_fd_redirect` copy the number. How often a slot is shared is counted in two ways:
for a file in the open count of its in-memory inode, for a pipe in `fd_pos`.

What `fd_inode` points to is a number here: the in-memory inode of an open file,
or the page of a pipe. Path lookup and the disk are not part of this model.
What they answer is an argument, and since the disk makes `sys_open` block, it
takes two steps: up to the choice of the slot, and from the answer of the disk on.
-/

namespace SeekingOs.Fs

open Lib

/-- `struct file` -/
structure File where
  fdPos : Nat
  fdFlag : Nat
  fdInode : Option Nat
  deriving DecidableEq, Repr

/-- `MAX_FILES_OPEN` -/
def maxFilesOpen : Nat := 32

/-- `MAX_FILES_OPEN_PER_PROC` -/
def maxFilesOpenPerProc : Nat := 8

/-- `PIPE_FLAG` -/
def pipeFlag : Nat := 0xffffffff

def oWronly : Nat := 1
def oRdwr : Nat := 2

/-- `file_table`, and of each in-memory inode what descriptors change. -/
structure Table where
  file : Nat → File
  iOpenCnts : Nat → Nat
  writenDeny : Nat → Bool

/-- A `sys_open` that waits for the disk. -/
inductive Opening where
  /-- `file_open` has chosen the slot and is in `inode_open`. -/
  | opened (slot flag : Nat)
  /-- `file_create` has filled the slot and is in `sync_dir_entry` or later. -/
  | created (slot inode : Nat)
  deriving DecidableEq, Repr

/-- The part of a process that descriptors are made of. -/
structure Proc where
  fdTable : Nat → Int
  /-- Ghost: the file or pipe that the entry was made to designate. -/
  made : Nat → Option Nat
  opening : Option Opening

/-- Write an entry of `fd_table`. -/
def Proc.set (pr : Proc) (fd : Nat) (g : Int) (object : Option Nat) : Proc :=
  { pr with fdTable := Function.update pr.fdTable fd g, made := Function.update pr.made fd object }

def Table.setFile (tbl : Table) (g : Nat) (file : File) : Table :=
  { tbl with file := Function.update tbl.file g file }

def Table.setCnts (tbl : Table) (inode cnts : Nat) : Table :=
  { tbl with iOpenCnts := Function.update tbl.iOpenCnts inode cnts }

def Table.setDeny (tbl : Table) (inode : Nat) (deny : Bool) : Table :=
  { tbl with writenDeny := Function.update tbl.writenDeny inode deny }

variable (tbl : Table) (pr : Proc)

/-- `get_free_slot_in_global` -/
def getFreeSlot : Option Nat := (List.range' 3 29).find? fun g => (tbl.file g).fdInode == none

/-- The loop of `pcb_fd_install`: the first free entry from 3 on. -/
def freeFd : Option Nat := (List.range' 3 5).find? fun fd => pr.fdTable fd == -1

/-- `pcb_fd_install` -/
def pcbFdInstall (g : Nat) (object : Nat) : Proc × Int :=
  match freeFd pr with
  | some fd => (pr.set fd g (some object), fd)
  | none => (pr, -1)

/-- `fd_local2global` -/
def fdLocal2global (fd : Nat) : Except Fault Nat := do
  let globalFd := pr.fdTable fd
  assertThat false (globalFd ≥ 0 ∧ globalFd ≤ maxFilesOpen) "fd_local2global"
    "global_fd >= 0 && global_fd <= MAX_FILES_OPEN"
  return globalFd.toNat

/-- `is_pipe` -/
def isPipe (fd : Nat) : Except Fault Bool := do
  let globalFd ← fdLocal2global pr fd
  return (tbl.file globalFd).fdFlag == pipeFlag

/-- `file_close`, with `inode_close` -/
def fileClose (g : Nat) : Except Fault Table :=
  match (tbl.file g).fdInode with
  | none => .error (.pageFault "file_close")
  | some inode =>
    let tbl := tbl.setDeny inode false
    let tbl := tbl.setCnts inode (u32 (tbl.iOpenCnts inode - 1))
    .ok (tbl.setFile g { tbl.file g with fdInode := none })

/-- A pipe loses one descriptor, and with the last one its page. -/
def pipeClose (g : Nat) : Table :=
  let fdPos := u32 ((tbl.file g).fdPos - 1)
  tbl.setFile g
    { tbl.file g with fdPos, fdInode := if fdPos = 0 then none else (tbl.file g).fdInode }

/-- The two branches of `sys_close` -/
def closeSlot (pipe : Bool) (g : Nat) : Except Fault Table :=
  if pipe then .ok (pipeClose tbl g) else fileClose tbl g

/-- `sys_close` -/
def sysClose (fd : Int) : Except Fault (Table × Proc × Int) :=
  if fd > 2 then do
    let globalFd ← fdLocal2global pr fd.toNat
    let tbl ← closeSlot tbl (← isPipe tbl pr fd.toNat) globalFd
    return (tbl, pr.set fd.toNat (-1) none, 0)
  else return (tbl, pr, -1)

/-- What path lookup answers to `sys_open`. -/
inductive Lookup where
  /-- A directory, a file that is missing or exists already, or no memory. -/
  | refused
  /-- `file_create` with the in-memory inode that `sys_malloc` has answered. -/
  | create (inode flag : Nat)
  /-- `file_open` of the inode number that was found. -/
  | exists (flag : Nat)
  deriving DecidableEq, Repr

/-- `sys_open` up to the disk. -/
def sysOpen : Lookup → Table × Proc
  | .refused => (tbl, pr)
  | .create inode flag =>
    match getFreeSlot tbl with
    | none => (tbl, pr)
    | some g =>
      ((tbl.setFile g { fdPos := 0, fdFlag := flag, fdInode := some inode }).setDeny inode false,
        { pr with opening := some (.created g inode) })
  | .exists flag =>
    match getFreeSlot tbl with
    | none => (tbl, pr)
    | some g => (tbl, { pr with opening := some (.opened g flag) })

/-- What the disk answers to `sys_open`. -/
inductive DiskAnswer where
  /-- The in-memory inode that `inode_open` answers, and whether it was in `open_inodes`. -/
  | inode (inode : Nat) (cached : Bool)
  /-- Whether `sync_dir_entry` succeeds. -/
  | synced (ok : Bool)
  deriving DecidableEq, Repr

/-- The end of `inode_open`: the inode was in `open_inodes`, or it is loaded from the disk, where
`inode_sync` has cleared `writen_deny`. -/
def inodeOpen (inode : Nat) (cached : Bool) : Table :=
  if cached then tbl.setCnts inode (u32 (tbl.iOpenCnts inode + 1))
  else (tbl.setCnts inode 1).setDeny inode false

/-- The end of `file_open`. -/
def fileOpenEnd (g flag inode : Nat) (cached : Bool) : Table × Proc × Int :=
  let tbl :=
    (inodeOpen tbl inode cached).setFile g { fdPos := 0, fdFlag := flag, fdInode := some inode }
  if flag &&& oWronly ≠ 0 ∨ flag &&& oRdwr ≠ 0 then
    if tbl.writenDeny inode then (tbl, pr, -1)
    else (tbl.setDeny inode true, pcbFdInstall pr g inode)
  else (tbl, pcbFdInstall pr g inode)

/-- The end of `file_create`. When `sync_dir_entry` fails the slot is cleared again. -/
def fileCreateEnd (g inode : Nat) (ok : Bool) : Table × Proc × Int :=
  if ok then (tbl.setCnts inode 1, pcbFdInstall pr g inode)
  else (tbl.setFile g { fdPos := 0, fdFlag := 0, fdInode := none }, pr, -1)

/-- `sys_open` from the disk on. -/
def sysOpenEnd (answer : DiskAnswer) : Table × Proc :=
  let done := { pr with opening := none }
  match pr.opening, answer with
  | some (.opened g flag), .inode inode cached =>
    let (tbl, pr, _) := fileOpenEnd tbl done g flag inode cached
    (tbl, pr)
  | some (.created g inode), .synced ok =>
    let (tbl, pr, _) := fileCreateEnd tbl done g inode ok
    (tbl, pr)
  | _, _ => (tbl, pr)

/-- `sys_pipe`; `get_kernel_pages` has answered `page`. A full `file_table` is not noticed:
the slot is written at index −1. -/
def sysPipe (page : Option Nat) : Except Fault (Table × Proc × Int) :=
  match getFreeSlot tbl with
  | none => .error (.outOfBounds "sys_pipe")
  | some g =>
    match page with
    | none => .ok (tbl.setFile g { tbl.file g with fdInode := none }, pr, -1)
    | some page =>
      let tbl := tbl.setFile g { fdPos := 2, fdFlag := pipeFlag, fdInode := some page }
      let (pr, _) := pcbFdInstall pr g page
      let (pr, _) := pcbFdInstall pr g page
      .ok (tbl, pr, 0)

/-- `sys_fd_redirect` -/
def sysFdRedirect (oldFd newFd : Nat) : Proc :=
  if newFd < 3 then pr.set oldFd newFd none else pr.set oldFd (pr.fdTable newFd) (pr.made newFd)

/-- One turn of the loop of `update_inode_open_cnts`. -/
def updateInodeOpenCnt (fd : Nat) : Except Fault Table := do
  let globalIdx := pr.fdTable fd
  assertThat false (globalIdx < maxFilesOpen) "update_inode_open_cnts" "global_idx < MAX_FILES_OPEN"
  if globalIdx ≠ -1 then
    if ← isPipe tbl pr fd then
      let file := tbl.file globalIdx.toNat
      return tbl.setFile globalIdx.toNat { file with fdPos := u32 (file.fdPos + 1) }
    else
      match (tbl.file globalIdx.toNat).fdInode with
      | none => .error (.pageFault "update_inode_open_cnts")
      | some inode => return tbl.setCnts inode (u32 (tbl.iOpenCnts inode + 1))
  else return tbl

/-- `update_inode_open_cnts` -/
def updateInodeOpenCnts : Except Fault Table :=
  (List.range' 3 5).foldlM (fun tbl fd => updateInodeOpenCnt tbl pr fd) tbl

/-- One turn of the last loop of `release_prog_resource`. -/
def releaseFd (st : Table × Proc) (fd : Nat) : Except Fault (Table × Proc) :=
  let (tbl, pr) := st
  if pr.fdTable fd ≠ -1 then do
    if ← isPipe tbl pr fd then
      let globalIdx ← fdLocal2global pr fd
      return (pipeClose tbl globalIdx, pr)
    else
      let (tbl, pr, _) ← sysClose tbl pr fd
      return (tbl, pr)
  else return (tbl, pr)

/-- The last loop of `release_prog_resource` -/
def releaseFds : Except Fault (Table × Proc) := (List.range' 3 5).foldlM releaseFd (tbl, pr)

/-! ## The system -/

/-- `file_table` and the living processes. -/
structure Files where
  tbl : Table
  procs : Nat → Option Proc

/-- What a process does next. -/
inductive FdEvent where
  | sysOpen (p : Nat) (lookup : Lookup)
  | openEnd (p : Nat) (answer : DiskAnswer)
  | sysClose (p : Nat) (fd : Int)
  | sysPipe (p : Nat) (page : Option Nat)
  | sysFdRedirect (p : Nat) (oldFd newFd : Nat)
  | sysFork (p child : Nat)
  | sysExit (p : Nat)
  deriving DecidableEq, Repr

/-- Write back what process `p` has become. -/
def Files.put (s : Files) (p : Nat) (tbl : Table) (pr : Proc) : Files :=
  { tbl, procs := Function.update s.procs p (some pr) }

/-- A process calls a system call when none of its own is in progress, with descriptors
that are indices of `fd_table`. -/
def fdEnabled (s : Files) : FdEvent → Bool
  | .openEnd p answer =>
    match (s.procs p).bind (·.opening), answer with
    | some (.opened _ _), .inode _ _ | some (.created _ _), .synced _ => true
    | _, _ => false
  | .sysClose p fd => idle p && fd < 8
  | .sysFdRedirect p oldFd newFd => idle p && oldFd < 8 && newFd < 8
  | .sysFork p child => idle p && (s.procs child).isNone
  | .sysOpen p _ | .sysPipe p _ | .sysExit p => idle p
where
  idle (p : Nat) : Bool := match s.procs p with
    | some pr => pr.opening.isNone
    | none => false

/-- One step. -/
def fdStep (s : Files) : FdEvent → Except Fault (Files × Unit)
  | .sysOpen p lookup => run p fun pr =>
    let (tbl, pr) := sysOpen s.tbl pr lookup
    .ok (s.put p tbl pr)
  | .openEnd p answer => run p fun pr =>
    let (tbl, pr) := sysOpenEnd s.tbl pr answer
    .ok (s.put p tbl pr)
  | .sysClose p fd => run p fun pr => do
    let (tbl, pr, _) ← sysClose s.tbl pr fd
    return s.put p tbl pr
  | .sysPipe p page => run p fun pr => do
    let (tbl, pr, _) ← sysPipe s.tbl pr page
    return s.put p tbl pr
  | .sysFdRedirect p oldFd newFd => run p fun pr =>
      .ok (s.put p s.tbl (sysFdRedirect pr oldFd newFd))
  | .sysFork p child => run p fun pr => do
    let tbl ← updateInodeOpenCnts s.tbl pr
    return s.put child tbl pr
  | .sysExit p => run p fun pr => do
    let (tbl, _) ← releaseFds s.tbl pr
    return { tbl, procs := Function.update s.procs p none }
where
  run (p : Nat) (f : Proc → Except Fault Files) : Except Fault (Files × Unit) :=
    match s.procs p with
    | some pr => do return (← f pr, ())
    | none => .ok (s, ())

/-- The descriptors of all processes as a machine. -/
def fdMachine : Machine Files FdEvent Unit Fault := ⟨fun s e => fdEnabled s e = true, fdStep⟩

instance (s : Files) (e : FdEvent) : Decidable (fdMachine.enabled s e) :=
  inferInstanceAs (Decidable (fdEnabled s e = true))

/-- The table of `init_task`: the three standard descriptors. -/
def initProc : Proc where
  fdTable fd := if fd < 3 then fd else -1
  made _ := none
  opening := none

/-- Nothing is open; `live` says which processes there are. -/
def fdStart (live : Nat → Bool) : Files where
  tbl := { file := fun _ => ⟨0, 0, none⟩, iOpenCnts := fun _ => 0, writenDeny := fun _ => false }
  procs p := if live p then some initProc else none

end SeekingOs.Fs
