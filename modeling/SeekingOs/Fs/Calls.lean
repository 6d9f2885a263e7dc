import SeekingOs.Fs.Fsck
import SeekingOs.Fs.OneWriter
import SeekingOs.Fs.OpenLeaks

/-!
# The system calls of the file system

The mounted volume with `file_table` and the descriptors of one process. A path is searched for, the
directory that the search leaves open gives the place, and the call does its work there: `sys_open`
with `file_create` and `file_open`, `sys_write`, `sys_close`, `sys_mkdir`, `sys_rmdir` with
`dir_remove`, and `sys_unlink`.
-/

namespace SeekingOs.Fs

open Lib

variable {sb : SuperBlock}

/-- The mounted volume, `file_table` with the inodes by their numbers, and the `fd_table` of the
caller. -/
structure Session (sb : SuperBlock) where
  vol : Volume sb
  file : Nat → File
  fdTable : Nat → Int

/-- What `sys_malloc` answers in `file_create`. -/
structure CreateHeap where
  ioBuf : Bool
  newFileInode : Bool

/-! ## Directories -/

section Directories

variable (v : Volume sb)

/-- `sys_mkdir`; `heap` says whether `sys_malloc` answers. -/
def Volume.sysMkdir (heap : Bool) (dirE : DirEntry) (pathName : List Byte) :
    Except Fault (Int × Volume sb) :=
  if heap = false then .ok (-1, v)
  else do
    let (inodeNo, s) ← searchFile v dirE pathName
    let parentDir := s.record.parentDir
    if inodeNo ≠ -1 then return (-1, s.vol.dirClose parentDir)
    else
      let pathNameDepth ← pathDepthCnt pathName
      let pathSearchedDepth ← pathDepthCnt s.record.searchedPath
      if pathNameDepth ≠ pathSearchedDepth then return (-1, s.vol.dirClose parentDir)
      else
        match ← Fs.sysMkdir s.vol.part (s.vol.inode parentDir.inodeNo)
          (OpenState.baseName s.record.searchedPath) with
        | none => return (-1, s.vol.dirClose parentDir)
        | some (p, parentInode, _) =>
          return (0, (s.vol.put parentDir.inodeNo p parentInode).dirClose parentDir)

/-- `dir_remove`; `ioBuf` says whether `sys_malloc` answers. -/
def Volume.dirRemove (ioBuf : Bool) (parentDir childDir : DirRef) :
    Except Fault (Int × Volume sb) := do
  let childDirInode := v.inode childDir.inodeNo
  assertThat false (∀ blockIdx ∈ List.range' 1 12, childDirInode.iSectors blockIdx = 0) "dir_remove"
    "child_dir_inode->i_sectors[block_idx] == 0"
  if ioBuf = false then return (-1, v)
  else
    let (_, p, inode) ← deleteDirEntry v.part (v.inode parentDir.inodeNo) childDirInode.iNo
    let v ← (v.put parentDir.inodeNo p inode).inodeRealse childDirInode.iNo
    return (0, v)

/-- `sys_rmdir` -/
def Volume.sysRmdir (ioBuf : Bool) (dirE : DirEntry) (pathName : List Byte) :
    Except Fault (Int × Volume sb) := do
  let (inodeNo, s) ← searchFile v dirE pathName
  let parentDir := s.record.parentDir
  assertThat false (inodeNo ≠ 0) "sys_rmdir" "inode_no != 0"
  if inodeNo = -1 ∨ s.record.fileType = ftRegular then return (-1, s.vol.dirClose parentDir)
  else
    let (vol, dir2del) ← s.vol.dirOpen (u32 inodeNo)
    if dirIsEmpty (vol.inode dir2del.inodeNo) = false then
      return (-1, (vol.dirClose dir2del).dirClose parentDir)
    else
      let (ret, vol) ← vol.dirRemove ioBuf parentDir dir2del
      return (ret, (vol.dirClose dir2del).dirClose parentDir)

end Directories

/-! ## Files -/

namespace Session

variable (s : Session sb)

/-- `get_free_slot_in_global` -/
def getFreeSlotInGlobal : Option Nat :=
  (List.range' 3 29).find? fun fdIdx => (s.file fdIdx).fdInode == none

/-- `pcb_fd_install` -/
def pcbFdInstall (globalFdIdx : Nat) : Int × Session sb :=
  match (List.range' 3 5).find? fun localFdIdx => s.fdTable localFdIdx == -1 with
  | some localFdIdx =>
    (localFdIdx, { s with fdTable := Function.update s.fdTable localFdIdx globalFdIdx })
  | none => (-1, s)

def setPart (p : Part sb) : Session sb := { s with vol := { s.vol with part := p } }

/-- `file_create` -/
def fileCreate (heap : CreateHeap) (parentDir : DirRef) (name : Name) (flag : Nat) :
    Except Fault (Int × Session sb) :=
  if heap.ioBuf = false then .ok (-1, s)
  else do
    match ← inodeBitmapAlloc s.vol.part with
    | none => return (-1, s)
    | some (inodeNo, p) =>
      if heap.newFileInode = false then return (-1, s.setPart (p.setInode inodeNo false))
      else
        match s.getFreeSlotInGlobal with
        | none => return (-1, s.setPart (p.setInode inodeNo false))
        | some fdIdx =>
          let file := Function.update s.file fdIdx ⟨0, flag, some inodeNo⟩
          let newDirEntry ← createDirEntry name inodeNo ftRegular zeros
          match ← syncDirEntry p (s.vol.inode parentDir.inodeNo) newDirEntry zeros with
          | (false, p, parentInode) =>
            return (-1, { s with
              vol := s.vol.put parentDir.inodeNo (p.setInode inodeNo false) parentInode, file :=
                Function.update file fdIdx ⟨0, 0, none⟩ })
          | (true, p, parentInode) =>
            let p ← inodeSync p parentInode zeros
            let p ← inodeSync p (inodeInit inodeNo) zeros
            let p := inodeBitmapSync p inodeNo
            let vol :=
              (s.vol.put parentDir.inodeNo p parentInode).put inodeNo p
                { inodeInit inodeNo with iOpenCnts := 1 }
            return ({ s with vol, file } : Session sb).pcbFdInstall fdIdx

/-- `file_open` -/
def fileOpen (inodeNo flag : Nat) : Except Fault (Int × Session sb) :=
  match s.getFreeSlotInGlobal with
  | none => .ok (-1, s)
  | some fdIdx => do
    let inode ← s.vol.inodeOpen inodeNo
    let file := Function.update s.file fdIdx ⟨0, flag, some inodeNo⟩
    if Writing flag then
      if inode.writenDeny then
        return (-1, { s with vol := s.vol.put inodeNo s.vol.part inode, file })
      else
        return ({ s with
          vol := s.vol.put inodeNo s.vol.part { inode with writenDeny := true },
          file } : Session sb).pcbFdInstall fdIdx
    else return ({ s with
      vol := s.vol.put inodeNo s.vol.part inode, file } : Session sb).pcbFdInstall fdIdx

/-- `sys_open` -/
def sysOpen (heap : CreateHeap) (dirE : DirEntry) (pathName : List Byte) (flags : Nat) :
    Except Fault (Int × Session sb) :=
  match pathName.getLast? with
  | none => .error (.outOfBounds "sys_open")
  | some last =>
    if last = slash then .ok (-1, s)
    else do
      assertThat false (flags ≤ 7) "sys_open" "flags <= 7"
      let pathNameDepth ← pathDepthCnt pathName
      let (inodeNo, w) ← searchFile s.vol dirE pathName
      let parentDir := w.record.parentDir
      if w.record.fileType = ftDirectory then
        return (-1, { s with vol := w.vol.dirClose parentDir })
      else
        let pathSearchedDepth ← pathDepthCnt w.record.searchedPath
        if pathNameDepth ≠ pathSearchedDepth then
          return (-1, { s with vol := w.vol.dirClose parentDir })
        else if inodeNo = -1 ∧ flags &&& oCreate = 0 then
          return (-1, { s with vol := w.vol.dirClose parentDir })
        else if inodeNo ≠ -1 ∧ flags &&& oCreate ≠ 0 then
          return (-1, { s with vol := w.vol.dirClose parentDir })
        else if flags &&& oCreate ≠ 0 then
          let (fd, s) ← ({ s with vol := w.vol } : Session sb).fileCreate heap parentDir
              (OpenState.baseName w.record.searchedPath) flags
          return (fd, { s with vol := s.vol.dirClose parentDir })
        else ({ s with vol := w.vol } : Session sb).fileOpen (u32 inodeNo) flags

/-- `fd_local2global` -/
def fdLocal2global (fd : Nat) : Except Fault Nat := do
  let globalFd := s.fdTable fd
  assertThat false (globalFd ≥ 0 ∧ globalFd ≤ maxFilesOpen) "fd_local2global"
    "global_fd >= 0 && global_fd <= MAX_FILES_OPEN"
  return globalFd.toNat

/-- `file_close`, with `inode_close` -/
def fileClose (g : Nat) : Except Fault (Session sb) :=
  match (s.file g).fdInode with
  | none => .error (.pageFault "file_close")
  | some inodeNo =>
    let inode := { s.vol.inode inodeNo with writenDeny := false }
    .ok { s with
      vol := s.vol.inodeClose inodeNo s.vol.part inode, file :=
        Function.update s.file g { s.file g with fdInode := none } }

/-- `sys_close` of a descriptor that is no pipe's -/
def sysClose (fd : Int) : Except Fault (Int × Session sb) :=
  if fd > 2 then do
    let globalFd ← s.fdLocal2global fd.toNat
    let s ← s.fileClose globalFd
    return (0, { s with fdTable := Function.update s.fdTable fd.toNat (-1) })
  else .ok (-1, s)

/-- `sys_write` to a descriptor that is no pipe's; `heap` says whether `sys_malloc` answers. What is
written to the console goes through a buffer of 1024 bytes. -/
def sysWrite (heap : Bool) (fd : Int) (buf : Buf) (count : Nat) : Except Fault (Int × Session sb) :=
  if fd < 0 then .ok (-1, s)
  else if fd = 1 then if count ≤ 1024 then .ok (count, s) else .error (.outOfBounds "sys_write")
  else do
    let globalFd ← s.fdLocal2global fd.toNat
    let wrFile := s.file globalFd
    if Writing wrFile.fdFlag then
      match wrFile.fdInode with
      | none => throw (.pageFault "file_write")
      | some inodeNo =>
        let r ← fileWrite heap s.vol.part (s.vol.inode inodeNo) wrFile.fdPos buf count
        return ((r.ret.elim (-1) fun n => (n : Int)),
          { s with vol := s.vol.put inodeNo r.part r.inode,
                   file := Function.update s.file globalFd { wrFile with fdPos := r.fdPos } })
    else return (-1, s)

/-- `sys_read` from a descriptor that is neither the keyboard's nor a pipe's. It answers the
caller's buffer too. -/
def sysRead (heap : Bool) (fd : Int) (buf : Buf) (count : Nat) :
    Except Fault ((Int × Buf) × Session sb) :=
  if fd < 0 ∨ fd = 1 ∨ fd = 2 then .ok ((-1, buf), s)
  else do
    let globalFd ← s.fdLocal2global fd.toNat
    let rdFile := s.file globalFd
    match rdFile.fdInode with
    | none => throw (.pageFault "file_read")
    | some inodeNo =>
      let r ← fileRead heap s.vol.part (s.vol.inode inodeNo) rdFile.fdPos buf count
      return ((r.ret.elim (-1) fun n => (n : Int), r.buf),
        { s with file := Function.update s.file globalFd { rdFile with fdPos := r.fdPos } })

/-- `sys_lseek` of a descriptor that is no pipe's -/
def sysLseek (fd offset : Int) (whence : Nat) : Except Fault (Int × Session sb) :=
  if fd < 0 then .ok (-1, s)
  else do
    assertThat false (whence > 0 ∧ whence < 4) "sys_lseek" "whence > 0 && whence < 4"
    let globalFd ← s.fdLocal2global fd.toNat
    let pf := s.file globalFd
    match pf.fdInode with
    | none => throw (.pageFault "sys_lseek")
    | some inodeNo =>
      let (fdPos, ret) ← Fs.sysLseek (s.vol.inode inodeNo) pf.fdPos offset whence
      return (ret.elim (-1) fun n => (n : Int),
        { s with file := Function.update s.file globalFd { pf with fdPos } })

/-- The inodes in `file_table`. -/
def openFiles : List Nat :=
  (List.range maxFilesOpen).filterMap fun fileIdx => (s.file fileIdx).fdInode

/-- `sys_unlink` -/
def sysUnlink (ioBuf : Bool) (dirE : DirEntry) (pathName : List Byte) :
    Except Fault (Int × Session sb) := do
  let (ret, vol) ← Fs.sysUnlink s.openFiles ioBuf s.vol dirE pathName
  return (ret, { s with vol })

end Session

/-! ## The system -/

/-- The calls. What the stack holds where `dir_e` will be comes with each path, and with a read what
is in the caller's buffer. -/
inductive SysCall where
  | open (heap : CreateHeap) (dirE : DirEntry) (pathName : List Byte) (flags : Nat)
  | close (fd : Int)
  | write (heap : Bool) (fd : Int) (buf : Buf) (count : Nat)
  | read (heap : Bool) (fd : Int) (buf : Buf) (count : Nat)
  | lseek (fd offset : Int) (whence : Nat)
  | mkdir (heap : Bool) (dirE : DirEntry) (pathName : List Byte)
  | rmdir (ioBuf : Bool) (dirE : DirEntry) (pathName : List Byte)
  | unlink (ioBuf : Bool) (dirE : DirEntry) (pathName : List Byte)

/-- What a call returns, with the buffer that a read fills. -/
structure Reply where
  ret : Int
  buf : Option Buf

/-- What a call does, and what it returns. -/
def Session.call (s : Session sb) : SysCall → Except Fault (Session sb × Reply)
  | .open heap dirE pathName flags => (s.sysOpen heap dirE pathName flags).map fun r =>
      (r.2, ⟨r.1, none⟩)
  | .close fd => (s.sysClose fd).map fun r => (r.2, ⟨r.1, none⟩)
  | .write heap fd buf count => (s.sysWrite heap fd buf count).map fun r => (r.2, ⟨r.1, none⟩)
  | .read heap fd buf count => (s.sysRead heap fd buf count).map fun r => (r.2, ⟨r.1.1, some r.1.2⟩)
  | .lseek fd offset whence => (s.sysLseek fd offset whence).map fun r => (r.2, ⟨r.1, none⟩)
  | .mkdir heap dirE pathName => (s.vol.sysMkdir heap dirE pathName).map fun r =>
      ({ s with vol := r.2 }, ⟨r.1, none⟩)
  | .rmdir ioBuf dirE pathName => (s.vol.sysRmdir ioBuf dirE pathName).map fun r =>
      ({ s with vol := r.2 }, ⟨r.1, none⟩)
  | .unlink ioBuf dirE pathName => (s.sysUnlink ioBuf dirE pathName).map fun r => (r.2, ⟨r.1, none⟩)

/-- The numbers of a call are of their types, a descriptor is an index of `fd_table`, and no read is
from the keyboard. -/
def SysCall.Typed : SysCall → Prop
  | .close fd => fd < 8
  | .write _ fd _ count => fd < 8 ∧ count < 2 ^ 32
  | .read _ fd _ count => fd < 8 ∧ fd ≠ 0 ∧ count < 2 ^ 32
  | .lseek fd offset _ => fd < 8 ∧ -2 ^ 31 ≤ offset ∧ offset < 2 ^ 31
  | _ => True

/-- The calls as a machine. -/
def sysMachine (sb : SuperBlock) : Machine (Session sb) SysCall Reply Fault where
  enabled _ e := e.Typed
  step := Session.call

end SeekingOs.Fs
