import SeekingOs.Fs.Inode

/-!
# Directory entries

A directory is a file of 24-byte entries, 21 to a sector and none across two. An
entry whose `f_type` is `FT_UNKOWN` is free.

`search_dir_entry`, `sync_dir_entry` and `delete_dir_entry` each build their own list of
the directory's blocks. The first and the last read the indirect table; `sync_dir_entry` takes
the twelve direct blocks only, so that block 12 always looks unused to it.
-/

namespace SeekingOs.Fs

open Lib

/-- `FT_UNKOWN` -/
def ftUnkown : Nat := 0

/-- `FT_REGULAR` -/
def ftRegular : Nat := 1

/-- `FT_DIRECTORY` -/
def ftDirectory : Nat := 2

/-- `sizeof(struct dir_entry)` -/
def dirEntrySize : Nat := 24

/-- `SECTOR_SIZE / dir_entry_size` -/
def dirEntrysPerSec : Nat := 21

/-- `struct dir_entry` -/
structure DirEntry where
  filename : Buf
  iNo : Nat
  fType : Nat

/-- The entry that memory at an offset is. -/
def dirEntryAt (buf : Buf) (off : Nat) : DirEntry where
  filename k := if k < 16 then buf (off + k) else 0
  iNo := rd32 buf (off + 16)
  fType := rd32 buf (off + 20)

/-- A string in memory, with its end. -/
def strBuf (s : List Byte) : Buf := fun k => s.getD k 0

/-- `!strcmp(a, b)`, for a string in memory and one that is given. -/
def strSame (a : Buf) (off : Nat) : List Byte → Bool
  | [] => a off == 0
  | c :: rest => if a off ≠ 0 ∧ a off = c then strSame a (off + 1) rest else a off == c

/-- `create_dir_entry` -/
def createDirEntry (filename : List Byte) (inodeNo fileType : Nat) (pDe : Buf) :
    Except Fault Buf := do
  assertThat false (filename.length ≤ 16) "create_dir_entry" "strlen(filename) <= MAX_FILENAME_LEN"
  return memcpy (memcpy (memcpy pDe 0 (strBuf filename) filename.length) 16 (le32 inodeNo) 4) 20
    (le32 fileType) 4

variable {sb : SuperBlock}

/-! ## Lookup -/

/-- The index of the entry with a name, in a sector. -/
def findName (buf : Buf) (name : List Byte) : Option Nat :=
  (List.range dirEntrysPerSec).find? fun i => strSame buf (dirEntrySize * i) name

/-- The loop of `search_dir_entry` over the blocks. -/
def searchBlocks (p : Part sb) (allBlocks : Blocks) (name : List Byte) : List Nat → Option DirEntry
  | [] => none
  | blockIdx :: rest =>
    if allBlocks blockIdx = 0 then searchBlocks p allBlocks name rest
    else
      let buf := ideRead p (allBlocks blockIdx) zeros 1
      match findName buf name with
      | some i => some (dirEntryAt buf (dirEntrySize * i))
      | none => searchBlocks p allBlocks name rest

/-- `search_dir_entry`; `heap` says whether `sys_malloc` answers. -/
def searchDirEntry (heap : Bool) (p : Part sb) (pdir : Inode) (name : List Byte) :
    Option DirEntry :=
  if heap then searchBlocks p (collectBlocks p pdir) name (List.range 140) else none

/-! ## Insertion -/

/-- What the directory functions answer: the result, the partition and the directory's inode. -/
abbrev DirResult (sb : SuperBlock) := Bool × Part sb × Inode

/-- `dir_inode->i_size += dir_entry_size` -/
def Inode.grow (dirInode : Inode) : Inode :=
  { dirInode with iSize := u32 (dirInode.iSize + dirEntrySize) }

theorem grow_lt (dirInode : Inode) : dirInode.grow.iSize < 2 ^ 32 :=
  u32_lt (dirInode.iSize + dirEntrySize)

/-- The new entry goes to the start of a new block. -/
def syncNewEntry (p : Part sb) (dirInode : Inode) (blockLba : Nat) (pDe ioBuf : Buf) :
    DirResult sb :=
  (true, ideWrite p blockLba (memcpy (memcpy ioBuf 0 zeros sectorSize) 0 pDe dirEntrySize) 1,
    dirInode.grow)

/-- `block_bitmap_alloc` with the check and the sync after it; `none` is −1. -/
def dirBlockAlloc (p : Part sb) : Except Fault (Option (Nat × Part sb)) := do
  match ← blockBitmapAlloc p with
  | none => return none
  | some (blockLba, p) =>
    assertThat false (blockBit sb blockLba ≠ 2 ^ 32 - 1) "sync_dir_entry" "block_bitmap_idx != -1"
    return some (blockLba, blockBitmapSync p (blockBit sb blockLba))

/-- The case `block_idx == 12` of `sync_dir_entry`: `tableLba` becomes the indirect table. -/
def syncNewTable (p : Part sb) (dirInode : Inode) (allBlocks : Blocks) (tableLba : Nat)
    (pDe ioBuf : Buf) : Except Fault (DirResult sb) := do
  let dirInode := dirInode.setSector 12 tableLba
  match ← dirBlockAlloc p with
  | none => return (false, p.setBlock (blockBit sb tableLba) false, dirInode.setSector 12 0)
  | some (blockLba, p) =>
    let p := writeTable p (dirInode.iSectors 12) (Function.update allBlocks 12 blockLba)
    return syncNewEntry p dirInode blockLba pDe ioBuf

/-- A block that the directory does not have yet. -/
def syncNewBlock (p : Part sb) (dirInode : Inode) (allBlocks : Blocks) (blockIdx : Nat)
    (pDe ioBuf : Buf) : Except Fault (DirResult sb) := do
  match ← dirBlockAlloc p with
  | none => return (false, p, dirInode)
  | some (blockLba, p) =>
    if blockIdx < 12 then
      return syncNewEntry p (dirInode.setSector blockIdx blockLba) blockLba pDe ioBuf
    else if blockIdx = 12 then syncNewTable p dirInode allBlocks blockLba pDe ioBuf
    else
      let p := writeTable p (dirInode.iSectors 12) (Function.update allBlocks blockIdx blockLba)
      return syncNewEntry p dirInode blockLba pDe ioBuf

/-- The index of the first free entry of a sector. -/
def findFree (buf : Buf) : Option Nat :=
  (List.range dirEntrysPerSec).find? fun i => (dirEntryAt buf (dirEntrySize * i)).fType == ftUnkown

/-- The loop of `sync_dir_entry` over the blocks. -/
def syncBlocks (p : Part sb) (dirInode : Inode) (allBlocks : Blocks) (pDe : Buf) (ioBuf : Buf) :
    List Nat → Except Fault (DirResult sb)
  | [] => return (false, p, dirInode)
  | blockIdx :: rest =>
    if allBlocks blockIdx = 0 then syncNewBlock p dirInode allBlocks blockIdx pDe ioBuf
    else
      let buf := ideRead p (allBlocks blockIdx) ioBuf 1
      match findFree buf with
      | some i =>
        return (true, ideWrite p (allBlocks blockIdx)
          (memcpy buf (dirEntrySize * i) pDe dirEntrySize) 1, dirInode.grow)
      | none => syncBlocks p dirInode allBlocks pDe buf rest

/-- `sync_dir_entry` -/
def syncDirEntry (p : Part sb) (dirInode : Inode) (pDe ioBuf : Buf) :
    Except Fault (DirResult sb) := do
  assertThat false (dirInode.iSize % dirEntrySize = 0) "sync_dir_entry"
    "dir_size % dir_entry_size == 0"
  syncBlocks p dirInode (directBlocks dirInode) pDe ioBuf (List.range 140)

/-! ## Deletion -/

/-- What `delete_dir_entry` finds out about a sector. -/
structure EntryScan where
  isDirFirstBlock : Bool
  dirEntryCnt : Nat
  dirEntryFound : Option Nat

/-- `.` -/
def dotName : List Byte := [46]

/-- `..` -/
def dotDotName : List Byte := [46, 46]

/-- The loop of `delete_dir_entry` over the entries of a sector. -/
def scanEntries (buf : Buf) (inodeNo : Nat) (s : EntryScan) : List Nat → Except Fault EntryScan
  | [] => return s
  | i :: rest =>
    if (dirEntryAt buf (dirEntrySize * i)).fType = ftUnkown then scanEntries buf inodeNo s rest
    else if strSame buf (dirEntrySize * i) dotName then
      scanEntries buf inodeNo { s with isDirFirstBlock := true } rest
    else if strSame buf (dirEntrySize * i) dotDotName then scanEntries buf inodeNo s rest
    else
      let s := { s with dirEntryCnt := s.dirEntryCnt + 1 }
      if (dirEntryAt buf (dirEntrySize * i)).iNo = inodeNo then do
        assertThat false (s.dirEntryFound = none) "delete_dir_entry" "dir_entry_found == NULL"
        scanEntries buf inodeNo { s with dirEntryFound := some i } rest
      else scanEntries buf inodeNo s rest

/-- `indirect_blocks` -/
def indirectBlocks (allBlocks : Blocks) : Nat :=
  ((List.range' 12 128).filter fun k => allBlocks k != 0).length

/-- The block of the deleted entry held no other: it leaves the inode, and so does the indirect
table with its last block. -/
def dropBlock (p : Part sb) (dirInode : Inode) (allBlocks : Blocks) (blockIdx : Nat) :
    Except Fault (Part sb × Inode) := do
  assertThat false (blockBit sb (allBlocks blockIdx) ≥ 1) "delete_dir_entry" "block_bitmap_idx >= 1"
  let p := blockFree p (allBlocks blockIdx)
  if blockIdx < 12 then return (p, dirInode.setSector blockIdx 0)
  else
    assertThat false (indirectBlocks allBlocks ≥ 1) "delete_dir_entry" "indirect_blocks >= 1"
    let p := writeTable p (dirInode.iSectors 12) (Function.update allBlocks blockIdx 0)
    if indirectBlocks allBlocks > 1 then return (p, dirInode)
    else return (blockFree p (dirInode.iSectors 12), dirInode.setSector 12 0)

/-- The entry found, or its whole block, is cleared. -/
def clearEntry (p : Part sb) (dirInode : Inode) (allBlocks : Blocks) (blockIdx : Nat) (buf : Buf)
    (s : EntryScan) (found : Nat) : Except Fault (Part sb × Inode) :=
  if s.dirEntryCnt = 1 ∧ s.isDirFirstBlock = false then dropBlock p dirInode allBlocks blockIdx
  else
    return (ideWrite p (allBlocks blockIdx) (memcpy buf (dirEntrySize * found) zeros dirEntrySize)
      1, dirInode)

/-- `dir_inode->i_size -= dir_entry_size` -/
def Inode.shrink (dirInode : Inode) : Inode :=
  { dirInode with iSize := dirInode.iSize - dirEntrySize }

/-- The entry was found: it is cleared, and the inode synced. -/
def deleteFound (p : Part sb) (dirInode : Inode) (allBlocks : Blocks) (blockIdx : Nat) (buf : Buf)
    (s : EntryScan) (found : Nat) : Except Fault (DirResult sb) := do
  assertThat false (s.dirEntryCnt ≥ 1) "delete_dir_entry" "dir_entry_cnt >= 1"
  let (p, dirInode) ← clearEntry p dirInode allBlocks blockIdx buf s found
  assertThat false (dirInode.iSize ≥ dirEntrySize) "delete_dir_entry"
    "dir_inode->i_size >= dir_entry_size"
  let p ← inodeSync p dirInode.shrink zeros
  return (true, p, dirInode.shrink)

/-- The loop of `delete_dir_entry` over the blocks. -/
def deleteBlocks (p : Part sb) (dirInode : Inode) (allBlocks : Blocks) (inodeNo : Nat) :
    List Nat → Except Fault (DirResult sb)
  | [] => return (false, p, dirInode)
  | blockIdx :: rest =>
    if allBlocks blockIdx = 0 then deleteBlocks p dirInode allBlocks inodeNo rest
    else do
      let buf := ideRead p (allBlocks blockIdx) zeros 1
      let s ← scanEntries buf inodeNo ⟨false, 0, none⟩ (List.range dirEntrysPerSec)
      match s.dirEntryFound with
      | none => deleteBlocks p dirInode allBlocks inodeNo rest
      | some found => deleteFound p dirInode allBlocks blockIdx buf s found

/-- `delete_dir_entry` -/
def deleteDirEntry (p : Part sb) (dirInode : Inode) (inodeNo : Nat) : Except Fault (DirResult sb) :=
  deleteBlocks p dirInode (collectBlocks p dirInode) inodeNo (List.range 140)

/-- `dir_is_empty` -/
def dirIsEmpty (dirInode : Inode) : Bool := dirInode.iSize == dirEntrySize * 2

end SeekingOs.Fs
