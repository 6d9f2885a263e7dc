import SeekingOs.Fs.Inode

/-!
# Reading and writing files

`file_write` appends: it puts the blocks it will write to into `all_blocks`, allocating those that
the file does not have, and then copies sector by sector. It distinguishes data that stays in the
last block from three situations with new blocks; the loops that allocate differ in where a block
address is noted, which depends on the index alone, so that `growBlocks` is all three of them.

The file always has the block after its last byte: a write that ends at a multiple of 512
has allocated the block for the byte to come.
-/

namespace SeekingOs.Fs

open Lib

variable {sb : SuperBlock}

/-- What a file function answers; `ret` is `none` for −1. -/
structure FileResult (sb : SuperBlock) (α : Type) where
  part : Part sb
  inode : Inode
  fdPos : Nat
  ret : Option α

/-! ## `file_write` -/

/-- The first write of a file gives it its first block; `none` is −1. -/
def firstBlock (p : Part sb) (inode : Inode) : Except Fault (Option (Part sb × Inode)) :=
  if inode.iSectors 0 = 0 then do
    match ← blockBitmapAlloc p with
    | none => return none
    | some (blockLba, p) =>
      assertThat false (blockBit sb blockLba ≠ 0) "file_write" "block_bitmap_idx != 0"
      return some (blockBitmapSync p (blockBit sb blockLba), inode.setSector 0 blockLba)
  else return some (p, inode)

/-- What the allocation of blocks works on. -/
structure Growth (sb : SuperBlock) where
  part : Part sb
  inode : Inode
  allBlocks : Blocks

/-- Where the address of a new block is noted: a direct block in the inode too. -/
def noteBlock (inode : Inode) (allBlocks : Blocks) (blockIdx blockLba : Nat) :
    Except Fault (Inode × Blocks) :=
  if blockIdx < 12 then do
    assertThat false (inode.iSectors blockIdx = 0) "file_write"
      "file->fd_inode->i_sectors[block_idx] == 0"
    return (inode.setSector blockIdx blockLba, Function.update allBlocks blockIdx blockLba)
  else return (inode, Function.update allBlocks blockIdx blockLba)

/-- The loops of `file_write` that allocate, over the block indices; `false` is a failed allocation.
-/
def growBlocks (g : Growth sb) : List Nat → Except Fault (Bool × Growth sb)
  | [] => return (true, g)
  | blockIdx :: rest => do
    match ← blockBitmapAlloc g.part with
    | none => return (false, g)
    | some (blockLba, p) =>
      let (inode, allBlocks) ← noteBlock g.inode g.allBlocks blockIdx blockLba
      growBlocks ⟨blockBitmapSync p (blockBit sb blockLba), inode, allBlocks⟩ rest

/-- `block_idx` from `has` to `will - 1` -/
def newBlocks (has will : Nat) : List Nat := List.range' has (will - has)

/-- `i_sectors[k]`, which has 13 elements. -/
def sectorAt (inode : Inode) (k : Nat) : Except Fault Nat :=
  if k < 13 then return inode.iSectors k else throw (.outOfBounds "file_write")

/-- The indirect table is written after a loop that did not fail. -/
def storeTable (t : Nat) : Bool × Growth sb → Bool × Growth sb
  | (true, g) => (true, { g with part := writeTable g.part t g.allBlocks })
  | (false, g) => (false, g)

/-- No new block: the data stays in the last one. -/
def lastBlock (p : Part sb) (inode : Inode) (will : Nat) : Except Fault (Bool × Growth sb) :=
  if will ≤ 12 then
    return (true, ⟨p, inode, Function.update (fun _ => 0) (will - 1) (inode.iSectors (will - 1))⟩)
  else do
    assertThat false (inode.iSectors 12 ≠ 0) "file_write" "file->fd_inode->i_sectors[12] != 0"
    return (true, ⟨p, inode, readTable p (inode.iSectors 12) fun _ => 0⟩)

/-- Situation 1: the direct blocks suffice. -/
def growDirect (p : Part sb) (inode : Inode) (has will : Nat) :
    Except Fault (Bool × Growth sb) := do
  let last ← sectorAt inode (has - 1)
  assertThat false (last ≠ 0) "file_write" "file->fd_inode->i_sectors[block_idx] != 0"
  growBlocks ⟨p, inode, Function.update (fun _ => 0) (has - 1) last⟩ (newBlocks has will)

/-- Situation 2: from the direct blocks into the indirect ones. -/
def growAcross (p : Part sb) (inode : Inode) (has will : Nat) :
    Except Fault (Bool × Growth sb) := do
  let allBlocks := Function.update (fun _ => 0) (has - 1) (inode.iSectors (has - 1))
  match ← blockBitmapAlloc p with
  | none => return (false, ⟨p, inode, allBlocks⟩)
  | some (blockLba, p) =>
    assertThat false (inode.iSectors 12 = 0) "file_write" "file->fd_inode->i_sectors[12] == 0"
    let grown ← growBlocks ⟨blockBitmapSync p (blockBit sb blockLba),
        inode.setSector 12 blockLba, allBlocks⟩
      (newBlocks has will)
    return storeTable blockLba grown

/-- Situation 3: the file has indirect blocks already. -/
def growIndirect (p : Part sb) (inode : Inode) (has will : Nat) :
    Except Fault (Bool × Growth sb) := do
  assertThat false (inode.iSectors 12 ≠ 0) "file_write" "file->fd_inode->i_sectors[12] != 0"
  let grown ← growBlocks ⟨p, inode, readTable p (inode.iSectors 12) fun _ => 0⟩ (newBlocks has will)
  return storeTable (inode.iSectors 12) grown

/-- The blocks of the write are collected in `all_blocks`. -/
def collectForWrite (p : Part sb) (inode : Inode) (has will : Nat) :
    Except Fault (Bool × Growth sb) :=
  if will = has then lastBlock p inode will
  else if will ≤ 12 then growDirect p inode has will
  else if has ≤ 12 then growAcross p inode has will
  else growIndirect p inode has will

/-- What the loop that writes works on. -/
structure WriteState (sb : SuperBlock) where
  part : Part sb
  iSize : Nat
  fdPos : Nat
  bytesWritten : Nat
  firstWriteBlock : Bool

/-- One round of the loop: a chunk up to the end of the sector or of the data. -/
def writeChunk (allBlocks : Blocks) (src : Buf) (count : Nat) (s : WriteState sb) :
    Except Fault (WriteState sb) :=
  let secIdx := s.iSize / sectorSize
  if secIdx < 140 then
    let secLba := allBlocks secIdx
    let secOffBytes := s.iSize % sectorSize
    let chunkSize := min (count - s.bytesWritten) (sectorSize - secOffBytes)
    let ioBuf := if s.firstWriteBlock then ideRead s.part secLba zeros 1 else zeros
    let ioBuf := memcpy ioBuf secOffBytes (fun k => src (s.bytesWritten + k)) chunkSize
    return { part := ideWrite s.part secLba ioBuf 1, iSize := u32 (s.iSize + chunkSize),
             fdPos := u32 (s.fdPos + chunkSize), bytesWritten := s.bytesWritten + chunkSize,
             firstWriteBlock := false }
  else throw (.outOfBounds "file_write")

/-- The loop that writes. Every round writes at least one byte, so `count` rounds are enough. -/
def writeLoop (allBlocks : Blocks) (src : Buf) (count : Nat) :
    Nat → WriteState sb → Except Fault (WriteState sb)
  | 0, s => return s
  | fuel + 1, s =>
    if s.bytesWritten < count then do
      let s ← writeChunk allBlocks src count s
      writeLoop allBlocks src count fuel s
    else return s

/-- `file_write` after the first block is there. -/
def writeGrown (p : Part sb) (inode : Inode) (fdPos : Nat) (src : Buf) (count : Nat) :
    Except Fault (FileResult sb Nat) := do
  let fileHasUsedBlocks := inode.iSize / sectorSize + 1
  let fileWillUseBlocks := u32 (inode.iSize + count) / sectorSize + 1
  assertThat false (fileWillUseBlocks ≤ 140) "file_write" "file_will_use_blocks <= 140"
  match ← collectForWrite p inode fileHasUsedBlocks fileWillUseBlocks with
  | (false, g) => return ⟨g.part, g.inode, fdPos, none⟩
  | (true, g) =>
    let s ← writeLoop g.allBlocks src count count
        ⟨g.part, g.inode.iSize, u32 (g.inode.iSize - 1), 0, true⟩
    let inode := { g.inode with iSize := s.iSize }
    let p ← inodeSync s.part inode zeros
    return ⟨p, inode, s.fdPos, some s.bytesWritten⟩

/-- `file_write`; `heap` says whether `sys_malloc` answers. -/
def fileWrite (heap : Bool) (p : Part sb) (inode : Inode) (fdPos : Nat) (src : Buf) (count : Nat) :
    Except Fault (FileResult sb Nat) := do
  if u32 (inode.iSize + count) > 140 * sectorSize then return ⟨p, inode, fdPos, none⟩
  else if heap = false then return ⟨p, inode, fdPos, none⟩
  else
    match ← firstBlock p inode with
    | none => return ⟨p, inode, fdPos, none⟩
    | some (p, inode) => writeGrown p inode fdPos src count

/-! ## `file_read` -/

/-- The blocks of the read are collected in `all_blocks`. -/
def collectForRead (p : Part sb) (inode : Inode) (start last : Nat) : Except Fault Blocks :=
  if last = start then
    if last < 12 then return Function.update (fun _ => 0) last (inode.iSectors last)
    else return readTable p (inode.iSectors 12) fun _ => 0
  else if last < 12 then return fun k => if start ≤ k ∧ k ≤ last then inode.iSectors k else 0
  else if start < 12 then do
    assertThat false (inode.iSectors 12 ≠ 0) "file_read" "file->fd_inode->i_sectors[12] != 0"
    return readTable p (inode.iSectors 12) fun k => if start ≤ k ∧
      k < 12 then inode.iSectors k else 0
  else do
    assertThat false (inode.iSectors 12 ≠ 0) "file_read" "file->fd_inode->i_sectors[12] != 0"
    return readTable p (inode.iSectors 12) fun _ => 0

/-- What the loop that reads works on. -/
structure ReadState where
  fdPos : Nat
  bytesRead : Nat
  bufDst : Buf

/-- One round of the loop. -/
def readChunk (p : Part sb) (allBlocks : Blocks) (size : Nat) (s : ReadState) :
    Except Fault ReadState :=
  let secIdx := s.fdPos / sectorSize
  if secIdx < 140 then
    let secOffBytes := s.fdPos % sectorSize
    let chunkSize := min (size - s.bytesRead) (sectorSize - secOffBytes)
    let ioBuf := ideRead p (allBlocks secIdx) zeros 1
    return { fdPos := u32 (s.fdPos + chunkSize), bytesRead := s.bytesRead + chunkSize,
             bufDst := memcpy s.bufDst s.bytesRead (fun k => ioBuf (secOffBytes + k)) chunkSize }
  else throw (.outOfBounds "file_read")

/-- The loop that reads. Every round reads at least one byte, so `size` rounds are enough. -/
def readLoop (p : Part sb) (allBlocks : Blocks) (size : Nat) :
    Nat → ReadState → Except Fault ReadState
  | 0, s => return s
  | fuel + 1, s =>
    if s.bytesRead < size then do
      let s ← readChunk p allBlocks size s
      readLoop p allBlocks size fuel s
    else return s

/-- What `file_read` answers: `fd_pos`, the buffer, and the number of bytes or `none` for −1. -/
structure ReadResult where
  fdPos : Nat
  buf : Buf
  ret : Option Nat

/-- `file_read` once the size is known. -/
def readSized (heap : Bool) (p : Part sb) (inode : Inode) (fdPos : Nat) (buf : Buf) (size : Nat) :
    Except Fault ReadResult :=
  if heap = false then return ⟨fdPos, buf, none⟩
  else do
    let blockReadStartIdx := fdPos / sectorSize
    let blockReadEndIdx := u32 (fdPos + size) / sectorSize
    assertThat false (blockReadStartIdx < 139 ∧ blockReadEndIdx < 139) "file_read"
      "block_read_start_idx < 139 && block_read_end_idx < 139"
    let allBlocks ← collectForRead p inode blockReadStartIdx blockReadEndIdx
    let s ← readLoop p allBlocks size size ⟨fdPos, 0, buf⟩
    assertThat false (size - s.bytesRead = 0) "file_read" "size_left == 0"
    return ⟨s.fdPos, s.bufDst, some s.bytesRead⟩

/-- `file_read` -/
def fileRead (heap : Bool) (p : Part sb) (inode : Inode) (fdPos : Nat) (buf : Buf) (count : Nat) :
    Except Fault ReadResult :=
  if u32 (fdPos + count) > inode.iSize then
    let size := u32 (inode.iSize - fdPos)
    if size = 0 then return ⟨fdPos, buf, none⟩ else readSized heap p inode fdPos buf size
  else readSized heap p inode fdPos buf count

/-! ## `sys_lseek` -/

/-- `SEEK_SET` -/
def seekSet : Nat := 1

/-- `SEEK_CUR` -/
def seekCur : Nat := 2

/-- `SEEK_END` -/
def seekEnd : Nat := 3

/-- `sys_lseek` for a descriptor of a file; `none` is −1. The offset is an `int32_t`. -/
def sysLseek (inode : Inode) (fdPos : Nat) (offset : Int) (whence : Nat) :
    Except Fault (Nat × Option Nat) := do
  assertThat false (whence > 0 ∧ whence < 4) "sys_lseek" "whence > 0 && whence < 4"
  let fileSize := toSigned 32 inode.iSize
  let newPos :=
    if whence = seekSet then offset
    else if whence = seekCur then toSigned 32 (toSigned 32 fdPos + offset)
    else toSigned 32 (fileSize + offset)
  if newPos < 0 ∨ newPos > toSigned 32 (fileSize - 1) then return (fdPos, none)
  else return (newPos.toNat, some newPos.toNat)

end SeekingOs.Fs
