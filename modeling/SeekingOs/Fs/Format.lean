import SeekingOs.Fs.Dir
import SeekingOs.Lib.Machine

/-!
# `partition_format` and `mount_partition`

The superblock, the two bitmaps, the inode table and the root directory are written to the disk,
and `mount_partition` reads the first three back. The size of the block bitmap depends on the number
of data sectors, which depends on the size of the bitmap: `block_bitmap_sects` is computed
twice.

The bits of the last bitmap sector that stand for no sector are masked: first all bytes from
`block_bitmap_last_byte` on, then `while (bit_idx <= block_bitmap_last_bit)` clears the valid bits
of that byte again, and one more.
-/

namespace SeekingOs.Fs

open Lib

/-- `struct partition`, before it is mounted. The controller takes 28 bits of a sector number. -/
structure Partition where
  startLba : Nat
  secCnt : Nat
  lba28 : startLba + secCnt ≤ 2 ^ 28

/-- `struct super_block`, without its padding. -/
structure DiskSuper where
  magic : Nat
  secCnt : Nat
  inodeCnt : Nat
  partLbaBase : Nat
  blockBitmapLba : Nat
  blockBitmapSects : Nat
  inodeBitmapLba : Nat
  inodeBitmapSects : Nat
  inodeTableLba : Nat
  inodeTableSects : Nat
  dataStartLba : Nat
  rootInodeNo : Nat
  dirEntrySize : Nat

/-- The words of a superblock, in their order. -/
def DiskSuper.words (sb : DiskSuper) : List Nat :=
  [sb.magic, sb.secCnt, sb.inodeCnt, sb.partLbaBase, sb.blockBitmapLba, sb.blockBitmapSects,
    sb.inodeBitmapLba,
    sb.inodeBitmapSects, sb.inodeTableLba, sb.inodeTableSects, sb.dataStartLba, sb.rootInodeNo,
    sb.dirEntrySize]

/-- A superblock in memory, with whatever its padding holds. -/
def DiskSuper.toBuf (sb : DiskSuper) (pad : Buf) : Buf := fun off =>
  if off < 52 then le32 (sb.words.getD (off / 4) 0) (off % 4) else pad off

/-- The superblock that memory is. -/
def diskSuperAt (buf : Buf) : DiskSuper where
  magic := rd32 buf 0
  secCnt := rd32 buf 4
  inodeCnt := rd32 buf 8
  partLbaBase := rd32 buf 12
  blockBitmapLba := rd32 buf 16
  blockBitmapSects := rd32 buf 20
  inodeBitmapLba := rd32 buf 24
  inodeBitmapSects := rd32 buf 28
  inodeTableLba := rd32 buf 32
  inodeTableSects := rd32 buf 36
  dataStartLba := rd32 buf 40
  rootInodeNo := rd32 buf 44
  dirEntrySize := rd32 buf 48

namespace Partition

variable (part : Partition)

/-- `inode_bitmap_sects` -/
def inodeBitmapSects : Nat := divRoundUp maxFilesPerPart bitsPerSector

/-- `inode_table_sects` -/
def inodeTableSects : Nat := divRoundUp (inodeBytesLen * maxFilesPerPart) sectorSize

/-- `free_sects` -/
def freeSects : Nat := u32 (part.secCnt - (1 + 1 + inodeBitmapSects + inodeTableSects : Nat))

/-- `block_bitmap_sects`, the first time -/
def firstBitmapSects : Nat := divRoundUp part.freeSects bitsPerSector

/-- `block_bitmap_bit_len` -/
def bitLen : Nat := u32 (part.freeSects - part.firstBitmapSects)

/-- `block_bitmap_sects`, the second time -/
def blockBitmapSects : Nat := divRoundUp part.bitLen bitsPerSector

/-- `sb` in `partition_format` -/
def superBlock : DiskSuper where
  magic := 0x20050608
  secCnt := part.secCnt
  inodeCnt := maxFilesPerPart
  partLbaBase := part.startLba
  blockBitmapLba := part.startLba + 2
  blockBitmapSects := part.blockBitmapSects
  inodeBitmapLba := part.startLba + 2 + part.blockBitmapSects
  inodeBitmapSects := inodeBitmapSects
  inodeTableLba := part.startLba + 2 + part.blockBitmapSects + inodeBitmapSects
  inodeTableSects := inodeTableSects
  dataStartLba := part.startLba + 2 + part.blockBitmapSects + inodeBitmapSects + inodeTableSects
  rootInodeNo := 0
  dirEntrySize := Fs.dirEntrySize

/-- `buf_size` -/
def bufSize : Nat :=
  let bufSize := if part.blockBitmapSects ≥ inodeBitmapSects then part.blockBitmapSects
    else inodeBitmapSects
  (if bufSize ≥ inodeTableSects then bufSize else inodeTableSects) * sectorSize

end Partition

/-! ## Formatting -/

/-- The contents of a disk. -/
abbrev Disk := Nat → Byte

/-- `ide_write` -/
def Disk.write (disk : Disk) (lba : Nat) (buf : Buf) (secCnt : Nat) : Disk := fun a =>
  if sectorSize * lba ≤ a ∧ a < sectorSize * (lba + secCnt) then buf (a - sectorSize * lba)
  else disk a

/-- `ide_read` into a buffer of just that size -/
def Disk.read (disk : Disk) (lba secCnt : Nat) : List Byte :=
  (List.range (sectorSize * secCnt)).map fun k => disk (sectorSize * lba + k)

/-- `buf[i] &= ~(1 << bit_idx++)` for the first `n` bits -/
def clearBits (byte : Byte) : Nat → Byte
  | 0 => byte
  | n + 1 => clearBits byte n &&& ~~~(1#8 <<< n)

/-- The block bitmap, in a buffer of `bufSize` zero bytes. -/
def blockBitmapInit (bitLen bufSize : Nat) : Except Fault Buf := do
  let buf : Buf := Function.update zeros 0 (zeros 0 ||| 0x01)
  let lastByte := bitLen / 8
  let lastBit := bitLen % 8
  let lastSize := sectorSize - lastByte % sectorSize
  if bufSize < lastByte + lastSize then .error (.outOfBounds "partition_format")
  else
    let buf := memcpy buf lastByte (fun _ => 0xff) lastSize
    return Function.update buf lastByte (clearBits (buf lastByte) (lastBit + 1))

/-- The root's inode at the beginning of the inode table. -/
def rootInodeBuf (dataStartLba : Nat) : Buf :=
  memcpy (memcpy (memcpy zeros 4 (le32 (dirEntrySize * 2)) 4) 0 (le32 0) 4) 16 (le32 dataStartLba) 4

/-- The root directory: `.` and `..`. -/
def rootDirBuf : Buf :=
  let buf := memcpy (memcpy (memcpy zeros 0 (strBuf [46]) 1) 16 (le32 0) 4) 20 (le32 ftDirectory) 4
  memcpy (memcpy (memcpy buf dirEntrySize (strBuf [46, 46]) 2) (dirEntrySize + 16) (le32 0) 4)
    (dirEntrySize + 20) (le32 ftDirectory) 4

/-- `partition_format`; `pad` is what the padding of the local variable `sb` holds. -/
def partitionFormat (part : Partition) (pad : Buf) (disk : Disk) : Except Fault Disk := do
  let sb := part.superBlock
  let disk := disk.write (part.startLba + 1) (sb.toBuf pad) 1
  let buf ← blockBitmapInit part.bitLen part.bufSize
  let disk := disk.write sb.blockBitmapLba buf sb.blockBitmapSects
  let disk :=
    disk.write sb.inodeBitmapLba (Function.update zeros 0 (zeros 0 ||| 0x01)) sb.inodeBitmapSects
  let disk := disk.write sb.inodeTableLba (rootInodeBuf sb.dataStartLba) sb.inodeTableSects
  return disk.write sb.dataStartLba rootDirBuf 1

/-! ## Mounting -/

/-- A mounted partition: what `mount_partition` has read. -/
structure Mounted where
  sb : DiskSuper
  blockBitmap : Bitmap
  inodeBitmap : Bitmap

/-- `mount_partition` -/
def mountPartition (part : Partition) (disk : Disk) : Mounted :=
  let sb := diskSuperAt fun off => disk (sectorSize * (part.startLba + 1) + off)
  { sb
    blockBitmap := ⟨disk.read sb.blockBitmapLba sb.blockBitmapSects⟩
    inodeBitmap := ⟨disk.read sb.inodeBitmapLba sb.inodeBitmapSects⟩ }

/-- `block_bitmap_alloc`; `none` is −1. -/
def Mounted.blockBitmapAlloc (m : Mounted) : Except Fault (Option (Nat × Mounted)) := do
  let bitIdx ← bitmapScan false m.blockBitmap 1
  return bitIdx.map fun bitIdx =>
    (m.sb.dataStartLba + bitIdx, { m with blockBitmap := bitmapSet m.blockBitmap bitIdx true })

/-- A block is given back: `bitmap_set(&part->block_bitmap, lba - data_start_lba, 0)`. -/
def Mounted.blockRelease (m : Mounted) (lba : Nat) : Mounted :=
  { m with blockBitmap := bitmapSet m.blockBitmap (u32 (lba - m.sb.dataStartLba)) false }

/-! ## Sizes -/

/-- The metadata fits, and 16 data sectors at least. -/
def Partition.Roomy (part : Partition) : Prop :=
  2 + part.blockBitmapSects + 1 + 608 + 16 ≤ part.secCnt

instance (part : Partition) : Decidable part.Roomy := inferInstanceAs (Decidable (_ ≤ _))

theorem inodeBitmapSects_eq : Partition.inodeBitmapSects = 1 := by decide

theorem inodeTableSects_eq : Partition.inodeTableSects = 608 := by decide

variable {part : Partition}

/-- The sizes as plain numbers. -/
structure Sizes (part : Partition) : Prop where
  free : part.freeSects = part.secCnt - 611
  len : part.bitLen = part.freeSects - part.firstBitmapSects
  first : 4096 * part.firstBitmapSects < part.freeSects + 4096 ∧
    part.freeSects ≤ 4096 * part.firstBitmapSects
  second : 4096 * part.blockBitmapSects < part.bitLen + 4096 ∧
    part.bitLen ≤ 4096 * part.blockBitmapSects
  room : 627 + part.blockBitmapSects ≤ part.secCnt
  bound : part.startLba + part.secCnt ≤ 2 ^ 28

theorem sizes (h : part.Roomy) : Sizes part := by
  have hroom : 627 + part.blockBitmapSects ≤ part.secCnt := by
    unfold Partition.Roomy at h
    omega
  have hbound := part.lba28
  have free : part.freeSects = part.secCnt - 611 := by
    unfold Partition.freeSects
    rw [inodeBitmapSects_eq, inodeTableSects_eq,
      show ((part.secCnt : Int) - (1 + 1 + 1 + 608 : Nat)) =
        ((part.secCnt - 611 : Nat) : Int) by omega]
    exact u32_of_lt (by omega)
  have first : 4096 * part.firstBitmapSects < part.freeSects + 4096 ∧
      part.freeSects ≤ 4096 * part.firstBitmapSects := by
    unfold Partition.firstBitmapSects divRoundUp bitsPerSector
    omega
  have len : part.bitLen = part.freeSects - part.firstBitmapSects := by
    unfold Partition.bitLen
    rw [show ((part.freeSects : Int) - part.firstBitmapSects) =
      ((part.freeSects - part.firstBitmapSects : Nat) : Int) by omega]
    exact u32_of_lt (by omega)
  refine ⟨free, len, first, ?_, hroom, hbound⟩
  unfold Partition.blockBitmapSects divRoundUp bitsPerSector
  omega

/-- The second size of the bitmap is at most the first, so there are as many data sectors as bits,
or more. -/
theorem Sizes.data (z : Sizes part) :
    part.blockBitmapSects ≤ part.firstBitmapSects ∧ 15 ≤ part.bitLen := by
  have h₁ := z.free
  have h₂ := z.len
  have h₃ := z.first
  have h₄ := z.second
  have h₅ := z.room
  omega

/-! ## What is read back -/

theorem write_other {disk : Disk} {lba lba' n : Nat} {buf : Buf} (h : lba' < lba ∨ lba + n ≤ lba')
    {off : Nat} (hoff : off < 512) :
    disk.write lba buf n (sectorSize * lba' + off) = disk (sectorSize * lba' + off) := by
  unfold Disk.write
  refine if_neg ?_
  unfold sectorSize
  omega

theorem write_same {disk : Disk} {lba n : Nat} {buf : Buf} {k : Nat} (hk : k < sectorSize * n) :
    disk.write lba buf n (sectorSize * lba + k) = buf k := by
  unfold Disk.write
  rw [if_pos (by rw [Nat.mul_add]; omega), Nat.add_sub_cancel_left]

theorem length_read (disk : Disk) (lba n : Nat) : (disk.read lba n).length = sectorSize * n := by
  simp [Disk.read]

theorem getD_read (disk : Disk) (lba : Nat) {n k : Nat} (hk : k < sectorSize * n) :
    (disk.read lba n).getD k 0 = disk (sectorSize * lba + k) := by
  simp [Disk.read, List.getD_eq_getElem?_getD, List.getElem?_map, List.getElem?_range hk]

/-- A word of a superblock is read back. -/
theorem rd32_toBuf {sb : DiskSuper} {pad : Buf} {k : Nat} (hk : k < 13)
    (h : sb.words.getD k 0 < 2 ^ 32) : rd32 (sb.toBuf pad) (4 * k) = sb.words.getD k 0 := by
  refine rd32_le32 h fun j hj => ?_
  have hdiv : (4 * k + j) / 4 = k := by omega
  have hmod : (4 * k + j) % 4 = j := by omega
  unfold DiskSuper.toBuf
  rw [if_pos (by omega), hdiv, hmod]

/-- THE SUPERBLOCK is read back, when each of its words fits. -/
theorem diskSuperAt_toBuf {sb : DiskSuper} (pad : Buf) (h : ∀ w ∈ sb.words, w < 2 ^ 32) :
    diskSuperAt (sb.toBuf pad) = sb := by
  have word (k : Nat) (hk : k < 13) : rd32 (sb.toBuf pad) (4 * k) = sb.words.getD k 0 := by
    refine rd32_toBuf hk (h _ ?_)
    rw [List.getD_eq_getElem?_getD, List.getElem?_eq_getElem (show k < sb.words.length from hk),
      Option.getD_some]
    exact List.getElem_mem _
  have w0 := word 0 (by decide)
  have w1 := word 1 (by decide)
  have w2 := word 2 (by decide)
  have w3 := word 3 (by decide)
  have w4 := word 4 (by decide)
  have w5 := word 5 (by decide)
  have w6 := word 6 (by decide)
  have w7 := word 7 (by decide)
  have w8 := word 8 (by decide)
  have w9 := word 9 (by decide)
  have w10 := word 10 (by decide)
  have w11 := word 11 (by decide)
  have w12 := word 12 (by decide)
  unfold diskSuperAt
  cases sb
  simp only [DiskSuper.mk.injEq]
  exact ⟨w0, w1, w2, w3, w4, w5, w6, w7, w8, w9, w10, w11, w12⟩

theorem diskSuperAt_congr {buf buf' : Buf} (h : ∀ off < 52, buf off = buf' off) :
    diskSuperAt buf = diskSuperAt buf' := by
  have word (off : Nat) (hoff : off + 4 ≤ 52) : rd32 buf off = rd32 buf' off :=
    rd32_congr fun k hk => h _ (by omega)
  unfold diskSuperAt
  rw [word 0 (by decide), word 4 (by decide), word 8 (by decide), word 12 (by decide),
    word 16 (by decide),
    word 20 (by decide), word 24 (by decide), word 28 (by decide), word 32 (by decide),
    word 36 (by decide),
    word 40 (by decide), word 44 (by decide), word 48 (by decide)]

/-! ## The block bitmap -/

theorem clearBits_test (byte : Byte) (n k : Nat) (hn : n ≤ 8) :
    (clearBits byte n).getLsbD k = (decide (n ≤ k) && byte.getLsbD k) := by
  induction n with
  | zero => simp [clearBits]
  | succ n ih =>
    unfold clearBits
    rw [BitVec.getLsbD_and, ih (by omega), BitVec.getLsbD_not, BitVec.getLsbD_shiftLeft]
    by_cases hk : k < 8
    · by_cases hkn : k = n
      · subst hkn
        simp [hk]
      · by_cases hlt : k < n
        · simp [hlt, Nat.not_le.mpr hlt, show ¬ n + 1 ≤ k by omega]
        · have hsub : k - n ≠ 0 := by omega
          simp [hk, hlt, hsub, show n ≤ k by omega, show n + 1 ≤ k by omega]
    · have : byte.getLsbD k = false := BitVec.getLsbD_of_ge byte k (by omega)
      rw [this]
      simp

/-- The buffer holds the bytes that are masked, when the last bitmap sector is not full or the
buffer is longer than the bitmap. -/
theorem Sizes.buffer (z : Sizes part) :
    part.bufSize < part.bitLen / 8 + (sectorSize - part.bitLen / 8 % sectorSize) ↔
      part.bitLen % 4096 = 0 ∧ 608 ≤ part.blockBitmapSects := by
  have h₁ := z.second
  have h₂ := z.data.2
  unfold Partition.bufSize
  rw [inodeBitmapSects_eq, inodeTableSects_eq]
  unfold sectorSize
  dsimp only
  split <;> split <;> omega

/-- THE BITMAP THAT IS WRITTEN: bit 0 is set, and the bits behind bit `block_bitmap_bit_len`, which
is not. -/
theorem blockBitmapInit_test {n size : Nat} {buf : Buf} (h : blockBitmapInit n size = .ok buf)
    (hn : 15 ≤ n) {i : Nat} (hi : i / 4096 ≤ n / 4096) :
    (buf (i / 8)).getLsbD (i % 8) = (decide (i = 0) || decide (n < i)) := by
  unfold blockBitmapInit at h
  dsimp only at h
  split at h
  · cases h
  obtain rfl := Except.ok.inj h
  have hmod : i % 8 < 8 := Nat.mod_lt _ (by decide)
  by_cases hbyte : i / 8 = n / 8
  · have hff : memcpy (Function.update zeros 0 (zeros 0 ||| 0x01)) (n / 8) (fun _ => 0xff)
        (sectorSize - n / 8 % sectorSize) (n / 8) = 0xff := by
      unfold memcpy sectorSize
      rw [if_pos (by omega)]
    have hone : (0xff#8).getLsbD (i % 8) = true := by
      have : ∀ k < 8, (0xff#8).getLsbD k = true := by decide
      exact this _ hmod
    rw [hbyte, Function.update_self, hff, clearBits_test _ _ _ (by omega),
      show (0xff : Byte) = 0xff#8 from rfl, hone,
      Bool.and_true]
    have h0 : i ≠ 0 := by omega
    simp only [h0, decide_false, Bool.false_or, decide_eq_decide]
    omega
  · rw [Function.update_of_ne hbyte]
    unfold memcpy
    by_cases hlt : i / 8 < n / 8
    · rw [if_neg (by omega)]
      have hni : ¬ n < i := by omega
      simp only [hni, decide_false, Bool.or_false]
      by_cases h0 : i / 8 = 0
      · rw [h0, Function.update_self]
        have hbits : ∀ k < 8, ((zeros 0 ||| 0x01 : Byte)).getLsbD k = decide (k = 0) := by decide
        rw [hbits _ hmod, decide_eq_decide]
        omega
      · rw [Function.update_of_ne h0]
        have : i ≠ 0 := by omega
        simp [zeros, this]
    · have hsec : i / 8 < n / 8 + (sectorSize - n / 8 % sectorSize) := by
        unfold sectorSize
        omega
      rw [if_pos ⟨by omega, hsec⟩]
      have hone : (0xff#8).getLsbD (i % 8) = true := by
        have : ∀ k < 8, (0xff#8).getLsbD k = true := by decide
        exact this _ hmod
      rw [show (0xff : Byte) = 0xff#8 from rfl, hone]
      have : n < i := by omega
      simp [this]

end SeekingOs.Fs
