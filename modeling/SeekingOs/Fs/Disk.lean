import Mathlib.Data.Finset.Card
import Mathlib.Logic.Function.Basic
import SeekingOs.Kernel.Bitmap

/-!
# The disk, the superblock and the bitmaps

The disk is one long array of bytes; sector `lba` is the 512 bytes from `512 * lba` on.
`ide_read` and `ide_write` copy whole sectors. Besides the contents the model keeps
the list of the sectors written so far, so that a theorem can say which ones an
operation has touched.

Memory buffers are functions from offsets to bytes. `sys_malloc` fills its blocks with
zeros, and so does `memset(buf, 0, …)`: both are `zeros`.
-/

namespace SeekingOs.Fs

open Lib

/-- A memory buffer. -/
abbrev Buf := Nat → Byte

/-- A buffer just after `sys_malloc` or `memset`. -/
def zeros : Buf := fun _ => 0

/-- `SECTOR_SIZE` and `BLOCK_SIZE` -/
def sectorSize : Nat := 512

/-! ## Numbers in memory -/

/-- Byte `k` of a `uint32_t`; the processor is little-endian. -/
def le32 (n k : Nat) : Byte := BitVec.ofNat 8 (n / 256 ^ k)

/-- The `uint32_t` at an offset. -/
def rd32 (buf : Buf) (off : Nat) : Nat :=
  (buf off).toNat + 256 * (buf (off + 1)).toNat + 65536 * (buf (off + 2)).toNat + 16777216 *
    (buf (off + 3)).toNat

/-- What was stored is read back. -/
theorem rd32_le32 {buf : Buf} {off n : Nat} (hn : n < 2 ^ 32)
    (h : ∀ k < 4, buf (off + k) = le32 n k) : rd32 buf off = n := by
  have h0 := h 0 (by decide)
  have h1 := h 1 (by decide)
  have h2 := h 2 (by decide)
  have h3 := h 3 (by decide)
  rw [Nat.add_zero] at h0
  simp only [rd32, h0, h1, h2, h3, le32, BitVec.toNat_ofNat]
  omega

theorem rd32_lt (buf : Buf) (off : Nat) : rd32 buf off < 2 ^ 32 := by
  have h0 := (buf off).isLt
  have h1 := (buf (off + 1)).isLt
  have h2 := (buf (off + 2)).isLt
  have h3 := (buf (off + 3)).isLt
  unfold rd32
  omega

/-- A `uint32_t` depends on its four bytes. -/
theorem rd32_congr {buf buf' : Buf} {off off' : Nat}
    (h : ∀ k < 4, buf (off + k) = buf' (off' + k)) : rd32 buf off = rd32 buf' off' := by
  have h0 := h 0 (by decide)
  rw [Nat.add_zero, Nat.add_zero] at h0
  simp only [rd32, h0, h 1 (by decide), h 2 (by decide), h 3 (by decide)]

/-- `memcpy(dst + off, src, n)` -/
def memcpy (dst : Buf) (off : Nat) (src : Buf) (n : Nat) : Buf := fun a =>
  if off ≤ a ∧ a < off + n then src (a - off) else dst a

/-! ## The partition -/

/-- `struct super_block` and the extent of the partition, as `partition_format` lays it out: boot
sector, superblock, block bitmap, inode bitmap of one sector, the 608 sectors of 4096 inodes,
data. -/
structure SuperBlock where
  startLba : Nat
  secCnt : Nat
  blockBitmapSects : Nat
  /-- `lba`s are signed numbers in the code. -/
  fits : startLba + secCnt < 2 ^ 31 ∧ 4096 * blockBitmapSects < 2 ^ 30
  holds : 2 + blockBitmapSects + 1 + 608 ≤ secCnt

namespace SuperBlock

def blockBitmapLba (sb : SuperBlock) : Nat := sb.startLba + 2
def inodeBitmapLba (sb : SuperBlock) : Nat := sb.blockBitmapLba + sb.blockBitmapSects
def inodeTableLba (sb : SuperBlock) : Nat := sb.inodeBitmapLba + 1
def dataStartLba (sb : SuperBlock) : Nat := sb.inodeTableLba + 608

end SuperBlock

/-- `MAX_FILES_PER_PART` -/
def maxFilesPerPart : Nat := 4096

/-- `BITS_PER_SECTOR` -/
def bitsPerSector : Nat := 4096

/-- The mounted partition: the disk, and the bitmaps in memory, with the sizes `mount_partition`
gives them. -/
structure Part (sb : SuperBlock) where
  disk : Nat → Byte
  blockBitmap : Bitmap
  inodeBitmap : Bitmap
  /-- Ghost: the sectors written so far. -/
  written : List Nat
  blockSize : blockBitmap.size = 4096 * sb.blockBitmapSects
  inodeSize : inodeBitmap.size = 4096

variable {sb : SuperBlock} (p : Part sb)

/-- `bitmap_set` on the block bitmap -/
def Part.setBlock (bitIdx : Nat) (value : Bool) : Part sb :=
  { p with
    blockBitmap := bitmapSet p.blockBitmap bitIdx value
    blockSize := by rw [size_bitmapSet, p.blockSize] }

/-- `bitmap_set` on the inode bitmap -/
def Part.setInode (bitIdx : Nat) (value : Bool) : Part sb :=
  { p with
    inodeBitmap := bitmapSet p.inodeBitmap bitIdx value
    inodeSize := by rw [size_bitmapSet, p.inodeSize] }

/-- `ide_read`: the buffer keeps what lies behind the sectors read. -/
def ideRead (lba : Nat) (buf : Buf) (secCnt : Nat) : Buf := fun off =>
  if off < sectorSize * secCnt then p.disk (sectorSize * lba + off) else buf off

/-- `ide_write` -/
def ideWrite (lba : Nat) (buf : Buf) (secCnt : Nat) : Part sb :=
  { p with
    disk := fun a =>
      if sectorSize * lba ≤ a ∧ a < sectorSize * (lba + secCnt) then buf (a - sectorSize * lba)
      else p.disk a
    written := p.written ++ List.range' lba secCnt }

/-- The bits of a bitmap as bytes in memory. -/
def bitmapBuf (b : Bitmap) (off : Nat) : Buf := fun k => b.bits.getD (off + k) 0

/-- `bitmap_sync(part, bit_idx, BLOCK_BITMAP)` -/
def blockBitmapSync (bitIdx : Nat) : Part sb :=
  let offSec := bitIdx / bitsPerSector
  ideWrite p (sb.blockBitmapLba + offSec) (bitmapBuf p.blockBitmap (offSec * sectorSize)) 1

/-- `bitmap_sync(part, bit_idx, INODE_BITMAP)` -/
def inodeBitmapSync (bitIdx : Nat) : Part sb :=
  let offSec := bitIdx / bitsPerSector
  ideWrite p (sb.inodeBitmapLba + offSec) (bitmapBuf p.inodeBitmap (offSec * sectorSize)) 1

/-- `block_bitmap_alloc`; `none` is −1. -/
def blockBitmapAlloc : Except Fault (Option (Nat × Part sb)) := do
  let bitIdx ← bitmapScan false p.blockBitmap 1
  return bitIdx.map fun bitIdx => (sb.dataStartLba + bitIdx, p.setBlock bitIdx true)

/-- `inode_bitmap_alloc`; `none` is −1. -/
def inodeBitmapAlloc : Except Fault (Option (Nat × Part sb)) := do
  let bitIdx ← bitmapScan false p.inodeBitmap 1
  return bitIdx.map fun bitIdx => (bitIdx, p.setInode bitIdx true)

/-- The bit of a block: `lba - data_start_lba`, as an unsigned number. -/
def blockBit (sb : SuperBlock) (lba : Nat) : Nat := u32 (lba - sb.dataStartLba)

/-- A block is given back: the bit is cleared and its sector written. -/
def blockFree (lba : Nat) : Part sb :=
  blockBitmapSync (p.setBlock (blockBit sb lba) false) (blockBit sb lba)

/-! ## What an operation writes -/

/-- From `p` to `p'` the sectors in `W` are written, and nothing else on the disk. -/
structure Wrote (p : Part sb) (W : List Nat) (p' : Part sb) : Prop where
  log : p'.written = p.written ++ W
  same : ∀ a, a / sectorSize ∉ W → p'.disk a = p.disk a

variable {p} {p' p'' : Part sb} {W W' : List Nat} {lba i : Nat} {v : Bool}

@[simp] theorem setBlock_disk : (p.setBlock i v).disk = p.disk := rfl
@[simp] theorem setBlock_blockBitmap : (p.setBlock i v).blockBitmap = bitmapSet p.blockBitmap i v :=
  rfl
@[simp] theorem setBlock_inodeBitmap : (p.setBlock i v).inodeBitmap = p.inodeBitmap := rfl
@[simp] theorem setInode_disk : (p.setInode i v).disk = p.disk := rfl
@[simp] theorem setInode_blockBitmap : (p.setInode i v).blockBitmap = p.blockBitmap := rfl
@[simp] theorem setInode_inodeBitmap : (p.setInode i v).inodeBitmap = bitmapSet p.inodeBitmap i v :=
  rfl
@[simp] theorem ideWrite_blockBitmap (buf : Buf) (n : Nat) :
    (ideWrite p lba buf n).blockBitmap = p.blockBitmap := rfl
@[simp] theorem ideWrite_inodeBitmap (buf : Buf) (n : Nat) :
    (ideWrite p lba buf n).inodeBitmap = p.inodeBitmap := rfl
@[simp] theorem blockBitmapSync_blockBitmap : (blockBitmapSync p i).blockBitmap = p.blockBitmap :=
  rfl
@[simp] theorem blockBitmapSync_inodeBitmap : (blockBitmapSync p i).inodeBitmap = p.inodeBitmap :=
  rfl
@[simp] theorem inodeBitmapSync_blockBitmap : (inodeBitmapSync p i).blockBitmap = p.blockBitmap :=
  rfl
@[simp] theorem inodeBitmapSync_inodeBitmap : (inodeBitmapSync p i).inodeBitmap = p.inodeBitmap :=
  rfl

theorem Wrote.none (hd : p'.disk = p.disk) (hw : p'.written = p.written) : Wrote p [] p' where
  log := by rw [hw, List.append_nil]
  same _ _ := by rw [hd]

theorem Wrote.refl (p : Part sb) : Wrote p [] p := .none rfl rfl

theorem Wrote.trans (h : Wrote p W p') (h' : Wrote p' W' p'') : Wrote p (W ++ W') p'' where
  log := by rw [h'.log, h.log, List.append_assoc]
  same a ha := by
    rw [List.mem_append, not_or] at ha
    rw [h'.same a ha.2, h.same a ha.1]

theorem wrote_ideWrite (p : Part sb) (lba : Nat) (buf : Buf) (n : Nat) :
    Wrote p (List.range' lba n) (ideWrite p lba buf n) where
  log := rfl
  same a ha := by
    rw [List.mem_range'_1] at ha
    unfold ideWrite
    dsimp only
    rw [if_neg]
    unfold sectorSize at ha ⊢
    omega

/-- The bytes of a sector that was not written. -/
theorem Wrote.sector (h : Wrote p W p') (hlba : lba ∉ W) {off : Nat} (hoff : off < 512) :
    p'.disk (sectorSize * lba + off) = p.disk (sectorSize * lba + off) := by
  refine h.same _ ?_
  have : (sectorSize * lba + off) / sectorSize = lba := by
    unfold sectorSize
    omega
  rw [this]
  exact hlba

/-- A sector just written. -/
theorem ideWrite_disk (buf : Buf) {off : Nat} (hoff : off < 512) :
    (ideWrite p lba buf 1).disk (sectorSize * lba + off) = buf off := by
  unfold ideWrite sectorSize
  dsimp only
  rw [if_pos (by omega)]
  congr 1
  omega

theorem ideRead_apply (buf : Buf) {off : Nat} (hoff : off < 512) :
    ideRead p lba buf 1 off = p.disk (sectorSize * lba + off) := by
  unfold ideRead sectorSize
  rw [if_pos (by omega)]

/-- READ, CHANGE, WRITE BACK: when whole sectors are read, a part of the buffer replaced and the
sectors written, only the bytes of that part change on the disk. -/
theorem ideReplace_disk {off len c : Nat} (src buf : Buf)
    (hc : off + len ≤ sectorSize * c) (a : Nat) :
    (ideWrite p lba (memcpy (ideRead p lba buf c) off src len) c).disk a =
      if sectorSize * lba + off ≤ a ∧ a < sectorSize * lba + off + len then
        src (a - (sectorSize * lba + off))
      else p.disk a := by
  simp only [ideWrite, memcpy, ideRead]
  rw [Nat.mul_add]
  by_cases hin : sectorSize * lba + off ≤ a ∧ a < sectorSize * lba + off + len
  · rw [if_pos (by omega), if_pos (by omega), if_pos hin, Nat.sub_sub]
  · rw [if_neg hin]
    by_cases hsec : sectorSize * lba ≤ a ∧ a < sectorSize * lba + sectorSize * c
    · rw [if_pos hsec, if_neg (by omega), if_pos (by omega), Nat.add_sub_cancel' hsec.1]
    · rw [if_neg hsec]

/-! ## The sectors before the data -/

/-- A sector of one of the two bitmaps. -/
def BitmapSector (sb : SuperBlock) (lba : Nat) : Prop :=
  sb.blockBitmapLba ≤ lba ∧ lba < sb.inodeTableLba

/-- A sector of the inode table. -/
def TableSector (sb : SuperBlock) (lba : Nat) : Prop :=
  sb.inodeTableLba ≤ lba ∧ lba < sb.dataStartLba

theorem BitmapSector.not_table {lba : Nat} (h : BitmapSector sb lba) :
    ¬ TableSector sb lba := fun t => by
  have := h.2
  have := t.1
  omega

theorem BitmapSector.lt {lba : Nat} (h : BitmapSector sb lba) : lba < sb.dataStartLba := by
  have := h.2
  unfold SuperBlock.dataStartLba
  omega

theorem not_table_of_le {lba : Nat} (h : sb.dataStartLba ≤ lba) :
    ¬ TableSector sb lba := fun t => by
  have := t.2
  omega

theorem not_table_zero : ¬ TableSector sb 0 := fun t => by
  have := t.1
  unfold SuperBlock.inodeTableLba at this
  omega

theorem blockBitmapSync_wrote (p : Part sb) (h : i < 4096 * sb.blockBitmapSects) :
    ∃ W, Wrote p W (blockBitmapSync p i) ∧ ∀ lba ∈ W, BitmapSector sb lba := by
  refine ⟨_, wrote_ideWrite p _ _ _, fun lba hl => ?_⟩
  rw [List.mem_range'_1] at hl
  have := Nat.div_lt_iff_lt_mul (show 0 < 4096 by decide) (x := i) (y := sb.blockBitmapSects)
  simp only [BitmapSector, SuperBlock.inodeTableLba, SuperBlock.inodeBitmapLba,
    bitsPerSector] at hl ⊢
  omega

theorem inodeBitmapSync_wrote (p : Part sb) (h : i < 4096) :
    ∃ W, Wrote p W (inodeBitmapSync p i) ∧ ∀ lba ∈ W, BitmapSector sb lba := by
  refine ⟨_, wrote_ideWrite p _ _ _, fun lba hl => ?_⟩
  rw [List.mem_range'_1] at hl
  simp only [BitmapSector, SuperBlock.inodeTableLba, SuperBlock.inodeBitmapLba,
    bitsPerSector] at hl ⊢
  omega

/-! ## Blocks taken and given back -/

/-- The bit of the block is set. -/
def Taken (p : Part sb) (b : Nat) : Prop :=
  sb.dataStartLba ≤ b ∧ p.blockBitmap.test (b - sb.dataStartLba) = true

theorem SuperBlock.dataStart_pos (sb : SuperBlock) : 0 < sb.dataStartLba := by
  unfold SuperBlock.dataStartLba
  omega

theorem Taken.ne_zero {b : Nat} (h : Taken p b) : b ≠ 0 := by
  have := sb.dataStart_pos
  have := h.1
  omega

/-- A set bit lies in the bitmap. -/
theorem Taken.lt {b : Nat} (h : Taken p b) : b - sb.dataStartLba < 4096 * sb.blockBitmapSects := by
  by_contra hge
  have :=
    test_eq_false_of_size_le (show p.blockBitmap.size ≤
      b - sb.dataStartLba by rw [p.blockSize]; omega)
  rw [h.2] at this
  cases this

theorem SuperBlock.dataStart_lt (sb : SuperBlock) : sb.dataStartLba < 2 ^ 31 := by
  have h₁ := sb.fits.1
  have h₂ := sb.holds
  simp only [SuperBlock.dataStartLba, SuperBlock.inodeTableLba, SuperBlock.inodeBitmapLba,
    SuperBlock.blockBitmapLba]
  omega

theorem Taken.lt_u32 {b : Nat} (h : Taken p b) : b < 2 ^ 32 := by
  have h₁ := h.lt
  have h₂ := sb.dataStart_lt
  have h₃ := sb.fits.2
  omega

theorem blockBit_eq {b : Nat} (h : Taken p b) : blockBit sb b = b - sb.dataStartLba := by
  have h₁ := h.1
  have h₂ := h.lt_u32
  unfold blockBit u32
  omega

theorem taken_congr (h : p'.blockBitmap = p.blockBitmap) (b : Nat) : Taken p' b ↔ Taken p b := by
  unfold Taken
  rw [h]

/-- From `p` to `p'` the free block `b` is taken; only sectors of the bitmaps are written. -/
structure Allocated (p : Part sb) (b : Nat) (p' : Part sb) : Prop where
  start : sb.dataStartLba ≤ b
  free : ¬ Taken p b
  taken : ∀ c, Taken p' c ↔ c = b ∨ Taken p c
  inodeBitmap : p'.inodeBitmap = p.inodeBitmap
  wrote : ∃ W, Wrote p W p' ∧ ∀ lba ∈ W, BitmapSector sb lba

theorem Allocated.ne_zero {b : Nat} (h : Allocated p b p') : b ≠ 0 := by
  have := h.start
  have := sb.dataStart_pos
  omega

theorem Allocated.self {b : Nat} (h : Allocated p b p') : Taken p' b := (h.taken b).mpr (.inl rfl)

/-- The scan ends at a free bit, and setting it takes the block. -/
theorem setBlock_taken {i : Nat} (hi : i < p.blockBitmap.size) (c : Nat) :
    Taken (p.setBlock i true) c ↔ c = sb.dataStartLba + i ∨ Taken p c := by
  have hpos := sb.dataStart_pos
  unfold Taken
  rw [setBlock_blockBitmap, test_bitmapSet hi]
  by_cases hc : c = sb.dataStartLba + i
  · subst hc
    simp
  · simp only [hc, false_or]
    refine and_congr_right fun hle => ?_
    rw [if_neg (by omega)]

/-- WHAT `block_bitmap_alloc` ANSWERS, followed by the sync of its bit: a block that was free, now
taken. -/
theorem blockBitmapAlloc_ok {r : Option (Nat × Part sb)} (h : blockBitmapAlloc p = .ok r) :
    ∃ b p₁, r = some (b, p₁) ∧ Allocated p b (blockBitmapSync p₁ (blockBit sb b)) := by
  unfold blockBitmapAlloc at h
  obtain ⟨_, hscan, h⟩ := bind_eq_ok.mp h
  obtain ⟨i, rfl, hi, hfree, _⟩ := bitmapScan_one hscan
  cases h
  have hself : Taken (p.setBlock i true) (sb.dataStartLba + i) :=
    (setBlock_taken hi _).mpr (.inl rfl)
  have hbit : blockBit sb (sb.dataStartLba + i) = i := by
    rw [blockBit_eq hself]
    omega
  have first : Wrote p [] (p.setBlock i true) := .none rfl rfl
  obtain ⟨W, hw, hm⟩ := blockBitmapSync_wrote (p.setBlock i true) (p.blockSize ▸ hi)
  refine ⟨_, _, rfl, Nat.le_add_right _ _, fun ht => ?_, fun c => ?_, rfl, [] ++ W,
    first.trans ?_, hm⟩
  · have := ht.2
    rw [Nat.add_sub_cancel_left, hfree] at this
    cases this
  · rw [taken_congr blockBitmapSync_blockBitmap, setBlock_taken hi]
  · rw [hbit]
    exact hw

/-- From `p` to `p'` the block `b` is given back; only sectors of the bitmaps are written. -/
structure Freed (p : Part sb) (b : Nat) (p' : Part sb) : Prop where
  taken : ∀ c, Taken p' c ↔ c ≠ b ∧ Taken p c
  inodeBitmap : p'.inodeBitmap = p.inodeBitmap
  wrote : ∃ W, Wrote p W p' ∧ ∀ lba ∈ W, BitmapSector sb lba

theorem blockFree_freed {b : Nat} (h : Taken p b) : Freed p b (blockFree p b) := by
  have hlt := h.lt
  have hle := h.1
  have hsize : b - sb.dataStartLba < p.blockBitmap.size := p.blockSize ▸ hlt
  refine ⟨fun c => ?_, rfl, ?_⟩
  · unfold Taken blockFree
    rw [blockBitmapSync_blockBitmap, setBlock_blockBitmap, blockBit_eq h, test_bitmapSet hsize]
    by_cases hc : c = b
    · subst hc
      simp
    · simp only [hc, ne_eq, not_false_eq_true, true_and]
      refine and_congr_right fun hle' => ?_
      rw [if_neg (by omega)]
  · rw [← blockBit_eq h] at hlt
    obtain ⟨W, hw, hm⟩ := blockBitmapSync_wrote (p.setBlock (blockBit sb b) false) hlt
    have first : Wrote p [] (p.setBlock (blockBit sb b) false) := .none rfl rfl
    exact ⟨[] ++ W, first.trans hw, hm⟩

/-! ## Free blocks -/

/-- The bits of the block bitmap that are clear. -/
def freeBits (p : Part sb) : Finset Nat :=
  (Finset.range (4096 * sb.blockBitmapSects)).filter fun i => p.blockBitmap.test i = false

/-- How many blocks are free. -/
def freeCount (p : Part sb) : Nat := (freeBits p).card

theorem mem_freeBits {i : Nat} :
    i ∈ freeBits p ↔ i < 4096 * sb.blockBitmapSects ∧ ¬ Taken p (sb.dataStartLba + i) := by
  unfold freeBits Taken
  rw [Finset.mem_filter, Finset.mem_range, Nat.add_sub_cancel_left, Bool.eq_false_iff]
  simp

theorem freeCount_congr (h : p'.blockBitmap = p.blockBitmap) : freeCount p' = freeCount p := by
  unfold freeCount freeBits
  rw [h]

/-- A block taken is free no more. -/
theorem Allocated.freeCount {b : Nat} (h : Allocated p b p') : freeCount p' + 1 = freeCount p := by
  have hstart := h.start
  have hmem : b - sb.dataStartLba ∈ freeBits p := by
    rw [mem_freeBits, Nat.add_sub_cancel' hstart]
    exact ⟨h.self.lt, h.free⟩
  have herase : freeBits p' = (freeBits p).erase (b - sb.dataStartLba) := by
    ext i
    rw [Finset.mem_erase, mem_freeBits, mem_freeBits, h.taken, not_or]
    have : sb.dataStartLba + i = b ↔ i = b - sb.dataStartLba := by omega
    rw [this]
    exact and_left_comm
  have hpos := Finset.card_pos.mpr ⟨_, hmem⟩
  unfold Fs.freeCount
  rw [herase, Finset.card_erase_of_mem hmem]
  omega

/-- With a free block `block_bitmap_alloc` answers one. -/
theorem blockBitmapAlloc_total (h : 0 < freeCount p) :
    ∃ b p₁, blockBitmapAlloc p = .ok (some (b, p₁)) ∧
      Allocated p b (blockBitmapSync p₁ (blockBit sb b)) := by
  obtain ⟨i, hi⟩ := Finset.card_pos.mp h
  unfold freeBits at hi
  rw [Finset.mem_filter, Finset.mem_range, ← p.blockSize] at hi
  have hscan := @bitmapScan_total false p.blockBitmap 1 (Nat.le_refl 1) ⟨i, hi⟩
  have halloc : ∃ r, blockBitmapAlloc p = .ok r := by
    unfold blockBitmapAlloc
    rw [hscan]
    exact ⟨_, rfl⟩
  obtain ⟨r, halloc⟩ := halloc
  obtain ⟨b, p₁, rfl, alloc⟩ := blockBitmapAlloc_ok halloc
  exact ⟨b, p₁, halloc, alloc⟩

/-- With a free inode `inode_bitmap_alloc` answers one. -/
theorem inodeBitmapAlloc_total (h : ∃ i < 4096, p.inodeBitmap.test i = false) :
    ∃ n < 4096, inodeBitmapAlloc p = .ok (some (n, p.setInode n true)) := by
  obtain ⟨i, hi, hclear⟩ := h
  have total :=
    @bitmapScan_total false p.inodeBitmap 1 (Nat.le_refl 1) ⟨i, by rwa [p.inodeSize], hclear⟩
  obtain ⟨n, hn, hlt, -⟩ := bitmapScan_one total
  rw [p.inodeSize] at hlt
  refine ⟨n, hlt, ?_⟩
  unfold inodeBitmapAlloc
  rw [total, hn]
  rfl

end SeekingOs.Fs
