import SeekingOs.Fs.Format

/-!
# Which sectors a formatted partition hands out

`Safe part`: the partition is laid out without overlap, and in every run of allocations and
releases on the mounted result every sector that is handed out is a free one inside the partition.

Bit `block_bitmap_bit_len` is left clear by the masking loop. When there is a data sector more than
bits that is the sector's bit; when the bits fill the bitmap it lies behind it; otherwise its sector
is the first one behind the partition.
-/

namespace SeekingOs.Fs

open Lib

variable {part : Partition} {pad : Buf} {disk disk' : Disk}

theorem Sizes.words (z : Sizes part) : ∀ w ∈ part.superBlock.words, w < 2 ^ 32 := by
  have h₁ := z.room
  have h₂ := z.bound
  intro w hw
  simp only [DiskSuper.words, Partition.superBlock, inodeBitmapSects_eq, inodeTableSects_eq,
    maxFilesPerPart, dirEntrySize,
    List.mem_cons, List.not_mem_nil, or_false] at hw
  omega

/-- What the formatted disk holds, as far as mounting looks at it. -/
structure Formatted (part : Partition) (disk : Disk) : Prop where
  sb : diskSuperAt (fun off => disk (sectorSize * (part.startLba + 1) + off)) = part.superBlock
  block : ∀ i < 4096 * part.blockBitmapSects,
    (disk (sectorSize * (part.startLba + 2) + i / 8)).getLsbD (i % 8) =
      (decide (i = 0) || decide (part.bitLen < i))

/-- `partition_format` comes to its end exactly when the masked bytes lie in the buffer. -/
theorem partitionFormat_ok (z : Sizes part) (pad : Buf) (disk : Disk) :
    (∃ disk', partitionFormat part pad disk = .ok disk') ↔
    ¬ (part.bitLen % 4096 = 0 ∧ 608 ≤ part.blockBitmapSects) := by
  rw [← z.buffer]
  unfold partitionFormat blockBitmapInit
  dsimp only
  by_cases hb : part.bufSize < part.bitLen / 8 + (sectorSize - part.bitLen / 8 % sectorSize)
  · rw [if_pos hb]
    exact ⟨fun h => (by obtain ⟨_, h⟩ := h; cases h), fun h => absurd hb h⟩
  · rw [if_neg hb]
    exact ⟨fun _ => hb, fun _ => ⟨_, rfl⟩⟩

/-- THE FORMATTED DISK. The superblock is read back, and in the block bitmap bit 0 is set and the
bits behind bit `block_bitmap_bit_len`. -/
theorem formatted (z : Sizes part) (h : partitionFormat part pad disk = .ok disk') :
    Formatted part disk' := by
  have h₁ := z.second
  have h₂ := z.data.2
  have hib := inodeBitmapSects_eq
  have hit := inodeTableSects_eq
  unfold partitionFormat at h
  dsimp only at h
  obtain ⟨buf, hbuf, h⟩ := bind_eq_ok.mp h
  obtain rfl := Except.ok.inj h
  have hlba : part.superBlock.blockBitmapLba = part.startLba + 2 := rfl
  have hsects : part.superBlock.blockBitmapSects = part.blockBitmapSects := rfl
  have hibl : part.superBlock.inodeBitmapLba = part.startLba + 2 + part.blockBitmapSects := rfl
  have hitl : part.superBlock.inodeTableLba = part.startLba + 2 + part.blockBitmapSects +
      Partition.inodeBitmapSects := rfl
  have hdsl : part.superBlock.dataStartLba =
    part.startLba + 2 + part.blockBitmapSects + Partition.inodeBitmapSects +
      Partition.inodeTableSects := rfl
  refine ⟨?_, fun i hi => ?_⟩
  · refine (diskSuperAt_congr fun off hoff => ?_).trans (diskSuperAt_toBuf pad z.words)
    rw [write_other (.inl (by omega)) (by omega), write_other (.inl (by omega)) (by omega),
      write_other (.inl (by omega)) (by omega), write_other (.inl (by omega)) (by omega),
      write_same (by unfold sectorSize; omega)]
  · -- the byte lies in sector `i / 4096` of the bitmap
    have split : sectorSize * (part.startLba + 2) + i / 8 =
        sectorSize * (part.startLba + 2 + i / 4096) + i / 8 % 512 := by
      unfold sectorSize
      omega
    have hsec : i / 4096 < part.blockBitmapSects := by omega
    rw [split, write_other (.inl (by omega)) (by omega), write_other (.inl (by omega)) (by omega),
      write_other (.inl (by omega)) (by omega), ← split, hlba,
      write_same (by rw [hsects]; unfold sectorSize; omega)]
    exact blockBitmapInit_test hbuf h₂ (by omega)

/-- The bits after mounting. -/
theorem mounted_test (f : Formatted part disk) {i : Nat} (hi : i < 4096 * part.blockBitmapSects) :
    (mountPartition part disk).blockBitmap.test i =
      (decide (i = 0) || decide (part.bitLen < i)) := by
  have hk : i / 8 < sectorSize * part.blockBitmapSects := by
    unfold sectorSize
    omega
  unfold mountPartition Bitmap.test
  dsimp only
  rw [f.sb]
  show ((disk.read (part.startLba + 2) part.blockBitmapSects).getD (i / 8) 0).getLsbD (i % 8) = _
  rw [getD_read _ _ hk]
  exact f.block i hi

theorem mounted_sb (f : Formatted part disk) : (mountPartition part disk).sb = part.superBlock :=
  f.sb

theorem mounted_size (f : Formatted part disk) :
    (mountPartition part disk).blockBitmap.size = 4096 * part.blockBitmapSects := by
  unfold mountPartition Bitmap.size
  dsimp only
  rw [f.sb, length_read]
  show 8 * (sectorSize * part.blockBitmapSects) = _
  unfold sectorSize
  omega

/-! ## Allocating and releasing -/

/-- A mounted partition, and the sectors that are allocated now. -/
structure AllocState where
  mounted : Mounted
  /-- Ghost: handed out and not released since. -/
  live : List Nat

inductive AllocEvent where
  | blockBitmapAlloc
  | release (lba : Nat)
  deriving DecidableEq, Repr

/-- Who releases a sector has it. -/
def allocEnabled (s : AllocState) : AllocEvent → Prop
  | .blockBitmapAlloc => True
  | .release lba => lba ∈ s.live

/-- One step. An allocation answers its sector. -/
def allocStep (s : AllocState) : AllocEvent → Except Fault (AllocState × Option Nat)
  | .blockBitmapAlloc => do
    match ← s.mounted.blockBitmapAlloc with
    | none => return (s, none)
    | some (lba, mounted) => return (⟨mounted, lba :: s.live⟩, some lba)
  | .release lba => .ok (⟨s.mounted.blockRelease lba, s.live.erase lba⟩, none)

/-- The block allocator as a machine. -/
def allocMachine : Machine AllocState AllocEvent (Option Nat) Fault := ⟨allocEnabled, allocStep⟩

/-- The mounted partition before its first allocation. -/
def allocStart (part : Partition) (disk : Disk) : AllocState := ⟨mountPartition part disk, []⟩

/-- A sector that was handed out is a data sector of the partition, not the root's first block, and
was free. -/
def HandedOut (part : Partition) (entry : Entry AllocState AllocEvent (Option Nat)) : Prop :=
  ∀ lba, entry.event = .blockBitmapAlloc → entry.out = some lba →
    entry.pre.mounted.sb.dataStartLba < lba ∧ lba < part.startLba + part.secCnt ∧
    lba ∉ entry.pre.live

/-- The areas lie one behind the other, from the superblock to the data, inside the partition. -/
structure LaidOut (part : Partition) (sb : DiskSuper) : Prop where
  blockBitmap : part.startLba + 2 ≤ sb.blockBitmapLba
  inodeBitmap : sb.blockBitmapLba + sb.blockBitmapSects ≤ sb.inodeBitmapLba
  inodeTable : sb.inodeBitmapLba + sb.inodeBitmapSects ≤ sb.inodeTableLba
  dataStart : sb.inodeTableLba + sb.inodeTableSects ≤ sb.dataStartLba
  data : sb.dataStartLba < part.startLba + part.secCnt

/-- What the claim says of a partition. -/
def Safe (part : Partition) : Prop :=
  ∀ pad disk, ∃ disk', partitionFormat part pad disk = .ok disk' ∧
    LaidOut part (mountPartition part disk').sb ∧
    ∀ tr s, allocMachine.Path (allocStart part disk') tr s → ∀ entry ∈ tr, HandedOut part entry

theorem laidOut (z : Sizes part) : LaidOut part part.superBlock := by
  have h := z.room
  have hib := inodeBitmapSects_eq
  have hit := inodeTableSects_eq
  refine ⟨Nat.le_refl _, Nat.le_refl _, Nat.le_refl _, Nat.le_refl _, ?_⟩
  show part.startLba + 2 + part.blockBitmapSects + Partition.inodeBitmapSects +
    Partition.inodeTableSects < _
  omega

/-- THE INVARIANT. The bits that are set are bit 0, those behind bit `block_bitmap_bit_len`, and
those of the allocated sectors. -/
structure AllocInv (part : Partition) (s : AllocState) : Prop where
  sb : s.mounted.sb = part.superBlock
  size : s.mounted.blockBitmap.size = 4096 * part.blockBitmapSects
  bits : ∀ i < 4096 * part.blockBitmapSects, s.mounted.blockBitmap.test i = true ↔
    i = 0 ∨ part.bitLen < i ∨ part.superBlock.dataStartLba + i ∈ s.live
  live : ∀ lba ∈ s.live, ∃ i, 0 < i ∧ i < 4096 * part.blockBitmapSects ∧ i ≤ part.bitLen ∧
    lba = part.superBlock.dataStartLba + i
  nodup : s.live.Nodup

theorem allocStart_inv (f : Formatted part disk) : AllocInv part (allocStart part disk) where
  sb := mounted_sb f
  size := mounted_size f
  bits i hi := by
    show (mountPartition part disk).blockBitmap.test i = true ↔ _
    rw [mounted_test f hi]
    simp [allocStart]
  live := nofun
  nodup := List.nodup_nil

/-- WHAT AN ALLOCATION DOES: the first clear bit is set. -/
theorem blockBitmapAlloc_cases {s s' : AllocState} {o : Option Nat} (inv : AllocInv part s)
    (h : allocStep s .blockBitmapAlloc = .ok (s', o)) :
    ∃ i, o = some (part.superBlock.dataStartLba + i) ∧ i < 4096 * part.blockBitmapSects ∧
      s.mounted.blockBitmap.test i = false ∧ (∀ j < i, s.mounted.blockBitmap.test j = true) ∧
      s' = ⟨{ s.mounted with blockBitmap := bitmapSet s.mounted.blockBitmap i true },
        (part.superBlock.dataStartLba + i) :: s.live⟩ := by
  unfold allocStep at h
  dsimp only at h
  obtain ⟨r, hr, h⟩ := bind_eq_ok.mp h
  unfold Mounted.blockBitmapAlloc at hr
  obtain ⟨_, hscan, hr⟩ := bind_eq_ok.mp hr
  obtain ⟨i, rfl, hi, hfree, hleast⟩ := bitmapScan_one hscan
  cases hr
  cases h
  exact ⟨i, by rw [← inv.sb], by rw [← inv.size]; exact hi, hfree, hleast, by rw [← inv.sb]⟩

theorem AllocInv.alloc {s s' : AllocState} {o : Option Nat} (inv : AllocInv part s)
    (h : allocStep s .blockBitmapAlloc = .ok (s', o)) : AllocInv part s' := by
  obtain ⟨i, rfl, hi, hfree, -, rfl⟩ := blockBitmapAlloc_cases inv h
  have hnot : ¬ (i = 0 ∨ part.bitLen < i ∨ part.superBlock.dataStartLba + i ∈ s.live) := by
    rw [← inv.bits i hi, hfree]
    exact Bool.false_ne_true
  rw [not_or, not_or, Nat.not_lt] at hnot
  refine ⟨inv.sb, (size_bitmapSet _ _ _).trans inv.size, fun j hj => ?_, fun lba hl => ?_,
    List.nodup_cons.mpr ⟨hnot.2.2, inv.nodup⟩⟩
  · rw [test_bitmapSet (by rw [inv.size]; exact hi), List.mem_cons, Nat.add_left_cancel_iff]
    by_cases e : j = i
    · simp [e]
    · rw [if_neg e, inv.bits j hj]
      simp [e]
  · rcases List.mem_cons.mp hl with rfl | hl
    · exact ⟨i, Nat.pos_of_ne_zero hnot.1, hi, hnot.2.1, rfl⟩
    · exact inv.live lba hl

theorem AllocInv.release (z : Sizes part) {s : AllocState} {lba : Nat} (inv : AllocInv part s)
    (h : lba ∈ s.live) : AllocInv part ⟨s.mounted.blockRelease lba, s.live.erase lba⟩ := by
  have h₁ := z.room
  have h₂ := z.bound
  have h₃ := z.second
  have h₄ := z.free
  have h₅ := z.len
  obtain ⟨i, hpos, hi, hle, rfl⟩ := inv.live lba h
  have hbit : u32 ((part.superBlock.dataStartLba + i : Nat) - part.superBlock.dataStartLba) =
      i := by
    rw [show (((part.superBlock.dataStartLba + i : Nat) : Int) - part.superBlock.dataStartLba) =
      (i : Int) by omega]
    exact u32_of_lt (by omega)
  have hmounted : s.mounted.blockRelease (part.superBlock.dataStartLba + i) =
      { s.mounted with blockBitmap := bitmapSet s.mounted.blockBitmap i false } := by
    unfold Mounted.blockRelease
    rw [← inv.sb] at hbit ⊢
    rw [hbit]
  rw [hmounted]
  refine ⟨inv.sb, (size_bitmapSet _ _ _).trans inv.size, fun j hj => ?_, fun lba hl =>
    inv.live lba (List.mem_of_mem_erase hl),
    inv.nodup.erase _⟩
  rw [test_bitmapSet (by rw [inv.size]; exact hi), inv.nodup.mem_erase_iff, ne_eq,
    Nat.add_left_cancel_iff]
  by_cases e : j = i
  · subst e
    simp [Nat.pos_iff_ne_zero.mp hpos, Nat.not_lt.mpr hle]
  · rw [if_neg e, inv.bits j hj]
    simp [e]

theorem AllocInv.next (z : Sizes part) {s s' : AllocState} {e : AllocEvent} {o : Option Nat}
    (inv : AllocInv part s) (en : allocMachine.enabled s e)
    (st : allocMachine.step s e = .ok (s', o)) : AllocInv part s' := by
  cases e with
  | blockBitmapAlloc => exact inv.alloc st
  | release lba =>
    cases st
    exact inv.release z en

/-! ## When the sectors are inside -/

/-- No bit stands for a sector outside the partition: the bits fill the bitmap, in a buffer that is
longer, or there is a data sector for bit `block_bitmap_bit_len` too. -/
def Exact (part : Partition) : Prop :=
  (part.bitLen % 4096 = 0 ∧ part.blockBitmapSects < 608) ∨
    (part.bitLen % 4096 ≠ 0 ∧ part.blockBitmapSects < part.firstBitmapSects)

instance (part : Partition) : Decidable (Exact part) := inferInstanceAs (Decidable (_ ∨ _))

/-- A clear bit stands for a sector inside. -/
theorem Exact.inside (z : Sizes part) (exact : Exact part) {i : Nat}
    (hi : i < 4096 * part.blockBitmapSects) (hle : i ≤ part.bitLen) :
    part.superBlock.dataStartLba + i < part.startLba + part.secCnt := by
  have h₁ := z.free
  have h₂ := z.len
  have h₃ := z.first
  have h₄ := z.second
  have h₅ := z.room
  have hib := inodeBitmapSects_eq
  have hit := inodeTableSects_eq
  show part.startLba + 2 + part.blockBitmapSects + Partition.inodeBitmapSects +
    Partition.inodeTableSects + i < _
  rcases exact with ⟨h, _⟩ | ⟨_, h⟩ <;> omega

theorem safe_of_exact (z : Sizes part) (exact : Exact part) : Safe part := by
  intro pad disk
  obtain ⟨disk', hd⟩ :=
    (partitionFormat_ok z pad disk).mpr (by rcases exact with ⟨_, h⟩ | ⟨h, _⟩ <;> omega)
  have f := formatted z hd
  refine ⟨disk', hd, mounted_sb f ▸ laidOut z, fun tr s path => ?_⟩
  refine path.each (I := AllocInv part) (allocStart_inv f) (AllocInv.next z)
    fun {s e s' o} inv _ st lba he ho => ?_
  obtain rfl : e = .blockBitmapAlloc := he
  obtain ⟨i, hout, hi, hfree, -, -⟩ := blockBitmapAlloc_cases inv st
  obtain rfl : part.superBlock.dataStartLba + i = lba := Option.some.inj (hout.symm.trans ho)
  have hnot : ¬ (i = 0 ∨ part.bitLen < i ∨ part.superBlock.dataStartLba + i ∈ s.live) := by
    rw [← inv.bits i hi, hfree]
    exact Bool.false_ne_true
  rw [not_or, not_or, Nat.not_lt] at hnot
  refine ⟨?_, exact.inside z hi hnot.2.1, hnot.2.2⟩
  show s.mounted.sb.dataStartLba < _
  rw [inv.sb]
  exact Nat.lt_add_of_pos_right (Nat.pos_of_ne_zero hnot.1)

/-! ## One allocation after the other -/

/-- The next clear bit is found. -/
theorem alloc_first {s : AllocState} (inv : AllocInv part s) {i : Nat}
    (hi : i < 4096 * part.blockBitmapSects) (hfree : s.mounted.blockBitmap.test i = false)
    (hleast : ∀ j < i, s.mounted.blockBitmap.test j = true) :
    ∃ s', allocMachine.step s .blockBitmapAlloc =
      .ok (s', some (part.superBlock.dataStartLba + i)) ∧
      s'.mounted.blockBitmap = bitmapSet s.mounted.blockBitmap i true := by
  have total : ∃ s' o, allocStep s .blockBitmapAlloc = .ok (s', o) := by
    have hscan :=
      @bitmapScan_total false s.mounted.blockBitmap 1 (Nat.le_refl 1)
        ⟨i, by rw [inv.size]; exact hi, hfree⟩
    unfold allocStep Mounted.blockBitmapAlloc
    dsimp only
    rw [hscan]
    cases scanAnswer s.mounted.blockBitmap 1 with
    | none => exact ⟨_, _, rfl⟩
    | some i => exact ⟨_, _, rfl⟩
  obtain ⟨s', o, st⟩ := total
  obtain ⟨j, rfl, -, hfree', hleast', rfl⟩ := blockBitmapAlloc_cases inv st
  have hle : ¬ i < j := fun hlt => by
    have := hleast' i hlt
    rw [hfree] at this
    cases this
  have hge : ¬ j < i := fun hlt => by
    have := hleast j hlt
    rw [hfree'] at this
    cases this
  obtain rfl : j = i := by omega
  exact ⟨_, st, rfl⟩

/-- The run that only allocates: after `k` allocations the bits 0 to `k` are set. -/
theorem alloc_run (f : Formatted part disk) (k : Nat) (hk : k < 4096 * part.blockBitmapSects)
    (hle : k ≤ part.bitLen) :
    ∃ s, allocMachine.Reachable (allocStart part disk) s ∧ AllocInv part s ∧
      ∀ i < 4096 * part.blockBitmapSects, s.mounted.blockBitmap.test i =
        (decide (i ≤ k) || decide (part.bitLen < i)) := by
  induction k with
  | zero =>
    refine ⟨_, .start _, allocStart_inv f, fun i hi => ?_⟩
    rw [show (allocStart part disk).mounted.blockBitmap.test i = _ from mounted_test f hi]
    simp
  | succ k ih =>
    obtain ⟨s, reach, inv, bits⟩ := ih (by omega) (by omega)
    obtain ⟨s', st, hbits⟩ := alloc_first inv hk (by rw [bits _ hk]; simp; omega) fun j hj => by
      rw [bits _ (by omega)]
      simp
      omega
    refine ⟨s', reach.step (e := .blockBitmapAlloc) trivial st, inv.alloc st, fun j hj => ?_⟩
    rw [hbits, test_bitmapSet (by rw [inv.size]; exact hk)]
    split
    next e => simp [e]
    next e =>
      rw [bits j hj]
      congr 1
      rw [decide_eq_decide]
      omega

/-- A clear bit is handed out sooner or later. -/
theorem handed_out (f : Formatted part disk) {i : Nat} (hpos : 0 < i)
    (hi : i < 4096 * part.blockBitmapSects) (hle : i ≤ part.bitLen) :
    ∃ tr s, allocMachine.Path (allocStart part disk) tr s ∧
      ∃ entry ∈ tr, entry.event = .blockBitmapAlloc ∧
        entry.out = some (part.superBlock.dataStartLba + i) := by
  obtain ⟨s, ⟨tr, path⟩, inv, bits⟩ := alloc_run f (i - 1) (by omega) (by omega)
  obtain ⟨s', st, -⟩ := alloc_first inv hi (by rw [bits _ hi]; simp; omega) fun j hj => by
    rw [bits _ (by omega)]
    simp
    omega
  have en : allocMachine.enabled s .blockBitmapAlloc := trivial
  exact ⟨_, s', path.step en st, _, List.mem_append_right _ (List.mem_singleton_self _), rfl, rfl⟩

/-- Bit `block_bitmap_bit_len` is in the bitmap, and there is no sector for it. -/
theorem not_safe (z : Sizes part) (inexact : ¬ Exact part) : ¬ Safe part := by
  intro safe
  have h₁ := z.free
  have h₂ := z.len
  have h₃ := z.first
  have h₄ := z.second
  have h₅ := z.data
  obtain ⟨disk', hd, -, runs⟩ := safe zeros zeros
  have hbuf := (partitionFormat_ok z zeros zeros).mp ⟨disk', hd⟩
  have hmod : part.bitLen % 4096 ≠ 0 := fun e => inexact (.inl ⟨e, by omega⟩)
  have hsects : ¬ part.blockBitmapSects < part.firstBitmapSects := fun e => inexact (.inr ⟨hmod, e⟩)
  obtain ⟨tr, s, path, entry, hmem, he, ho⟩ :=
    handed_out (formatted z hd) (i := part.bitLen) (by omega) (by omega) (Nat.le_refl _)
  have hlt := (runs tr s path entry hmem _ he ho).2.1
  have hib := inodeBitmapSects_eq
  have hit := inodeTableSects_eq
  have hdata : part.superBlock.dataStartLba =
    part.startLba + 2 + part.blockBitmapSects + Partition.inodeBitmapSects +
      Partition.inodeTableSects := rfl
  omega

/-- WHEN A FORMATTED PARTITION NEVER HANDS OUT A SECTOR OUTSIDE ITSELF, for every partition with
room for the metadata and 16 data sectors. -/
theorem format_safe_iff (room : part.Roomy) : Safe part ↔ Exact part :=
  ⟨fun safe => by_contra fun inexact => not_safe (sizes room) inexact safe,
    safe_of_exact (sizes room)⟩

/-- A partition whose bits fill one sector. -/
theorem format_safe_iff_exact : Safe ⟨63, 4709, by decide⟩ :=
  (format_safe_iff (by decide)).mpr (by decide)

/-- A partition that fills the biggest disk the driver takes: 163126 bits for as many data sectors,
in 40 sectors. -/
theorem format_unsafe : ¬ ∀ part : Partition, part.Roomy → Safe part := by
  intro claim
  have room : (⟨63, 163840 - 63, by decide⟩ : Partition).Roomy := by decide
  exact not_safe (sizes room) (by decide) (claim _ room)

end SeekingOs.Fs
