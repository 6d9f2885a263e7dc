import Mathlib.Order.Interval.Finset.Nat
import SeekingOs.Fs.DirMap
import SeekingOs.Fs.NoDebug

/-!
# A write that finds too few blocks

In a build with `NDEBUG` the blocks of a write are taken one at a time until there is none. Then
`file_write` answers −1; it does not give back those that it has taken.
-/

namespace SeekingOs.Fs.NoDebug

open Lib

variable {sb : SuperBlock} {p p' : Part sb} {inode : Inode} {g : Growth sb}

/-! ## Allocation -/

theorem blockBitmapAlloc_none (h : freeCount p = 0) : blockBitmapAlloc p = .ok none := by
  have hspec := scanAnswer_spec p.blockBitmap (Nat.le_refl 1)
  have hnone : scanAnswer p.blockBitmap 1 = none := by
    cases hs : scanAnswer p.blockBitmap 1 with
    | none => rfl
    | some i =>
      exfalso
      rw [hs] at hspec
      have hin := hspec.free.1
      have hclear := hspec.free.2 i (Nat.le_refl i) (Nat.lt_succ_self i)
      rw [p.blockSize] at hin
      have hmem : i ∈ freeBits p := by
        unfold freeBits
        rw [Finset.mem_filter, Finset.mem_range]
        exact ⟨by omega, hclear⟩
      rw [Finset.card_eq_zero.mp h] at hmem
      cases hmem
  show Except.ok ((scanAnswer p.blockBitmap 1).map _) = _
  rw [hnone]
  rfl

theorem blockBitmapAlloc_some (h : 0 < freeCount p) :
    ∃ b p₁, blockBitmapAlloc p = .ok (some (b, p₁)) ∧
      Allocated p b (blockBitmapSync p₁ (blockBit sb b)) := by
  obtain ⟨b, p₁, halloc, alloc⟩ := blockBitmapAlloc_total h
  exact ⟨b, p₁, blockBitmapAlloc_agrees halloc, alloc⟩

/-- How an allocation of several blocks fails: when none is left, and if there was none at first,
without having changed anything. -/
structure Fails (p : Part sb) (inode : Inode) (p' : Part sb) (inode' : Inode) : Prop where
  full : freeCount p' = 0
  same : freeCount p = 0 → p' = p ∧ inode' = inode

/-- The loop takes what there is. -/
theorem growBlocks_fails {ks : List Nat} (few : freeCount g.part < ks.length) :
    ∃ g', growBlocks g ks = .ok (false, g') ∧ Fails g.part g.inode g'.part g'.inode := by
  induction ks generalizing g with
  | nil => cases few
  | cons k ks ih =>
    rw [List.length_cons] at few
    unfold growBlocks
    by_cases h0 : freeCount g.part = 0
    · rw [blockBitmapAlloc_none h0]
      exact ⟨g, rfl, h0, fun _ => ⟨rfl, rfl⟩⟩
    · obtain ⟨b, p₁, halloc, alloc⟩ := blockBitmapAlloc_some (Nat.pos_of_ne_zero h0)
      have hleft := alloc.freeCount
      rw [halloc, ok_bind]
      dsimp only
      obtain ⟨g', hgrow, fails⟩ :=
        ih (g := ⟨blockBitmapSync p₁ (blockBit sb b), (noteBlock g.inode g.allBlocks k b).1,
        (noteBlock g.inode g.allBlocks k b).2⟩) (show freeCount (blockBitmapSync p₁
          (blockBit sb b)) < ks.length by omega)
      exact ⟨g', hgrow, fails.full, fun h => absurd h h0⟩

theorem newBlocks_length (has will : Nat) : (newBlocks has will).length = will - has :=
  List.length_range'

/-- The blocks of a write, when there are too few. -/
theorem collectForWrite_fails {has will : Nat} (hhas : 0 < has) (hlt : has ≤ will)
    (few : freeCount p < will - has + if has ≤ 12 ∧ 12 < will then 1 else 0) :
    ∃ g, collectForWrite p inode has will = .ok (false, g) ∧ Fails p inode g.part g.inode := by
  have hne : will ≠ has := by
    rintro rfl
    rw [if_neg (by omega)] at few
    omega
  unfold collectForWrite
  rw [if_neg hne]
  by_cases hdirect : will ≤ 12
  · rw [if_pos hdirect]
    rw [if_neg (by omega)] at few
    unfold growDirect sectorAt
    rw [if_pos (by omega)]
    apply growBlocks_fails
    rw [newBlocks_length]
    exact few
  rw [if_neg hdirect]
  by_cases hacross : has ≤ 12
  · rw [if_pos hacross]
    rw [if_pos (by omega)] at few
    unfold growAcross
    by_cases h0 : freeCount p = 0
    · rw [blockBitmapAlloc_none h0]
      exact ⟨_, rfl, h0, fun _ => ⟨rfl, rfl⟩⟩
    · obtain ⟨b, p₁, halloc, alloc⟩ := blockBitmapAlloc_some (Nat.pos_of_ne_zero h0)
      have hleft := alloc.freeCount
      rw [halloc, ok_bind]
      dsimp only
      have few' : freeCount (blockBitmapSync p₁ (blockBit sb b)) < (newBlocks has will).length := by
        rw [newBlocks_length]
        omega
      obtain ⟨g', hgrow, fails⟩ :=
        growBlocks_fails (g := ⟨blockBitmapSync p₁ (blockBit sb b), inode.setSector 12 b,
        Function.update (fun _ => 0) (has - 1) (inode.iSectors (has - 1))⟩) few'
      rw [hgrow]
      exact ⟨g', rfl, fails.full, fun h => absurd h h0⟩
  · rw [if_neg hacross]
    rw [if_neg (by omega)] at few
    unfold growIndirect
    have few' : freeCount p < (newBlocks has will).length := by
      rw [newBlocks_length]
      exact few
    obtain ⟨g', hgrow, fails⟩ :=
      growBlocks_fails (g := ⟨p, inode, readTable p (inode.iSectors 12) fun _ => 0⟩) few'
    rw [hgrow]
    exact ⟨g', rfl, fails⟩

/-! ## The write -/

/-- Nothing has changed, and no buffer is kept. -/
structure ChangesNothing (p : Part sb) (inode : Inode) (r : WriteEnd sb) : Prop where
  unfreed : r.unfreed = []
  inode : r.inode = inode
  blockBitmap : r.part.blockBitmap = p.blockBitmap
  disk : r.part.disk = p.disk

/-- How many blocks are taken once the first one is there. -/
theorem writeGrown_fails {fdPos count : Nat} {src : Buf}
    (limit : inode.iSize + count ≤ 140 * sectorSize)
    (few : freeCount p < usedBlocks
      (inode.iSize + count) - usedBlocks inode.iSize + if usedBlocks inode.iSize ≤ 12 ∧
      12 < usedBlocks (inode.iSize + count) then 1 else 0) :
    ∃ r, writeGrown p inode fdPos src count = .ok r ∧ r.ret = none ∧ r.unfreed = [] ∧
      Fails p inode r.part r.inode := by
  have hsum : u32 (inode.iSize + count) = inode.iSize + count := by
    rw [← Int.natCast_add]
    apply u32_of_lt
    unfold sectorSize at limit
    omega
  have hle : usedBlocks inode.iSize ≤ usedBlocks (inode.iSize + count) :=
    Nat.succ_le_succ (Nat.div_le_div_right (Nat.le_add_right _ _))
  obtain ⟨g, hcollect, fails⟩ := @collectForWrite_fails sb p inode _ _ (Nat.succ_pos _) hle few
  unfold usedBlocks at hcollect
  unfold writeGrown
  rw [hsum]
  dsimp only
  rw [hcollect]
  exact ⟨_, rfl, rfl, rfl, fails⟩

/-- A write fails that needs more blocks than there are. -/
theorem fileWrite_fails {fdPos count : Nat} {src : Buf}
    (limit : inode.iSize + count ≤ 140 * sectorSize)
    (few : freeCount p < neededBlocks inode count) :
    ∃ r, fileWrite true true p inode fdPos src count = .ok r ∧ r.ret = none ∧ r.unfreed = [] ∧
      Fails p inode r.part r.inode := by
  have hlimit : ¬ u32 (inode.iSize + count) > 140 * sectorSize := by
    rw [← Int.natCast_add, u32_of_lt (by unfold sectorSize at limit; omega)]
    omega
  unfold neededBlocks at few
  unfold fileWrite
  rw [if_neg hlimit, if_neg Bool.noConfusion, if_neg Bool.noConfusion]
  unfold firstBlock
  by_cases hfirst : inode.iSectors 0 = 0
  · rw [if_pos hfirst]
    rw [if_pos hfirst] at few
    by_cases h0 : freeCount p = 0
    · rw [blockBitmapAlloc_none h0]
      exact ⟨_, rfl, rfl, rfl, h0, fun _ => ⟨rfl, rfl⟩⟩
    · obtain ⟨b, p₁, halloc, alloc⟩ := blockBitmapAlloc_some (Nat.pos_of_ne_zero h0)
      have hleft := alloc.freeCount
      rw [halloc, ok_bind]
      obtain ⟨r, hr, hret, hfreed, fails⟩ : ∃ r, writeGrown (blockBitmapSync p₁ (blockBit sb b))
        (inode.setSector 0 b) fdPos src count =
          .ok r ∧ r.ret = none ∧ r.unfreed = [] ∧
          Fails (blockBitmapSync p₁ (blockBit sb b)) (inode.setSector 0 b) r.part r.inode :=
        writeGrown_fails limit (show freeCount (blockBitmapSync p₁ (blockBit sb b)) <
          usedBlocks (inode.iSize + count) -
          usedBlocks inode.iSize + if usedBlocks inode.iSize ≤ 12 ∧
          12 < usedBlocks (inode.iSize + count) then 1 else 0 by omega)
      exact ⟨r, hr, hret, hfreed, fails.full, fun h => absurd h h0⟩
  · rw [if_neg hfirst]
    rw [if_neg hfirst, Nat.zero_add] at few
    exact writeGrown_fails limit few

/-- WHEN A FAILED WRITE CHANGES NOTHING: `sys_malloc` refuses the first buffer, or it answers both
and there is no free block at all. -/
theorem failed_write_changes_nothing (p : Part sb) (inode : Inode) (ioBuf allBlocks : Bool)
    (fdPos count : Nat) (src : Buf) (limit : inode.iSize + count ≤ 140 * sectorSize)
    (few : freeCount p < neededBlocks inode count) :
    ∃ r, fileWrite ioBuf allBlocks p inode fdPos src count = .ok r ∧ r.ret = none ∧
      (ChangesNothing p inode r ↔ ioBuf = false ∨ allBlocks = true ∧ freeCount p = 0) := by
  have hlimit : ¬ u32 (inode.iSize + count) > 140 * sectorSize := by
    rw [← Int.natCast_add, u32_of_lt (by unfold sectorSize at limit; omega)]
    omega
  cases ioBuf with
  | false =>
    unfold fileWrite
    rw [if_neg hlimit, if_pos rfl]
    exact ⟨_, rfl, rfl, iff_of_true ⟨rfl, rfl, rfl, rfl⟩ (.inl rfl)⟩
  | true =>
    cases allBlocks with
    | false =>
      unfold fileWrite
      rw [if_neg hlimit, if_neg Bool.noConfusion, if_pos rfl]
      refine ⟨_, rfl, rfl, ?_⟩
      apply iff_of_false
      · intro same
        cases same.unfreed
      · simp
    | true =>
      obtain ⟨r, hr, hret, hfreed, fails⟩ : ∃ r, fileWrite true true p inode fdPos src count =
        .ok r ∧ r.ret = none ∧
          r.unfreed = [] ∧ Fails p inode r.part r.inode := fileWrite_fails limit few
      refine ⟨r, hr, hret, ?_⟩
      constructor
      · intro same
        have hcount := freeCount_congr same.blockBitmap
        rw [fails.full] at hcount
        exact .inr ⟨rfl, hcount.symm⟩
      · rintro (hno | ⟨-, h0⟩)
        · cases hno
        · obtain ⟨hp, hi⟩ := fails.same h0
          refine ⟨hfreed, hi, ?_, ?_⟩
          · rw [hp]
          · rw [hp]

/-! ### A disk with eight free blocks -/

theorem filled_freeCount : 0 < freeCount filledPart ∧ freeCount filledPart ≤ 8 := by
  constructor
  · apply Finset.card_pos.mpr
    refine ⟨4088, ?_⟩
    unfold freeBits
    rw [Finset.mem_filter, Finset.mem_range]
    exact ⟨by decide, filled_free rfl⟩
  · have hsub : freeBits filledPart ⊆ Finset.Ico 4088 4096 := by
      intro i hi
      obtain ⟨hlt, hfree⟩ := mem_freeBits.mp hi
      rw [Finset.mem_Ico]
      refine ⟨?_, hlt⟩
      by_contra hge
      apply hfree
      refine ⟨Nat.le_add_right _ _, ?_⟩
      have bit : ∀ j < 8, (255#8).getLsbD j = true := by decide
      rw [Nat.add_sub_cancel_left]
      show (((List.replicate 511 255 ++ [0] : List Byte)).getD (i / 8) 0).getLsbD (i % 8) = true
      rw [List.getD_eq_getElem?_getD,
        List.getElem?_append_left (by rw [List.length_replicate]; omega), List.getElem?_replicate,
        if_pos (by omega)]
      exact bit _ (Nat.mod_lt _ (by decide))
    exact Finset.card_le_card hsub

/-- Ten blocks are more than there are. -/
theorem filled_few : freeCount filledPart < neededBlocks (inodeInit 1) 4608 :=
  Nat.lt_of_le_of_lt filled_freeCount.2 (by decide)

/-- The theorem at this disk. -/
theorem failed_write_changes_nothing_filled :
    ∃ r, fileWrite true true filledPart (inodeInit 1) 0 zeros 4608 = .ok r ∧
    r.ret = none ∧ (ChangesNothing filledPart (inodeInit 1) r ↔ true = false ∨ true = true ∧
      freeCount filledPart = 0) :=
  failed_write_changes_nothing filledPart (inodeInit 1) true true 0 4608 zeros
    (by decide) filled_few

/-- WRITING 4608 BYTES to a new file with eight free blocks: the blocks stay taken. -/
theorem failed_write_keeps_blocks :
    ¬ ∀ (p : Part smallDisk) (inode : Inode) (fdPos count : Nat) (src : Buf)
      (r : WriteEnd smallDisk),
    inode.iSize + count ≤ 140 * sectorSize → freeCount p < neededBlocks inode count →
    fileWrite true true p inode fdPos src count = .ok r →
    r.ret = none ∧ ChangesNothing p inode r := by
  intro claim
  obtain ⟨r, hr, -, -, fails⟩ : ∃ r, fileWrite true true filledPart (inodeInit 1) 0 zeros 4608 =
    .ok r ∧ r.ret = none ∧
      r.unfreed = [] ∧ Fails filledPart (inodeInit 1) r.part r.inode :=
        fileWrite_fails (by decide) filled_few
  have same := (claim _ _ _ _ _ r (by decide) filled_few hr).2
  have hcount := freeCount_congr same.blockBitmap
  rw [fails.full] at hcount
  exact absurd hcount (Nat.ne_of_lt filled_freeCount.1)

end SeekingOs.Fs.NoDebug
