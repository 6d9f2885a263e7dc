import SeekingOs.Fs.Effect
import SeekingOs.Lib.Pieces

/-!
# The bytes of a file

A file is an array of bytes kept in sectors: byte `i` is in the block of slot `i / 512`. The loop of
`file_write` appends to this array and the loop of `file_read` copies a part of it, whichever way
`all_blocks` was collected.
-/

namespace SeekingOs.Fs

open Lib

variable {sb : SuperBlock} {p : Part sb} {inode : Inode} {allBlocks : Blocks} {src : Buf}
  {count fuel : Nat}

/-- Byte `i` of a file. -/
def byteAt (p : Part sb) (inode : Inode) (i : Nat) : Byte :=
  p.disk (laid sectorSize (slot p inode) i)

/-- What a file contains. -/
def contents (p : Part sb) (inode : Inode) : List Byte :=
  (List.range inode.iSize).map (byteAt p inode)

theorem sectorSize_pos : 0 < sectorSize := by decide

@[simp] theorem length_contents : (contents p inode).length = inode.iSize := by simp [contents]

theorem getElem_contents {i : Nat} (hi : i < (contents p inode).length) :
    (contents p inode)[i] = byteAt p inode i := by
  simp [contents]

/-! ## The loop that writes -/

/-- What is left to write. -/
def WriteState.left (s : WriteState sb) (count : Nat) : Nat := count - s.bytesWritten

/-- The loop can go on from here: `all_blocks` has the blocks for what is left to write, and a
sector that is not read first is new. -/
structure CanWrite (inode : Inode) (allBlocks : Blocks) (count : Nat) (s : WriteState sb) :
    Prop where
  books : InOrder s.part inode
  blocks : ∀ k < 140, allBlocks k = slot s.part inode k ∨ allBlocks k = 0
  used : ∀ k, s.iSize / sectorSize ≤ k → k ≤ (s.iSize + s.left count) / sectorSize →
    allBlocks k = slot s.part inode k ∧ slot s.part inode k ≠ 0
  fits : s.iSize + s.left count < 140 * sectorSize
  fdPos : s.fdPos < 2 ^ 32
  whole : s.firstWriteBlock = true ∨ s.left count = 0 ∨ s.iSize % sectorSize = 0

/-- What the loop has done from `s` to `s'` with `n` bytes. -/
structure Appended (inode : Inode) (src : Buf) (s : WriteState sb) (n : Nat) (s' : WriteState sb) :
    Prop where
  bytesWritten : s'.bytesWritten = s.bytesWritten + n
  iSize : s'.iSize = s.iSize + n
  fdPos : s'.fdPos = u32 (s.fdPos + n)
  slots : slot s'.part inode = slot s.part inode
  bytes : ∀ i < s.iSize + n, byteAt s'.part inode i =
    if i < s.iSize then byteAt s.part inode i else src (s.bytesWritten + (i - s.iSize))

theorem Appended.refl {s : WriteState sb} (h : s.fdPos < 2 ^ 32) : Appended inode src s 0 s where
  bytesWritten := rfl
  iSize := rfl
  fdPos := by
    unfold u32
    omega
  slots := rfl
  bytes i hi := (if_pos hi).symm

theorem Appended.trans {s s' s'' : WriteState sb} {m n : Nat} (h : Appended inode src s m s')
    (h' : Appended inode src s' n s'') : Appended inode src s (m + n) s'' where
  bytesWritten := by rw [h'.bytesWritten, h.bytesWritten, Nat.add_assoc]
  iSize := by rw [h'.iSize, h.iSize, Nat.add_assoc]
  fdPos := by
    rw [h'.fdPos, h.fdPos]
    unfold u32
    omega
  slots := h'.slots.trans h.slots
  bytes i hi := by
    have hsize := h.iSize
    have hbytes := h.bytesWritten
    rw [h'.bytes i (by omega)]
    by_cases hm : i < s'.iSize
    · rw [if_pos hm]
      apply h.bytes
      omega
    · rw [if_neg hm, if_neg (by omega)]
      congr 1
      omega

/-- One round appends the next turn. -/
theorem writeChunk_appends {s : WriteState sb} (src : Buf) (can : CanWrite inode allBlocks count s)
    (hlt : s.bytesWritten < count) :
    ∃ s', writeChunk allBlocks src count s = .ok s' ∧ s'.firstWriteBlock = false ∧
      Appended inode src s (turn sectorSize s.iSize (s.left count)) s' := by
  have hsec : s.iSize / sectorSize < 140 := by
    have := can.fits
    unfold sectorSize at this ⊢
    omega
  have hleft : 0 < s.left count := by
    unfold WriteState.left
    omega
  have hfit := can.fits
  have hturn := turn_le sectorSize s.iSize (s.left count)
  obtain ⟨hblock, hne⟩ :=
    can.used (s.iSize / sectorSize) (Nat.le_refl _) (Nat.div_le_div_right (by omega))
  unfold writeChunk
  dsimp only
  rw [if_pos hsec]
  refine ⟨_, rfl, rfl, rfl, ?_, rfl, ?_, ?_⟩
  · apply u32_of_lt
    change s.iSize + turn sectorSize s.iSize (s.left count) < 2 ^ 32
    unfold sectorSize at hfit hturn ⊢
    omega
  · exact can.books.slot_write _ (.inr ⟨_, hsec, hblock.symm⟩)
  · intro i hi
    unfold byteAt
    rw [can.books.slot_write _ (.inr ⟨_, hsec, hblock.symm⟩)]
    have hin (o : Nat) (ho : o < sectorSize) : _ :=
      @ideWrite_disk sb s.part (allBlocks (s.iSize / sectorSize))
      (memcpy (if s.firstWriteBlock then ideRead s.part (allBlocks (s.iSize / sectorSize)) zeros 1
        else zeros)
        (s.iSize % sectorSize) (fun k => src (s.bytesWritten + k))
          (turn sectorSize s.iSize (s.left count))) o ho
    have hend := mod_add_turn_le sectorSize_pos s.iSize (s.left count)
    refine @laid_overwrite sectorSize (slot s.part inode) Byte s.part.disk _
      (fun k => src (s.bytesWritten + k)) s.iSize
      (s.left count) sectorSize_pos ?_ ?_ ?_ i hi ?_
    · intro a ha
      refine (wrote_ideWrite s.part _ _ 1).same a fun hmem => ha ?_
      rw [mem_one hmem, hblock]
    · intro o ho
      have hmod := Nat.mod_lt s.iSize sectorSize_pos
      rw [← hblock]
      refine (hin o (by omega)).trans ?_
      unfold memcpy
      rw [if_neg (by omega)]
      -- bytes before the new ones are there in the first round only
      rcases can.whole with h | h | h
      · rw [h]
        exact ideRead_apply _ (by unfold sectorSize at hmod ho; omega)
      · omega
      · omega
    · intro j hj
      rw [← hblock]
      refine (hin _ (by omega)).trans ?_
      unfold memcpy
      rw [if_pos (by omega), Nat.add_sub_cancel_left]
    · intro h
      exact can.books.inj _ _ (h ▸ hne) h

theorem CanWrite.next {s s' : WriteState sb} (can : CanWrite inode allBlocks count s)
    (h : writeChunk allBlocks src count s = .ok s')
    (app : Appended inode src s (turn sectorSize s.iSize (s.left count)) s') :
    CanWrite inode allBlocks count s' := by
  obtain ⟨hsec, -, -, buf, hpart⟩ := writeChunk_ok h
  have hturn := turn_le sectorSize s.iSize (s.left count)
  have hsize := app.iSize
  have hleft : s'.left count = s.left count - turn sectorSize s.iSize (s.left count) := by
    unfold WriteState.left
    rw [app.bytesWritten, Nat.sub_add_eq]
    rfl
  have hend : s'.iSize + s'.left count = s.iSize + s.left count := by omega
  have books : InOrder s'.part inode := by
    have hmem := can.blocks _ hsec
    rw [hpart]
    exact (can.books.effect_write buf (hmem.symm.imp_right fun hb => ⟨_, hsec, hb.symm⟩)).books
  refine ⟨books, ?_, ?_, ?_, ?_, ?_⟩
  · rw [app.slots]
    exact can.blocks
  · intro k hk hk'
    rw [app.slots]
    rw [hend] at hk'
    apply can.used k ?_ hk'
    refine Nat.le_trans (Nat.div_le_div_right ?_) hk
    omega
  · rw [hend]
    exact can.fits
  · rw [app.fdPos]
    exact u32_lt _
  · by_cases hlast : s'.left count = 0
    · exact .inr (.inl hlast)
    · refine .inr (.inr ?_)
      rw [app.iSize]
      apply turn_full sectorSize_pos
      omega

/-- THE LOOP THAT WRITES appends what is left to write. -/
theorem writeLoop_appends {s : WriteState sb} (src : Buf) (can : CanWrite inode allBlocks count s)
    (hfuel : s.left count ≤ fuel) :
    ∃ s', writeLoop allBlocks src count fuel s = .ok s' ∧
      Appended inode src s (s.left count) s' := by
  induction fuel generalizing s with
  | zero =>
    have hleft : s.left count = 0 := by omega
    rw [hleft]
    exact ⟨s, rfl, .refl can.fdPos⟩
  | succ fuel ih =>
    unfold writeLoop
    by_cases hlt : s.bytesWritten < count
    · rw [if_pos hlt]
      obtain ⟨s₁, hchunk, -, app⟩ := writeChunk_appends src can hlt
      have hpos : 0 < turn sectorSize s.iSize (s.left count) := by
        apply turn_pos sectorSize_pos
        unfold WriteState.left
        omega
      have hle := turn_le sectorSize s.iSize (s.left count)
      have hleft : s.left count = turn sectorSize s.iSize (s.left count) + s₁.left count := by
        have := app.bytesWritten
        unfold WriteState.left at hle this ⊢
        omega
      obtain ⟨s', hloop, rest⟩ := ih (can.next hchunk app) (by omega)
      refine ⟨s', ?_, ?_⟩
      · rw [hchunk]
        exact hloop
      · rw [hleft]
        exact app.trans rest
    · rw [if_neg hlt]
      have hleft : s.left count = 0 := by
        unfold WriteState.left
        omega
      rw [hleft]
      exact ⟨s, rfl, .refl can.fdPos⟩

end SeekingOs.Fs
