import Mathlib.Data.List.GetD
import SeekingOs.Fs.FileWrite

/-!
# `file_read` copies a part of the file

The blocks from `fd_pos` to the end of the read are slots of the inode in all the ways to collect
them, and the loop copies the bytes between. The assertion on the block indices excludes the last
block that `file_write` fills, and a sum that wraps sends the loop behind `all_blocks`.
-/

namespace SeekingOs.Fs

open Lib

variable {sb : SuperBlock} {p : Part sb} {inode : Inode} {allBlocks : Blocks}
  {size fuel start last : Nat}

/-! ## Collecting the blocks -/

theorem readTable_slot {ab : Blocks} {k : Nat} (ht : inode.iSectors 12 ≠ 0) (hk : 12 ≤ k)
    (hk' : k < 140) : readTable p (inode.iSectors 12) ab k = slot p inode k := by
  rw [slot_indirect hk hk', if_neg ht, readTable, if_pos ⟨hk, hk'⟩]

/-- `all_blocks` has the slots of the read. -/
theorem collectForRead_total (table : 12 ≤ last → inode.iSectors 12 ≠ 0) (hlast : last < 139) :
    ∃ allBlocks, collectForRead p inode start last = .ok allBlocks ∧
      ∀ k, start ≤ k → k ≤ last → allBlocks k = slot p inode k := by
  unfold collectForRead
  by_cases heq : last = start
  · rw [if_pos heq]
    by_cases h12 : last < 12
    · rw [if_pos h12]
      refine ⟨_, rfl, ?_⟩
      intro k hk hk'
      obtain rfl : k = last := by omega
      rw [Function.update_self, slot_direct h12]
    · rw [if_neg h12]
      refine ⟨_, rfl, ?_⟩
      intro k hk hk'
      apply readTable_slot (table (by omega)) <;> omega
  rw [if_neg heq]
  by_cases h12 : last < 12
  · rw [if_pos h12]
    refine ⟨_, rfl, ?_⟩
    intro k hk hk'
    rw [slot_direct (by omega)]
    exact if_pos ⟨hk, hk'⟩
  rw [if_neg h12]
  have htable := table (by omega)
  by_cases hstart : start < 12
  · rw [if_pos hstart, assertThat_of htable]
    refine ⟨_, rfl, ?_⟩
    intro k hk hk'
    by_cases hk12 : 12 ≤ k
    · exact readTable_slot htable hk12 (by omega)
    · rw [slot_direct (by omega), readTable, if_neg (by omega)]
      exact if_pos ⟨hk, by omega⟩
  · rw [if_neg hstart, assertThat_of htable]
    refine ⟨_, rfl, ?_⟩
    intro k hk hk'
    apply readTable_slot htable <;> omega

/-! ## The loop that reads -/

/-- What is left to read. -/
def ReadState.left (s : ReadState) (size : Nat) : Nat := size - s.bytesRead

/-- What the loop has done from `s` to `s'` with `n` bytes. -/
structure Copied (p : Part sb) (inode : Inode) (s : ReadState) (n : Nat) (s' : ReadState) :
    Prop where
  bytesRead : s'.bytesRead = s.bytesRead + n
  fdPos : s'.fdPos = s.fdPos + n
  bufDst : s'.bufDst = memcpy s.bufDst s.bytesRead (fun j => byteAt p inode (s.fdPos + j)) n

theorem memcpy_none (dst : Buf) (off : Nat) (src : Buf) : memcpy dst off src 0 = dst := by
  funext a
  unfold memcpy
  rw [if_neg (by omega)]

/-- Two copies one behind the other are one. -/
theorem memcpy_memcpy (dst : Buf) (off : Nat) (src : Buf) (m n : Nat) :
    memcpy (memcpy dst off src m) (off + m) (fun j => src (m + j)) n =
      memcpy dst off src (m + n) := by
  funext a
  unfold memcpy
  by_cases h₂ : off + m ≤ a ∧ a < off + m + n
  · rw [if_pos h₂, if_pos (by omega)]
    exact congrArg src (by omega)
  · rw [if_neg h₂]
    by_cases h₁ : off ≤ a ∧ a < off + m
    · rw [if_pos h₁, if_pos (by omega)]
    · rw [if_neg h₁, if_neg (by omega)]

theorem memcpy_congr {dst src src' : Buf} {off n : Nat} (h : ∀ j < n, src j = src' j) :
    memcpy dst off src n = memcpy dst off src' n := by
  funext a
  unfold memcpy
  split
  next hin => rw [h _ (by omega)]
  next => rfl

theorem Copied.refl (s : ReadState) : Copied p inode s 0 s := ⟨rfl, rfl, (memcpy_none _ _ _).symm⟩

theorem Copied.trans {s s' s'' : ReadState} {m n : Nat} (h : Copied p inode s m s')
    (h' : Copied p inode s' n s'') :
    Copied p inode s (m + n) s'' where
  bytesRead := by rw [h'.bytesRead, h.bytesRead, Nat.add_assoc]
  fdPos := by rw [h'.fdPos, h.fdPos, Nat.add_assoc]
  bufDst := by
    rw [h'.bufDst, h.bufDst, h.bytesRead, h.fdPos, ← memcpy_memcpy]
    simp only [Nat.add_assoc]

/-- One round copies the next turn. -/
theorem readChunk_copies {s : ReadState} (fits : s.fdPos + s.left size < 140 * sectorSize)
    (used : allBlocks (s.fdPos / sectorSize) = slot p inode (s.fdPos / sectorSize)) :
    ∃ s', readChunk p allBlocks size s = .ok s' ∧
      Copied p inode s (turn sectorSize s.fdPos (s.left size)) s' := by
  have hsec : s.fdPos / sectorSize < 140 := by
    unfold sectorSize at fits ⊢
    omega
  have hturn := turn_le sectorSize s.fdPos (s.left size)
  unfold readChunk
  dsimp only
  rw [if_pos hsec]
  refine ⟨_, rfl, rfl, ?_, ?_⟩
  · apply u32_of_lt
    change s.fdPos + turn sectorSize s.fdPos (s.left size) < 2 ^ 32
    unfold sectorSize at fits hturn ⊢
    omega
  · dsimp only
    apply memcpy_congr
    intro j hj
    have hend := mod_add_turn_le sectorSize_pos s.fdPos (s.left size)
    change j < turn sectorSize s.fdPos (s.left size) at hj
    rw [ideRead_apply _ (by unfold sectorSize at hend hj ⊢; omega), used]
    unfold byteAt
    rw [laid_turn sectorSize_pos hj]

/-- THE LOOP THAT READS copies what is left to read. -/
theorem readLoop_copies {s : ReadState} (fits : s.fdPos + s.left size < 140 * sectorSize)
    (used : ∀ k, s.fdPos / sectorSize ≤ k → k ≤ (s.fdPos + s.left size) / sectorSize →
      allBlocks k = slot p inode k) (hfuel : s.left size ≤ fuel) :
    ∃ s', readLoop p allBlocks size fuel s = .ok s' ∧ Copied p inode s (s.left size) s' := by
  induction fuel generalizing s with
  | zero =>
    have hleft : s.left size = 0 := by omega
    rw [hleft]
    exact ⟨s, rfl, .refl s⟩
  | succ fuel ih =>
    unfold readLoop
    by_cases hlt : s.bytesRead < size
    · rw [if_pos hlt]
      obtain ⟨s₁, hchunk, copied⟩ :=
        readChunk_copies fits (used _ (Nat.le_refl _) (Nat.div_le_div_right (by omega)))
      have hpos : 0 < turn sectorSize s.fdPos (s.left size) := by
        apply turn_pos sectorSize_pos
        unfold ReadState.left
        omega
      have hle := turn_le sectorSize s.fdPos (s.left size)
      have hfd := copied.fdPos
      have hleft : s.left size = turn sectorSize s.fdPos (s.left size) + s₁.left size := by
        have := copied.bytesRead
        unfold ReadState.left at hle this ⊢
        omega
      obtain ⟨s', hloop, rest⟩ := ih (s := s₁) (by omega) (fun k hk hk' => by
        apply used k
        · refine Nat.le_trans (Nat.div_le_div_right ?_) hk
          omega
        · refine Nat.le_trans hk' (Nat.div_le_div_right ?_)
          omega) (by omega)
      refine ⟨s', ?_, ?_⟩
      · rw [hchunk]
        exact hloop
      · rw [hleft]
        exact copied.trans rest
    · rw [if_neg hlt]
      have hleft : s.left size = 0 := by
        unfold ReadState.left
        omega
      rw [hleft]
      exact ⟨s, rfl, .refl s⟩

/-- A loop that comes to its end stays below the largest size and adds to the numbers, whatever the
blocks are. -/
theorem readLoop_adds {s s' : ReadState} (hle : s.bytesRead ≤ size)
    (hfuel : size ≤ s.bytesRead + fuel) (hpos : s.fdPos < 2 ^ 32)
    (h : readLoop p allBlocks size fuel s = .ok s') :
    (s.left size = 0 ∨ s.fdPos + s.left size ≤ 140 * sectorSize) ∧ s'.bytesRead = size ∧
      s'.fdPos = u32 (s.fdPos + s.left size) := by
  induction fuel generalizing s with
  | zero =>
    cases h
    unfold ReadState.left u32
    omega
  | succ fuel ih =>
    unfold readLoop at h
    by_cases hlt : s.bytesRead < size
    · rw [if_pos hlt] at h
      obtain ⟨s₁, hchunk, h⟩ := bind_eq_ok.mp h
      have hnext : s.fdPos / sectorSize < 140 ∧
          s₁.bytesRead = s.bytesRead + turn sectorSize s.fdPos (s.left size) ∧
          s₁.fdPos = u32 (s.fdPos + turn sectorSize s.fdPos (s.left size)) := by
        unfold readChunk at hchunk
        dsimp only at hchunk
        split at hchunk
        next hsec =>
          cases hchunk
          exact ⟨hsec, rfl, rfl⟩
        next => cases hchunk
      have hturn := turn_le sectorSize s.fdPos (s.left size)
      have hone : 0 < turn sectorSize s.fdPos (s.left size) := by
        apply turn_pos sectorSize_pos
        unfold ReadState.left
        omega
      have hpiece : s.fdPos % sectorSize + turn sectorSize s.fdPos (s.left size) ≤ sectorSize :=
        mod_add_turn_le sectorSize_pos _ _
      revert hnext hturn hone hpiece
      generalize turn sectorSize s.fdPos (s.left size) = n
      intro hnext hturn hone hpiece
      obtain ⟨hsec, hbytes, hpos₁⟩ := hnext
      unfold ReadState.left at hturn ih ⊢
      obtain ⟨e₁, e₂, e₃⟩ := ih (by omega) (by omega) (hpos₁ ▸ u32_lt _) h
      unfold sectorSize at hsec hpiece e₁ ⊢
      refine ⟨?_, e₂, ?_⟩
      · unfold u32 at hpos₁
        omega
      · rw [e₃, hpos₁]
        unfold u32
        omega
    · rw [if_neg hlt] at h
      cases h
      unfold ReadState.left u32
      omega

/-! ## `file_read` as a whole -/

variable {heap : Bool} {fdPos count : Nat} {buf : Buf}

/-- How many bytes there are to read. -/
def readable (inode : Inode) (fdPos count : Nat) : Nat := min (fdPos + count) inode.iSize - fdPos

/-- The read is at the end of the file. -/
def AtEnd (inode : Inode) (fdPos count : Nat) : Prop := 0 < count ∧ fdPos = inode.iSize

/-- The read gives the bytes of the file from `fd_pos` on, as far as they go; at the end of the file
it gives −1. -/
structure Reads (p : Part sb) (inode : Inode) (fdPos count : Nat) (buf : Buf) (r : ReadResult) :
    Prop where
  ret : r.ret = if 0 < count ∧ fdPos = inode.iSize then none else some (readable inode fdPos count)
  offset : r.fdPos = fdPos + readable inode fdPos count
  bytes : r.buf = memcpy buf 0 (fun j => (contents p inode).getD (fdPos + j) 0)
    (readable inode fdPos count)

/-- A read of no more than there is. -/
theorem readSized_total (table : 12 ≤ inode.iSize / sectorSize → inode.iSectors 12 ≠ 0)
    (hend : fdPos + size ≤ inode.iSize) (fits : fdPos + size < 139 * sectorSize) :
    ∃ r, readSized true p inode fdPos buf size = .ok r ∧ r.ret = some size ∧
      r.fdPos = fdPos + size ∧
      r.buf = memcpy buf 0 (fun j => (contents p inode).getD (fdPos + j) 0) size := by
  have hsum : u32 (fdPos + size : Nat) = fdPos + size := by
    apply u32_of_lt
    unfold sectorSize at fits
    omega
  rw [Int.natCast_add] at hsum
  have hlast : (fdPos + size) / sectorSize < 139 := by
    unfold sectorSize at fits ⊢
    omega
  have hstart : fdPos / sectorSize < 139 :=
    Nat.lt_of_le_of_lt (Nat.div_le_div_right (Nat.le_add_right _ _)) hlast
  obtain ⟨ab, hcollect, hab⟩ :=
    @collectForRead_total sb p inode (fdPos / sectorSize) ((fdPos + size) / sectorSize)
    (fun h => table (Nat.le_trans h (Nat.div_le_div_right hend))) hlast
  obtain ⟨s, hloop, copied⟩ := @readLoop_copies sb p inode ab size size ⟨fdPos, 0, buf⟩
    (by unfold ReadState.left; dsimp only; unfold sectorSize at fits ⊢; omega) hab (Nat.sub_le _ _)
  have hread : s.bytesRead = size := by
    rw [copied.bytesRead]
    unfold ReadState.left
    dsimp only
    omega
  unfold readSized
  rw [if_neg (by decide), hsum]
  dsimp only
  rw [assertThat_of ⟨hstart, hlast⟩, ok_bind, hcollect, ok_bind, hloop, ok_bind,
    assertThat_of (by omega), ok_bind]
  refine ⟨_, rfl, congrArg some hread, copied.fdPos, ?_⟩
  dsimp only
  rw [copied.bufDst]
  apply memcpy_congr
  intro j hj
  unfold ReadState.left at hj
  dsimp only at hj ⊢
  have hlt : fdPos + j < (contents p inode).length := by
    rw [length_contents]
    omega
  rw [List.getD_eq_getElem _ _ hlt, getElem_contents]

/-- When the read gives what it should: at the end of the file, or with memory and up to a byte that
is not in the last of the blocks that `file_write` fills; and the sum does not wrap. -/
def ReadsWell (heap : Bool) (inode : Inode) (fdPos count : Nat) : Prop :=
  AtEnd inode fdPos count ∧ (heap = false ∨ fdPos + count < 2 ^ 32) ∨
    heap = true ∧ fdPos + count < 2 ^ 32 ∧ min (fdPos + count) inode.iSize < 139 * sectorSize

/-- At the end of the file `file_read` answers −1 early, or for want of memory. -/
theorem fileRead_atEnd (hsize : inode.iSize < 2 ^ 32) (atEnd : AtEnd inode fdPos count)
    (h : heap = false ∨ fdPos + count < 2 ^ 32) :
    fileRead heap p inode fdPos buf count = .ok ⟨fdPos, buf, none⟩ := by
  obtain ⟨hcount, rfl⟩ := atEnd
  have hrest : u32 (inode.iSize - inode.iSize : Int) = 0 := by
    unfold u32
    omega
  unfold fileRead
  rw [hrest]
  rcases h with rfl | hwrap
  · by_cases hmore : u32 (inode.iSize + count) > inode.iSize
    · rw [if_pos hmore]
      rfl
    · rw [if_neg hmore]
      rfl
  · have hmore : u32 (inode.iSize + count) > inode.iSize := by
      unfold u32
      omega
    rw [if_pos hmore]
    rfl

theorem fileRead_total (table : 12 ≤ inode.iSize / sectorSize → inode.iSectors 12 ≠ 0)
    (hpos : fdPos ≤ inode.iSize) (hsize : inode.iSize < 2 ^ 32)
    (well : ReadsWell heap inode fdPos count) :
    ∃ r, fileRead heap p inode fdPos buf count = .ok r ∧ Reads p inode fdPos count buf r := by
  by_cases atEnd : AtEnd inode fdPos count
  · obtain ⟨hcount, heq⟩ := atEnd
    have hread : readable inode fdPos count = 0 := by
      unfold readable
      omega
    refine ⟨_, fileRead_atEnd hsize ⟨hcount, heq⟩ (well.elim (·.2) fun h => .inr h.2.1), ?_, ?_, ?_⟩
    · rw [if_pos ⟨hcount, heq⟩]
    · rw [hread]
      rfl
    · rw [hread, memcpy_none]
  obtain ⟨rfl, hwrap, fits⟩ := well.resolve_left fun h => atEnd h.1
  have hret (n : Option Nat) : (if 0 < count ∧ fdPos = inode.iSize then none else n) = n :=
    if_neg atEnd
  unfold AtEnd at atEnd
  have hsum : u32 (fdPos + count : Nat) = fdPos + count := u32_of_lt hwrap
  rw [Int.natCast_add] at hsum
  have hrest : u32 (inode.iSize - fdPos : Int) = inode.iSize - fdPos := by
    unfold u32
    omega
  have hsize : fileRead true p inode fdPos buf count =
      readSized true p inode fdPos buf (readable inode fdPos count) := by
    unfold fileRead readable
    rw [hsum, hrest]
    by_cases hmore : fdPos + count > inode.iSize
    · rw [if_pos hmore]
      dsimp only
      rw [if_neg (by omega), Nat.min_eq_right (by omega)]
    · rw [if_neg hmore, Nat.min_eq_left (by omega), Nat.add_sub_cancel_left]
  obtain ⟨r, hr, hans, hfd, hbuf⟩ :=
    @readSized_total sb p inode (readable inode fdPos count) fdPos buf table
    (by unfold readable; omega) (by unfold readable; unfold sectorSize at fits ⊢; omega)
  refine ⟨r, hsize.trans hr, ?_, hfd, hbuf⟩
  rw [hret]
  exact hans

/-! ## What every answer of `file_read` says -/

/-- AN ANSWER OF `file_read`, for any inode. -/
inductive ReadAnswer (heap : Bool) (inode : Inode) (fdPos count : Nat) (buf : Buf) :
    ReadResult → Prop
  | failed : heap = false ∨ AtEnd inode fdPos count ∧ fdPos + count < 2 ^ 32 →
      ReadAnswer heap inode fdPos count buf ⟨fdPos, buf, none⟩
  | read {r : ReadResult} : heap = true → fdPos + count < 2 ^ 32 →
      min (fdPos + count) inode.iSize < 139 * sectorSize →
      r.ret = some (readable inode fdPos count) → r.fdPos = fdPos + readable inode fdPos count →
      ReadAnswer heap inode fdPos count buf r

/-- The loop of a read comes to its end only when the sum does not wrap. -/
theorem readSized_inv (hpos : fdPos < 2 ^ 32) {r : ReadResult}
    (h : readSized true p inode fdPos buf size = .ok r) :
    fdPos + size < 139 * sectorSize ∧ r.ret = some size ∧ r.fdPos = fdPos + size := by
  unfold readSized at h
  rw [if_neg (by decide)] at h
  obtain ⟨_, hidx, h⟩ := bind_eq_ok.mp h
  obtain ⟨ab, _, h⟩ := bind_eq_ok.mp h
  obtain ⟨s, hloop, h⟩ := bind_eq_ok.mp h
  obtain ⟨_, _, h⟩ := bind_eq_ok.mp h
  cases h
  have hidx := assertThat_ok hidx
  obtain ⟨hbound, hread, hfd⟩ := readLoop_adds (Nat.zero_le _) (by omega) hpos hloop
  unfold ReadState.left at hbound hfd
  unfold sectorSize u32 at hidx
  unfold sectorSize at hbound ⊢
  dsimp only at hidx hbound hfd ⊢
  have hfit : fdPos + size < 139 * 512 := by omega
  refine ⟨hfit, congrArg some hread, ?_⟩
  rw [hfd]
  unfold u32
  omega

theorem fileRead_answer (hpos : fdPos ≤ inode.iSize) (hsize : inode.iSize < 2 ^ 32)
    (hcount : count < 2 ^ 32) {r : ReadResult} (h : fileRead heap p inode fdPos buf count = .ok r) :
    ReadAnswer heap inode fdPos count buf r := by
  have hrest : u32 (inode.iSize - fdPos : Int) = inode.iSize - fdPos := by
    unfold u32
    omega
  cases heap with
  | false =>
    have hr : r = ⟨fdPos, buf, none⟩ := by
      unfold fileRead readSized at h
      rw [if_pos rfl] at h
      split at h
      · dsimp only at h
        split at h
        · cases h
          rfl
        · cases h
          rfl
      · cases h
        rfl
    rw [hr]
    exact .failed (.inl rfl)
  | true =>
    unfold fileRead at h
    rw [hrest] at h
    by_cases hmore : u32 (fdPos + count) > inode.iSize
    · rw [if_pos hmore] at h
      dsimp only at h
      have hwrap : fdPos + count < 2 ^ 32 := by
        unfold u32 at hmore
        omega
      have hbig : fdPos + count > inode.iSize := by
        unfold u32 at hmore
        omega
      by_cases hzero : inode.iSize - fdPos = 0
      · rw [if_pos hzero] at h
        cases h
        exact .failed (.inr ⟨⟨by omega, by omega⟩, hwrap⟩)
      · rw [if_neg hzero] at h
        obtain ⟨hfit, hret, hfd⟩ := readSized_inv (by omega) h
        have hread : readable inode fdPos count = inode.iSize - fdPos := by
          unfold readable
          omega
        refine .read rfl hwrap (by omega) ?_ ?_
        · rw [hread, hret]
        · rw [hread, hfd]
    · rw [if_neg hmore] at h
      obtain ⟨hfit, hret, hfd⟩ := readSized_inv (by omega) h
      have hle : fdPos + count ≤ inode.iSize := by
        unfold sectorSize at hfit
        unfold u32 at hmore
        omega
      have hread : readable inode fdPos count = count := by
        unfold readable
        omega
      refine .read rfl (by unfold sectorSize at hfit; omega) (by omega) ?_ ?_
      · rw [hread, hret]
      · rw [hread, hfd]

/-- The read gives what it should exactly when the condition is met. -/
theorem fileRead_iff (table : 12 ≤ inode.iSize / sectorSize → inode.iSectors 12 ≠ 0)
    (hpos : fdPos ≤ inode.iSize) (hsize : inode.iSize < 2 ^ 32) (hcount : count < 2 ^ 32) :
    (∃ r, fileRead heap p inode fdPos buf count = .ok r ∧ Reads p inode fdPos count buf r) ↔
      ReadsWell heap inode fdPos count := by
  refine ⟨?_, fileRead_total table hpos hsize⟩
  rintro ⟨r, hr, reads⟩
  have hans := fileRead_answer hpos hsize hcount hr
  have hret := reads.ret
  cases hans with
  | failed h =>
    by_cases atEnd : AtEnd inode fdPos count
    · exact .inl ⟨atEnd, h.imp_right (·.2)⟩
    · unfold AtEnd at atEnd
      rw [if_neg atEnd] at hret
      cases hret
  | read hheap hwrap fits _ _ => exact .inr ⟨hheap, hwrap, fits⟩

end SeekingOs.Fs
