import SeekingOs.Fs.Growth
import SeekingOs.Fs.Dir

/-!
# What an operation does to the blocks of an inode and to the disk

An operation on one inode has an `Effect`: it regrants the slots of that inode, and apart from
the sectors of the bitmaps and of the inode table it writes only blocks that the inode held or that
were free. Effects compose; the lemmas below give those of the steps that the operations are made
of.
-/

namespace SeekingOs.Fs

open Lib

variable {sb : SuperBlock}

/-- A block of the data area that is the inode's own or free. -/
def Own (p : Part sb) (inode : Inode) (lba : Nat) : Prop :=
  sb.dataStartLba ≤ lba ∧ (Holds (slot p inode) lba ∨ ¬ Taken p lba)

/-- The sectors that an operation on inode `n` may write, and the inodes that it leaves alone. -/
structure Touches (p : Part sb) (n : Nat) (own : Nat → Prop) (p' : Part sb) : Prop where
  written : ∃ W, Wrote p W p' ∧ ∀ lba ∈ W, BitmapSector sb lba ∨ TableSector sb lba ∨
    lba = 0 ∨ own lba
  inodes : ∀ m < 4096, m ≠ n → diskInode p' m = diskInode p m

/-- What an operation on an inode does. -/
structure Effect (p : Part sb) (inode : Inode) (p' : Part sb) (inode' : Inode) : Prop where
  regrants : Regrants (Taken p) (slot p inode) (Taken p') (slot p' inode')
  touches : Touches p inode.iNo (Own p inode) p'
  iNo : inode'.iNo = inode.iNo
  iSize : inode.iSize < 2 ^ 32 → inode'.iSize < 2 ^ 32
  inodeBitmap : p'.inodeBitmap = p.inodeBitmap

/-- The blocks of an inode are apart and taken. -/
abbrev InOrder (p : Part sb) (inode : Inode) : Prop := Books (Taken p) (slot p inode)

variable {p p' p'' : Part sb} {inode inode' inode'' : Inode} {n : Nat} {own own' : Nat → Prop}

theorem Touches.refl (p : Part sb) (n : Nat) (own : Nat → Prop) : Touches p n own p :=
  ⟨⟨[], .refl p, fun _ h => absurd h List.not_mem_nil⟩, fun _ _ _ => rfl⟩

theorem Touches.trans {F : Nat → Prop} (h : Touches p n own p') (h' : Touches p' n F p'')
    (imp : ∀ b, F b → own b) : Touches p n own p'' := by
  obtain ⟨W, hw, hm⟩ := h.written
  obtain ⟨W', hw', hm'⟩ := h'.written
  refine ⟨⟨W ++ W', hw.trans hw', fun lba hl => ?_⟩, fun m hm hne =>
    (h'.inodes m hm hne).trans (h.inodes m hm hne)⟩
  rcases List.mem_append.mp hl with hl | hl
  · exact hm lba hl
  · rcases hm' lba hl with h | h | h | h
    · exact .inl h
    · exact .inr (.inl h)
    · exact .inr (.inr (.inl h))
    · exact .inr (.inr (.inr (imp lba h)))

/-- Sectors of the bitmaps, blocks of one's own. -/
theorem touches_of_wrote {W : List Nat} (hw : Wrote p W p')
    (hW : ∀ lba ∈ W, BitmapSector sb lba ∨ lba = 0 ∨ own lba)
    (hown : ∀ lba, own lba → sb.dataStartLba ≤ lba) : Touches p n own p' := by
  refine ⟨⟨W, hw, fun lba hl => ?_⟩, fun m hm _ => hw.diskInode (fun lba hl => ?_) hm⟩
  · rcases hW lba hl with h | h | h
    · exact .inl h
    · exact .inr (.inr (.inl h))
    · exact .inr (.inr (.inr h))
  · rcases hW lba hl with h | h | h
    · exact h.not_table
    · exact h ▸ not_table_zero
    · exact not_table_of_le (hown lba h)

theorem touches_of_synced (h : Synced p p') (hown : ∀ lba, own lba → sb.dataStartLba ≤ lba) :
    Touches p n own p' := by
  obtain ⟨W, hw, hm⟩ := h
  exact touches_of_wrote hw (fun lba hl => .inl (hm lba hl)) hown

theorem touches_of_replaced {bytes : Buf} (h : Replaced p n bytes p') : Touches p n own p' := by
  obtain ⟨W, hw, hm⟩ := h.wrote
  exact ⟨⟨W, hw, fun lba hl => .inr (.inl (hm lba hl))⟩, fun m _ hne => h.diskInode_other hne⟩

theorem Own.start {lba : Nat} (h : Own p inode lba) : sb.dataStartLba ≤ lba := h.1

theorem Effect.books (h : Effect p inode p' inode') : InOrder p' inode' := h.regrants.books

theorem Effect.trans (h : Effect p inode p' inode') (h' : Effect p' inode' p'' inode'') :
    Effect p inode p'' inode'' where
  regrants := h.regrants.trans h'.regrants
  touches := by
    refine h.touches.trans (F := Own p' inode') ?_ fun b hb => ⟨hb.1, h.regrants.own_or_free hb.2⟩
    rw [← h.iNo]
    exact h'.touches
  iNo := h'.iNo.trans h.iNo
  iSize h₀ := h'.iSize (h.iSize h₀)
  inodeBitmap := h'.inodeBitmap.trans h.inodeBitmap

/-! ## Slots of changed inodes -/

theorem slot_congr (h : ∀ k < 13, inode'.iSectors k = inode.iSectors k) (k : Nat) :
    slot p inode' k = slot p inode k := by
  by_cases h1 : k < 12
  · rw [slot_direct h1, slot_direct h1, h k (by omega)]
  by_cases h2 : k < 140
  · rw [slot_indirect (by omega) h2, slot_indirect (by omega) h2, h 12 (by decide)]
  by_cases h3 : k = 140
  · rw [h3, slot_table, slot_table, h 12 (by decide)]
  · rw [slot_beyond (by omega), slot_beyond (by omega)]

theorem InOrder.table (books : InOrder p inode) :
    inode.iSectors 12 = 0 ∨ Taken p (inode.iSectors 12) := by
  by_cases h : inode.iSectors 12 = 0
  · exact .inl h
  · have := books.taken 140
    rw [slot_table] at this
    exact .inr (this h)

theorem InOrder.table_start (books : InOrder p inode) :
    inode.iSectors 12 = 0 ∨ sb.dataStartLba ≤ inode.iSectors 12 :=
  books.table.imp_right fun h => h.1

theorem InOrder.sector_lt (books : InOrder p inode) {k : Nat} (hk : k < 13) :
    inode.iSectors k < 2 ^ 32 := by
  have fits {j : Nat} (h : slot p inode j = inode.iSectors k) : inode.iSectors k < 2 ^ 32 := by
    by_cases h0 : inode.iSectors k = 0
    · omega
    · rw [← h]
      exact (books.taken j (h ▸ h0)).lt_u32
  by_cases h12 : k < 12
  · exact fits (slot_direct h12)
  · rw [show k = 12 by omega] at fits ⊢
    exact fits slot_table

/-- The slots of an inode after only sectors of the bitmaps were written. -/
theorem InOrder.slot_synced (books : InOrder p inode) (h : Synced p p') (k : Nat) :
    slot p' inode k = slot p inode k := by
  obtain ⟨W, hw, hm⟩ := h
  refine hw.slot ?_ k
  rcases books.table_start with h0 | h0
  · exact .inr h0
  · refine .inl fun hmem => ?_
    have := (hm _ hmem).lt
    omega

theorem slot_setDirect {k : Nat} {v : Nat} (hk : k < 12) :
    slot p (inode.setSector k v) = Function.update (slot p inode) k v := by
  ext j
  by_cases hjk : j = k
  · subst hjk
    rw [Function.update_self, slot_direct hk, setSector_same]
  rw [Function.update_of_ne hjk]
  by_cases h1 : j < 12
  · rw [slot_direct h1, slot_direct h1, setSector_other _ _ hjk]
  by_cases h2 : j < 140
  · rw [slot_indirect (by omega) h2, slot_indirect (by omega) h2, setSector_other _ _ (by omega)]
  by_cases h3 : j = 140
  · rw [h3, slot_table, slot_table, setSector_other _ _ (by omega)]
  · rw [slot_beyond (by omega), slot_beyond (by omega)]

/-! ## The steps -/

/-- Fields other than the blocks change. -/
theorem InOrder.effect_fields (books : InOrder p inode)
    (h : ∀ k < 13, inode'.iSectors k = inode.iSectors k) (hno : inode'.iNo = inode.iNo)
    (hsize : inode.iSize < 2 ^ 32 → inode'.iSize < 2 ^ 32) : Effect p inode p inode' where
  regrants := by
    rw [show slot p inode' = slot p inode from funext (slot_congr h)]
    exact books.regrants
  touches := .refl _ _ _
  iNo := hno
  iSize := hsize
  inodeBitmap := rfl

theorem InOrder.effect_refl (books : InOrder p inode) : Effect p inode p inode :=
  books.effect_fields (fun _ _ => rfl) rfl id

/-- A free block becomes a direct block. -/
theorem InOrder.effect_take (books : InOrder p inode) {b k : Nat} (hk : k < 12)
    (h : Allocated p b p') :
    Effect p inode p' (inode.setSector k b) where
  regrants := by
    rw [slot_setDirect hk, show slot p' inode = slot p inode from
      funext (books.slot_synced h.wrote)]
    exact books.take h.ne_zero h.free h.taken
  touches := touches_of_synced h.wrote fun _ h => h.start
  iNo := rfl
  iSize := id
  inodeBitmap := h.inodeBitmap

theorem mem_one {l lba : Nat} (hl : l ∈ List.range' lba 1) : l = lba := by
  rw [List.mem_range'_1] at hl
  omega

/-- A write to a block other than the table leaves the slots as they are. -/
theorem InOrder.slot_write (books : InOrder p inode) {lba : Nat} (buf : Buf)
    (h : lba = 0 ∨ ∃ k < 140, slot p inode k = lba) :
    slot (ideWrite p lba buf 1) inode = slot p inode := by
  refine funext ((wrote_ideWrite p lba buf 1).slot ?_)
  by_cases h0 : inode.iSectors 12 = 0
  · exact .inr h0
  · refine .inl fun hmem => ?_
    have heq := mem_one hmem
    rcases h with h | ⟨k, hk, h⟩
    · exact h0 (heq.trans h)
    · have := books.inj 140 k (by rwa [slot_table]) (by rw [slot_table, h, heq])
      omega

/-- A block of the inode other than its table is written, or sector 0. -/
theorem InOrder.effect_write (books : InOrder p inode) {lba : Nat} (buf : Buf)
    (h : lba = 0 ∨ ∃ k < 140, slot p inode k = lba) :
    Effect p inode (ideWrite p lba buf 1) inode := by
  refine ⟨?_, touches_of_wrote (wrote_ideWrite p lba buf 1) (fun l hl => ?_) fun _ h =>
    h.start, rfl, id, rfl⟩
  · rw [books.slot_write buf h]
    exact ⟨fun b hb => .inl hb, fun b hb _ => hb, books.inj, books.taken⟩
  · rw [mem_one hl]
    by_cases h0 : lba = 0
    · exact .inr (.inl h0)
    · obtain ⟨k, _, rfl⟩ := h.resolve_left h0
      exact .inr (.inr ⟨(books.taken k h0).1, .inl ⟨h0, k, rfl⟩⟩)

/-- Sectors of the inode table hold no indirect table. -/
theorem InOrder.slot_replaced (books : InOrder p inode) {n : Nat} {bytes : Buf}
    (h : Replaced p n bytes p') : slot p' inode = slot p inode := by
  obtain ⟨W, hw, hm⟩ := h.wrote
  refine funext (hw.slot ?_)
  refine books.table_start.symm.imp_left fun h0 hmem => ?_
  exact not_table_of_le h0 (hm _ hmem)

/-- The inode is written to the table. -/
theorem InOrder.effect_sync (books : InOrder p inode) {bytes : Buf}
    (h : Replaced p inode.iNo bytes p') :
    Effect p inode p' inode where
  regrants := by
    rw [books.slot_replaced h]
    refine ⟨fun b hb => .inl hb, fun b hb _ => (taken_congr h.blockBitmap b).mpr hb, books.inj,
      fun i hi => ?_⟩
    exact (taken_congr h.blockBitmap _).mpr (books.taken i hi)
  touches := touches_of_replaced h
  iNo := rfl
  iSize := id
  inodeBitmap := h.inodeBitmap

/-! ## `file_write` -/

/-- New blocks fill slots of the inode. -/
theorem InOrder.effect_collected (books : InOrder p inode) {has will : Nat} {new : Nat → Nat}
    {g : Growth sb} (h : Collected p inode has will new g) : Effect p inode g.part g.inode where
  regrants :=
    books.takeMany (fun k hk => ⟨h.acquired.ne_zero hk, (h.acquired.fresh k hk).2⟩) h.acquired.inj
      h.acquired.taken
    h.at_new h.at_old
  touches := by
    obtain ⟨W, hw, hm⟩ := h.wrote
    refine touches_of_wrote hw (fun lba hl => (hm lba hl).imp_right fun htable => .inr ?_)
      fun _ h => h.start
    obtain ⟨heq, hne⟩ := htable
    by_cases hS : growthSlots has will 140
    · rw [heq, h.at_new 140 hS]
      exact ⟨(h.acquired.fresh 140 hS).1, .inr (h.acquired.fresh 140 hS).2⟩
    · rw [heq, h.at_old 140 hS] at hne ⊢
      exact ⟨(books.taken 140 hne).1, .inl ⟨hne, 140, rfl⟩⟩
  iNo := by rw [h.inode]
  iSize := by
    rw [h.inode]
    exact id
  inodeBitmap := h.acquired.inodeBitmap

theorem firstBlock_effect (books : InOrder p inode) {r : Option (Part sb × Inode)}
    (h : firstBlock p inode = .ok r) :
    ∃ p₁ inode₁, r = some (p₁, inode₁) ∧ Effect p inode p₁ inode₁ ∧ inode₁.iSize = inode.iSize := by
  unfold firstBlock at h
  split at h
  · obtain ⟨_, halloc, h⟩ := bind_eq_ok.mp h
    obtain ⟨b, p₁, rfl, taken⟩ := blockBitmapAlloc_ok halloc
    obtain ⟨_, _, h⟩ := bind_eq_ok.mp h
    cases h
    exact ⟨_, _, rfl, books.effect_take (by decide) taken, rfl⟩
  · cases h
    exact ⟨p, inode, rfl, books.effect_refl, rfl⟩

section WriteLoop

variable {allBlocks : Blocks} {src : Buf} {count fuel : Nat} {s s' : WriteState sb}

theorem writeChunk_ok (h : writeChunk allBlocks src count s = .ok s') :
    s.iSize / sectorSize < 140 ∧
      s'.bytesWritten = s.bytesWritten + min (count - s.bytesWritten)
        (sectorSize - s.iSize % sectorSize) ∧
      s'.iSize = u32 (s.iSize + min (count - s.bytesWritten) (sectorSize - s.iSize % sectorSize)) ∧
      ∃ buf, s'.part = ideWrite s.part (allBlocks (s.iSize / sectorSize)) buf 1 := by
  unfold writeChunk at h
  dsimp only at h
  split at h
  next hlt =>
    cases h
    exact ⟨hlt, rfl, rfl, _, rfl⟩
  next => cases h

/-- A loop that came to its end stayed below the largest size. -/
theorem writeLoop_size (hle : s.bytesWritten ≤ count) (hfuel : count ≤ s.bytesWritten + fuel)
    (h : writeLoop allBlocks src count fuel s = .ok s') :
    s.bytesWritten = count ∨ s.iSize + (count - s.bytesWritten) ≤ 140 * sectorSize := by
  induction fuel generalizing s with
  | zero => exact .inl (by omega)
  | succ fuel ih =>
    unfold writeLoop at h
    by_cases hlt : s.bytesWritten < count
    · rw [if_pos hlt] at h
      obtain ⟨s₁, hchunk, h⟩ := bind_eq_ok.mp h
      obtain ⟨hsec, hbytes, hsize, _⟩ := writeChunk_ok hchunk
      have := ih (by omega) (by unfold sectorSize at hbytes; omega) h
      unfold u32 at hsize
      unfold sectorSize at hsec hbytes hsize this ⊢
      omega
    · exact .inl (by omega)

theorem writeLoop_iSize (h : writeLoop allBlocks src count fuel s = .ok s')
    (hs : s.iSize < 2 ^ 32) : s'.iSize < 2 ^ 32 := by
  induction fuel generalizing s with
  | zero =>
    cases h
    exact hs
  | succ fuel ih =>
    unfold writeLoop at h
    split at h
    · obtain ⟨s₁, hchunk, h⟩ := bind_eq_ok.mp h
      refine ih h ?_
      rw [(writeChunk_ok hchunk).2.2.1]
      exact u32_lt _
    · cases h
      exact hs

/-- The loop writes blocks of the inode, and sector 0 where `all_blocks` has none. -/
theorem writeLoop_effect (h : writeLoop allBlocks src count fuel s = .ok s')
    (books : InOrder s.part inode) (hblocks : ∀ k < 140, allBlocks k = slot s.part inode k ∨
      allBlocks k = 0) : Effect s.part inode s'.part inode := by
  induction fuel generalizing s with
  | zero =>
    cases h
    exact books.effect_refl
  | succ fuel ih =>
    unfold writeLoop at h
    split at h
    · obtain ⟨s₁, hchunk, h⟩ := bind_eq_ok.mp h
      obtain ⟨hsec, _, _, buf, hpart⟩ := writeChunk_ok hchunk
      have hmem : allBlocks (s.iSize / sectorSize) = 0 ∨
          ∃ k < 140, slot s.part inode k = allBlocks (s.iSize / sectorSize) :=
        (hblocks _ hsec).symm.imp_right fun hb => ⟨_, hsec, hb.symm⟩
      have hslot := books.slot_write buf hmem
      have hstep := books.effect_write buf hmem
      rw [← hpart] at hslot hstep
      refine hstep.trans (ih h hstep.books fun k hk => ?_)
      rw [hslot]
      exact hblocks k hk
    · cases h
      exact books.effect_refl

end WriteLoop

/-- THE EFFECT OF `file_write`. -/
theorem fileWrite_effect (books : InOrder p inode) (hsize : inode.iSize < 2 ^ 32) {heap : Bool}
    {fdPos count : Nat} {src : Buf} {r : FileResult sb Nat}
    (h : fileWrite heap p inode fdPos src count = .ok r) : Effect p inode r.part r.inode := by
  unfold fileWrite at h
  split at h
  · cases h
    exact books.effect_refl
  split at h
  · cases h
    exact books.effect_refl
  next hbig _ =>
  obtain ⟨_, hfirst, h⟩ := bind_eq_ok.mp h
  obtain ⟨p₁, inode₁, rfl, first, hsize₁⟩ := firstBlock_effect books hfirst
  have books₁ : InOrder p₁ inode₁ := first.books
  refine first.trans ?_
  dsimp only at h
  unfold writeGrown at h
  dsimp only at h
  obtain ⟨_, hwill, h⟩ := bind_eq_ok.mp h
  obtain ⟨⟨b, g⟩, hcollect, h⟩ := bind_eq_ok.mp h
  have hrest := collectForWrite_rest hcollect
  obtain rfl : b = true := hrest.1
  dsimp only at h
  obtain ⟨s, hloop, h⟩ := bind_eq_ok.mp h
  obtain ⟨p₂, hsync, h⟩ := bind_eq_ok.mp h
  cases h
  -- the size did not wrap, for the loop came to its end
  have hfits := writeLoop_size (Nat.zero_le _) (by omega) hloop
  have hwill' := assertThat_ok hwill
  dsimp only at hfits hrest hwill'
  have hle : inode₁.iSize / sectorSize + 1 ≤ u32 (inode₁.iSize + count) / sectorSize + 1 := by
    unfold u32 sectorSize at hbig ⊢
    unfold sectorSize at hfits
    omega
  obtain ⟨_, new, collected⟩ :=
    collectForWrite_ok books₁.table_start (fun k hk => books₁.sector_lt (by omega))
    (Nat.le_add_left 1 _) hle hwill' hcollect
  have grown := books₁.effect_collected collected
  have wrote := writeLoop_effect hloop grown.books collected.blocks
  have last : Effect s.part g.inode s.part { g.inode with iSize := s.iSize } :=
    wrote.books.effect_fields (fun _ _ => rfl) rfl (writeLoop_iSize hloop)
  have synced := last.books.effect_sync (inodeReplace_inv hsync).2
  exact grown.trans (wrote.trans (last.trans synced))

end SeekingOs.Fs
