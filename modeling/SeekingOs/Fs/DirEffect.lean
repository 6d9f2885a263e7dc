import Mathlib.Data.List.Perm.Subperm
import SeekingOs.Fs.Effect

/-!
# The effects of the directory functions and of `inode_realse`
-/

namespace SeekingOs.Fs

open Lib

variable {sb : SuperBlock} {p p' p'' : Part sb} {inode inode' : Inode}

/-! ## `sync_dir_entry` -/

theorem dirBlockAlloc_ok {r : Option (Nat × Part sb)} (h : dirBlockAlloc p = .ok r) :
    ∃ b p', r = some (b, p') ∧ Allocated p b p' := by
  unfold dirBlockAlloc at h
  obtain ⟨_, halloc, h⟩ := bind_eq_ok.mp h
  obtain ⟨b, p₁, rfl, alloc⟩ := blockBitmapAlloc_ok halloc
  obtain ⟨_, _, h⟩ := bind_eq_ok.mp h
  cases h
  exact ⟨b, _, rfl, alloc⟩

/-- How an insertion that succeeds ends: at the first free entry of the blocks before the first
unused one, or in a new block there. -/
theorem syncBlocks_ok {allBlocks : Blocks} {pDe ioBuf : Buf} {a n : Nat}
    (h : syncBlocks p inode allBlocks pDe ioBuf (List.range' a n) = .ok (true, p', inode')) :
    ∃ k buf, a ≤ k ∧ k < a + n ∧
      (∀ j, a ≤ j → j < k → allBlocks j ≠ 0 ∧
        ∃ buf, findFree (ideRead p (allBlocks j) buf 1) = none) ∧
      (allBlocks k = 0 ∧ syncNewBlock p inode allBlocks k pDe buf = .ok (true, p', inode') ∨
        allBlocks k ≠ 0 ∧ ∃ i, findFree (ideRead p (allBlocks k) buf 1) = some i ∧
        inode' = inode.grow ∧
          p' = ideWrite p (allBlocks k)
          (memcpy (ideRead p (allBlocks k) buf 1) (dirEntrySize * i) pDe dirEntrySize) 1) := by
  induction n generalizing a ioBuf with
  | zero => cases h
  | succ n ih =>
    rw [List.range'_succ] at h
    unfold syncBlocks at h
    by_cases h0 : allBlocks a = 0
    · rw [if_pos h0] at h
      exact ⟨a, ioBuf, Nat.le_refl _, by omega, fun j h₁ h₂ => by omega, .inl ⟨h0, h⟩⟩
    rw [if_neg h0] at h
    dsimp only at h
    cases hfree : findFree (ideRead p (allBlocks a) ioBuf 1) with
    | some i =>
      rw [hfree] at h
      cases h
      exact ⟨a, ioBuf, Nat.le_refl _, by omega, fun j h₁ h₂ => by omega,
        .inr ⟨h0, i, hfree, rfl, rfl⟩⟩
    | none =>
      rw [hfree] at h
      obtain ⟨k, buf, hk, hlt, before, hend⟩ := ih h
      refine ⟨k, buf, by omega, by omega, fun j h₁ h₂ => ?_, hend⟩
      by_cases hja : j = a
      · subst hja
        exact ⟨h0, ioBuf, hfree⟩
      · exact before j (by omega) h₂

theorem syncNewBlock_true {allBlocks : Blocks} {k : Nat} {pDe ioBuf : Buf} {r : DirResult sb}
    (h : syncNewBlock p inode allBlocks k pDe ioBuf = .ok r) : r.1 = true := by
  unfold syncNewBlock at h
  obtain ⟨_, halloc, h⟩ := bind_eq_ok.mp h
  obtain ⟨b, p₁, rfl, _⟩ := dirBlockAlloc_ok halloc
  dsimp only at h
  split at h
  · cases h
    rfl
  split at h
  · unfold syncNewTable at h
    obtain ⟨_, halloc₂, h⟩ := bind_eq_ok.mp h
    obtain ⟨b₂, p₂, rfl, _⟩ := dirBlockAlloc_ok halloc₂
    cases h
    rfl
  · cases h
    rfl

/-- An insertion that fails changes nothing: the directory was full. -/
theorem syncBlocks_false {allBlocks : Blocks} {pDe ioBuf : Buf} {ks : List Nat}
    (h : syncBlocks p inode allBlocks pDe ioBuf ks = .ok (false, p', inode')) :
    p' = p ∧ inode' = inode ∧ ∀ k ∈ ks, allBlocks k ≠ 0 := by
  induction ks generalizing ioBuf with
  | nil =>
    cases h
    exact ⟨rfl, rfl, fun _ h => absurd h List.not_mem_nil⟩
  | cons k ks ih =>
    unfold syncBlocks at h
    split at h
    · have := syncNewBlock_true h
      cases this
    next hne =>
      dsimp only at h
      split at h
      · cases h
      · obtain ⟨hp, hi, hall⟩ := ih h
        exact ⟨hp, hi, List.forall_mem_cons.mpr ⟨hne, hall⟩⟩

/-- A new block with the entry at its start. -/
theorem InOrder.effect_newEntry (books : InOrder p inode) {k : Nat} (hk : k < 140)
    (pDe ioBuf : Buf) :
    Effect p inode (syncNewEntry p inode (slot p inode k) pDe ioBuf).2.1
      (syncNewEntry p inode (slot p inode k) pDe ioBuf).2.2 := by
  have wrote :=
    books.effect_write (memcpy (memcpy ioBuf 0 zeros sectorSize) 0 pDe dirEntrySize)
      (.inr ⟨k, hk, rfl⟩)
  exact wrote.trans (wrote.books.effect_fields (fun _ _ => rfl) rfl fun _ => grow_lt _)

/-- The slots of a directory whose indirect table was made anew. -/
theorem slot_newTable (p : Part sb) {t b k : Nat} (ht : t ≠ 0) (hb : b < 2 ^ 32) :
    slot (writeTable p' t (Function.update (directBlocks inode) 12 b)) (inode.setSector 12 t) k =
      if k < 12 then slot p inode k else if k = 12 then b else if k = 140 then t else 0 := by
  have direct {j : Nat} (hj : ¬ j < 12) : directBlocks inode j = 0 := if_neg hj
  by_cases h1 : k < 12
  · rw [slot_direct h1, if_pos h1, slot_direct h1, setSector_other _ _ (by omega)]
  rw [if_neg h1]
  by_cases h2 : k < 140
  · have hentry :
        slot (writeTable p' t (Function.update (directBlocks inode) 12 b))
          (inode.setSector 12 t) k =
        Function.update (directBlocks inode) 12 b k := by
      rw [slot_indirect (by omega) h2, setSector_same, if_neg ht, tableEntry_writeTable (by omega),
        show 12 + (k - 12) = k by omega]
      rw [show 12 + (k - 12) = k by omega]
      by_cases h12 : k = 12
      · rw [h12, Function.update_self]
        exact hb
      · rw [Function.update_of_ne h12, direct h1]
        decide
    rw [hentry]
    by_cases h12 : k = 12
    · rw [if_pos h12, h12, Function.update_self]
    · rw [if_neg h12, Function.update_of_ne h12, direct h1, if_neg (by omega)]
  rw [if_neg (show k ≠ 12 by omega)]
  by_cases h3 : k = 140
  · rw [if_pos h3, h3, slot_table, setSector_same]
  · rw [if_neg h3, slot_beyond (by omega)]

/-- The directory gets an indirect table with one block; an older table is forgotten. -/
theorem InOrder.effect_newTable (books : InOrder p inode) {t b : Nat} {p₁ p₂ : Part sb}
    (ht : Allocated p t p₁) (hb : Allocated p₁ b p₂) :
    Effect p inode (writeTable p₂ t (Function.update (directBlocks inode) 12 b))
      (inode.setSector 12 t) := by
  have hsync : Synced p p₂ := Synced.trans ht.wrote hb.wrote
  refine ⟨?_, ?_, rfl, id, hb.inodeBitmap.trans ht.inodeBitmap⟩
  · have forgotten : Regrants (Taken p) (slot p inode) (Taken p)
        (fun k => if k < 12 then slot p inode k else 0) := by
      refine books.forget fun k => ?_
      by_cases hk : k < 12
      · exact .inl (if_pos hk)
      · exact .inr (if_neg hk)
    have hacq : Acquired p (fun k => k = 140 ∨ k = 12) (Function.update (fun _ => b) 140 t) p₂ :=
      .cons ht (.one hb 12) (by decide) fun k => Iff.rfl
    refine forgotten.trans (forgotten.books.takeMany
      (fun k hk => ⟨hacq.ne_zero hk, (hacq.fresh k hk).2⟩) hacq.inj
      (fun c => (taken_congr rfl c).trans (hacq.taken c)) (fun k hk => ?_) fun k hk => ?_)
    · rw [slot_newTable p ht.ne_zero hb.self.lt_u32]
      rcases hk with rfl | rfl
      · rfl
      · rfl
    · rw [slot_newTable p ht.ne_zero hb.self.lt_u32, if_neg (fun h => hk (.inr h)),
        if_neg (fun h => hk (.inl h))]
  · obtain ⟨W, hw, hm⟩ := hsync
    refine touches_of_wrote (hw.trans (wrote_ideWrite _ _ _ _)) (fun lba hl => ?_) fun _ h =>
      h.start
    rcases List.mem_append.mp hl with hl | hl
    · exact .inl (hm lba hl)
    · exact .inr (.inr (mem_one hl ▸ ⟨ht.start, .inr ht.free⟩))

/-- `sync_dir_entry` never finds a directory full: it takes block 12 for unused. -/
theorem syncDirEntry_true {pDe ioBuf : Buf} {b : Bool}
    (h : syncDirEntry p inode pDe ioBuf = .ok (b, p', inode')) : b = true := by
  unfold syncDirEntry at h
  obtain ⟨_, _, h⟩ := bind_eq_ok.mp h
  cases b with
  | true => rfl
  | false => exact absurd rfl ((syncBlocks_false h).2.2 12 (List.mem_range.mpr (by decide)))

/-- With a free block there is one for the directory. -/
theorem dirBlockAlloc_total (h : 0 < freeCount p) :
    ∃ b p', dirBlockAlloc p = .ok (some (b, p')) ∧ freeCount p' + 1 = freeCount p := by
  obtain ⟨b, p₁, halloc, alloc⟩ := blockBitmapAlloc_total h
  have hbit : blockBit sb b ≠ 2 ^ 32 - 1 := by
    have hlt := alloc.self.lt
    have hfits := sb.fits.2
    rw [blockBit_eq alloc.self]
    omega
  unfold dirBlockAlloc
  rw [halloc, ok_bind]
  dsimp only
  rw [assertThat_of hbit, ok_bind]
  exact ⟨_, _, rfl, alloc.freeCount⟩

/-- With two free blocks an insertion comes to an end. -/
theorem syncDirEntry_total (hsize : inode.iSize % dirEntrySize = 0) (hfree : 2 ≤ freeCount p)
    (pDe ioBuf : Buf) : ∃ p' inode', syncDirEntry p inode pDe ioBuf = .ok (true, p', inode') := by
  have block (k : Nat) (buf : Buf) :
      ∃ r, syncNewBlock p inode (directBlocks inode) k pDe buf = .ok r := by
    obtain ⟨b, p₁, halloc, hcount⟩ := dirBlockAlloc_total (p := p) (by omega)
    unfold syncNewBlock
    rw [halloc, ok_bind]
    dsimp only
    split
    · exact ⟨_, rfl⟩
    split
    · obtain ⟨b₂, p₂, halloc₂, _⟩ := dirBlockAlloc_total (p := p₁) (by omega)
      unfold syncNewTable
      rw [halloc₂]
      exact ⟨_, rfl⟩
    · exact ⟨_, rfl⟩
  have blocks (ks : List Nat) (buf : Buf) :
      ∃ r, syncBlocks p inode (directBlocks inode) pDe buf ks = .ok r := by
    induction ks generalizing buf with
    | nil => exact ⟨_, rfl⟩
    | cons k ks ih =>
      unfold syncBlocks
      split
      · exact block k buf
      · dsimp only
        split
        · exact ⟨_, rfl⟩
        · exact ih _
  obtain ⟨⟨done, p', inode'⟩, h⟩ := blocks (List.range 140) ioBuf
  have hsync : syncDirEntry p inode pDe ioBuf = .ok (done, p', inode') := by
    unfold syncDirEntry
    rw [assertThat_of hsize, ok_bind, h]
  obtain rfl := syncDirEntry_true hsync
  exact ⟨p', inode', hsync⟩

/-- THE EFFECT OF `sync_dir_entry`. -/
theorem syncDirEntry_effect (books : InOrder p inode) {pDe ioBuf : Buf} {b : Bool}
    (h : syncDirEntry p inode pDe ioBuf = .ok (b, p', inode')) : Effect p inode p' inode' := by
  obtain rfl := syncDirEntry_true h
  unfold syncDirEntry at h
  obtain ⟨_, _, h⟩ := bind_eq_ok.mp h
  rw [List.range_eq_range'] at h
  obtain ⟨k, buf, _, hk, before, hend⟩ := syncBlocks_ok h
  have hdirect {j : Nat} (hj : directBlocks inode j ≠ 0) : j < 12 := by
    by_contra hge
    exact hj (if_neg hge)
  have slot_eq {j : Nat} (hj : j < 12) : slot p inode j = directBlocks inode j := by
    rw [slot_direct hj]
    exact (if_pos hj).symm
  have hk12 : k ≤ 12 := by
    by_contra hgt
    have := hdirect (before 12 (by omega) (by omega)).1
    omega
  rcases hend with ⟨_, hnew⟩ | ⟨hne, i, _, hinode, hp⟩
  · unfold syncNewBlock at hnew
    obtain ⟨_, halloc, hnew⟩ := bind_eq_ok.mp hnew
    obtain ⟨b, p₁, rfl, alloc⟩ := dirBlockAlloc_ok halloc
    dsimp only at hnew
    split at hnew
    next hlt =>
      have taken := books.effect_take hlt alloc
      have hb : slot p₁ (inode.setSector k b) k = b := by
        rw [slot_direct hlt, setSector_same]
      have entry := taken.books.effect_newEntry (show k < 140 by omega) pDe buf
      rw [hb] at entry
      cases hnew
      exact taken.trans entry
    next hge =>
      rw [if_pos (show k = 12 by omega)] at hnew
      unfold syncNewTable at hnew
      obtain ⟨_, halloc₂, hnew⟩ := bind_eq_ok.mp hnew
      obtain ⟨b₂, p₂, rfl, alloc₂⟩ := dirBlockAlloc_ok halloc₂
      dsimp only at hnew
      rw [setSector_same] at hnew
      have made := books.effect_newTable alloc alloc₂
      have entry := made.books.effect_newEntry (show 12 < 140 by decide) pDe buf
      rw [slot_newTable p alloc.ne_zero alloc₂.self.lt_u32] at entry
      cases hnew
      exact made.trans entry
  · subst hp hinode
    have hlt := hdirect hne
    have wrote :=
      books.effect_write (memcpy (ideRead p (directBlocks inode k) buf 1) (dirEntrySize * i)
        pDe dirEntrySize)
      (.inr ⟨k, by omega, slot_eq hlt⟩)
    exact wrote.trans (wrote.books.effect_fields (fun _ _ => rfl) rfl fun _ => grow_lt _)

/-! ## `delete_dir_entry` -/

/-- A direct block is given back. -/
theorem InOrder.effect_dropDirect (books : InOrder p inode) {k : Nat} (hk : k < 12)
    (hne : slot p inode k ≠ 0) (h : Freed p (slot p inode k) p') :
    Effect p inode p' (inode.setSector k 0) where
  regrants := by
    rw [slot_setDirect hk, show slot p' inode = slot p inode from
      funext (books.slot_synced h.wrote)]
    exact books.drop hne h.taken
  touches := touches_of_synced h.wrote fun _ h => h.start
  iNo := rfl
  iSize := id
  inodeBitmap := h.inodeBitmap

/-- The slots of an inode after one entry of its table was cleared. -/
theorem slot_clearEntry (p' p : Part sb) {k : Nat} (hk : 12 ≤ k) (hk' : k < 140)
    (ht : inode.iSectors 12 ≠ 0) :
    slot (writeTable p' (inode.iSectors 12) (Function.update (collectBlocks p inode) k 0)) inode =
      Function.update (slot p inode) k 0 := by
  ext j
  by_cases h1 : j < 12
  · rw [Function.update_of_ne (by omega), slot_direct h1, slot_direct h1]
  by_cases h2 : j < 140
  · have fits (i : Nat) (hi : i < 140) (hle : 12 ≤ i) :
        Function.update (collectBlocks p inode) k 0 i < 2 ^ 32 := by
      by_cases hik : i = k
      · rw [hik, Function.update_self]
        decide
      · rw [Function.update_of_ne hik, ← slot_lt hi, slot_indirect hle hi, if_neg ht]
        exact tableEntry_lt
    rw [slot_indirect (by omega) h2, if_neg ht,
      tableEntry_writeTable (by omega) (fits _ (by omega) (by omega)),
      show 12 + (j - 12) = j by omega]
    by_cases hjk : j = k
    · rw [hjk, Function.update_self, Function.update_self]
    · rw [Function.update_of_ne hjk, Function.update_of_ne hjk, slot_lt h2]
  by_cases h3 : j = 140
  · rw [Function.update_of_ne (by omega), h3, slot_table, slot_table]
  · rw [Function.update_of_ne (by omega), slot_beyond (by omega), slot_beyond (by omega)]

/-- An indirect block is given back and its entry of the table cleared. -/
theorem InOrder.effect_dropIndirect (books : InOrder p inode) {k : Nat} (hk : 12 ≤ k)
    (hk' : k < 140) (hne : slot p inode k ≠ 0) (h : Freed p (slot p inode k) p') :
    Effect p inode (writeTable p' (inode.iSectors 12) (Function.update (collectBlocks p inode) k 0))
      inode := by
  have ht : inode.iSectors 12 ≠ 0 := fun h0 => hne (by rw [slot_indirect hk hk', if_pos h0])
  have h140 : slot p inode 140 ≠ 0 := by rwa [slot_table]
  refine ⟨?_, ?_, rfl, id, h.inodeBitmap⟩
  · rw [slot_clearEntry _ p hk hk' ht]
    exact books.drop hne fun c => (taken_congr rfl c).trans (h.taken c)
  · obtain ⟨W, hw, hm⟩ := h.wrote
    refine touches_of_wrote (hw.trans (wrote_ideWrite _ _ _ _)) (fun lba hl => ?_) fun _ h =>
      h.start
    rcases List.mem_append.mp hl with hl | hl
    · exact .inl (hm lba hl)
    · rw [mem_one hl]
      refine .inr (.inr ⟨?_, .inl ⟨ht, 140, slot_table⟩⟩)
      rw [← slot_table (p := p)]
      exact (books.taken 140 h140).1

/-- The table of an inode without indirect blocks is given back. -/
theorem InOrder.effect_dropTable (books : InOrder p inode) (ht : inode.iSectors 12 ≠ 0)
    (hempty : ∀ j, 12 ≤ j → j < 140 → slot p inode j = 0) (h : Freed p (inode.iSectors 12) p') :
    Effect p inode p' (inode.setSector 12 0) where
  regrants := by
    have hslot : slot p' (inode.setSector 12 0) = Function.update (slot p inode) 140 0 := by
      ext j
      by_cases h1 : j < 12
      · rw [Function.update_of_ne (by omega), slot_direct h1, slot_direct h1,
          setSector_other _ _ (by omega)]
      by_cases h2 : j < 140
      · rw [Function.update_of_ne (by omega), slot_indirect (by omega) h2,
          setSector_same, if_pos rfl,
          hempty j (by omega) h2]
      by_cases h3 : j = 140
      · rw [h3, Function.update_self, slot_table, setSector_same]
      · rw [Function.update_of_ne (by omega), slot_beyond (by omega), slot_beyond (by omega)]
    rw [hslot]
    rw [← slot_table (p := p)] at ht h
    exact books.drop ht h.taken
  touches := touches_of_synced h.wrote fun _ h => h.start
  iNo := rfl
  iSize := id
  inodeBitmap := h.inodeBitmap

/-- With at most one indirect block, a used one is the only one. -/
theorem indirectBlocks_one {allBlocks : Blocks} {k : Nat} (h : ¬ indirectBlocks allBlocks > 1)
    (hk : 12 ≤ k) (hk' : k < 140) (hne : allBlocks k ≠ 0) {j : Nat} (hj : 12 ≤ j) (hj' : j < 140)
    (hjk : j ≠ k) : allBlocks j = 0 := by
  by_contra hne'
  refine h ?_
  have hnodup : [j, k].Nodup := by simp [hjk]
  have hsub : [j, k] ⊆ (List.range' 12 128).filter fun k => allBlocks k != 0 := by
    intro i hi
    rw [List.mem_filter, List.mem_range'_1]
    rcases List.mem_cons.mp hi with rfl | hi
    · exact ⟨⟨hj, by omega⟩, by simpa using hne'⟩
    · rw [List.mem_singleton.mp hi]
      exact ⟨⟨hk, by omega⟩, by simpa using hne⟩
  exact (hnodup.subperm hsub).length_le

/-- The block of the deleted entry leaves the inode. -/
theorem InOrder.effect_dropBlock (books : InOrder p inode) {k : Nat} (hk : k < 140)
    (hne : collectBlocks p inode k ≠ 0)
    (h : dropBlock p inode (collectBlocks p inode) k = .ok (p', inode')) :
    Effect p inode p' inode' := by
  have hslot : slot p inode k = collectBlocks p inode k := slot_lt hk
  rw [← hslot] at hne
  unfold dropBlock at h
  rw [← hslot] at h
  obtain ⟨_, _, h⟩ := bind_eq_ok.mp h
  have freed := blockFree_freed (books.taken k hne)
  split at h
  next h12 =>
    cases h
    exact books.effect_dropDirect h12 hne freed
  next h12 =>
    obtain ⟨_, _, h⟩ := bind_eq_ok.mp h
    have dropped := books.effect_dropIndirect (by omega) hk hne freed
    dsimp only at h
    split at h
    · cases h
      exact dropped
    next hone =>
      cases h
      have ht : inode.iSectors 12 ≠ 0 :=
        fun h0 => hne (by rw [slot_indirect (by omega) hk, if_pos h0])
      have hslot₂ := slot_clearEntry (blockFree p (slot p inode k)) p (by omega) hk ht
      have htaken : Taken (writeTable (blockFree p (slot p inode k)) (inode.iSectors 12)
          (Function.update (collectBlocks p inode) k 0)) (inode.iSectors 12) := by
        have := dropped.books.taken 140
        rw [slot_table] at this
        exact this ht
      refine dropped.trans (dropped.books.effect_dropTable ht (fun j hj hj' => ?_)
        (blockFree_freed htaken))
      rw [hslot₂]
      by_cases hjk : j = k
      · rw [hjk, Function.update_self]
      · rw [Function.update_of_ne hjk, slot_lt hj']
        exact indirectBlocks_one hone (by omega) hk (hslot ▸ hne) hj hj' hjk

/-- How a deletion that succeeds ends: the first block with an entry of the inode number. -/
theorem deleteBlocks_ok {allBlocks : Blocks} {n : Nat} {ks : List Nat}
    (h : deleteBlocks p inode allBlocks n ks = .ok (true, p', inode')) :
    ∃ k ∈ ks, allBlocks k ≠ 0 ∧ ∃ s found,
      scanEntries (ideRead p (allBlocks k) zeros 1) n ⟨false, 0, none⟩
        (List.range dirEntrysPerSec) = .ok s ∧
      s.dirEntryFound = some found ∧
      deleteFound p inode allBlocks k (ideRead p (allBlocks k) zeros 1) s found =
        .ok (true, p', inode') := by
  induction ks with
  | nil => cases h
  | cons k ks ih =>
    unfold deleteBlocks at h
    split at h
    · obtain ⟨j, hj, hrest⟩ := ih h
      exact ⟨j, List.mem_cons_of_mem _ hj, hrest⟩
    next hne =>
      obtain ⟨s, hscan, h⟩ := bind_eq_ok.mp h
      cases hfound : s.dirEntryFound with
      | none =>
        rw [hfound] at h
        obtain ⟨j, hj, hrest⟩ := ih h
        exact ⟨j, List.mem_cons_of_mem _ hj, hrest⟩
      | some found =>
        rw [hfound] at h
        exact ⟨k, List.mem_cons_self, hne, s, found, hscan, hfound, h⟩

/-- A deletion that fails changes nothing: no entry has the number. -/
theorem deleteBlocks_false {allBlocks : Blocks} {n : Nat} {ks : List Nat}
    (h : deleteBlocks p inode allBlocks n ks = .ok (false, p', inode')) :
    p' = p ∧ inode' = inode := by
  induction ks with
  | nil =>
    cases h
    exact ⟨rfl, rfl⟩
  | cons k ks ih =>
    unfold deleteBlocks at h
    split at h
    · exact ih h
    · obtain ⟨s, _, h⟩ := bind_eq_ok.mp h
      split at h
      · exact ih h
      · unfold deleteFound at h
        obtain ⟨_, _, h⟩ := bind_eq_ok.mp h
        obtain ⟨_, _, h⟩ := bind_eq_ok.mp h
        obtain ⟨_, _, h⟩ := bind_eq_ok.mp h
        obtain ⟨_, _, h⟩ := bind_eq_ok.mp h
        cases h

/-- THE EFFECT OF `delete_dir_entry`. -/
theorem deleteDirEntry_effect (books : InOrder p inode) {n : Nat} {b : Bool}
    (h : deleteDirEntry p inode n = .ok (b, p', inode')) : Effect p inode p' inode' := by
  unfold deleteDirEntry at h
  cases b with
  | false =>
    obtain ⟨rfl, rfl⟩ := deleteBlocks_false h
    exact books.effect_refl
  | true =>
  obtain ⟨k, hk, hne, s, found, _, _, h⟩ := deleteBlocks_ok h
  have hk140 := List.mem_range.mp hk
  unfold deleteFound at h
  obtain ⟨_, _, h⟩ := bind_eq_ok.mp h
  obtain ⟨⟨p₁, inode₁⟩, hclear, h⟩ := bind_eq_ok.mp h
  obtain ⟨_, _, h⟩ := bind_eq_ok.mp h
  obtain ⟨p₂, hsync, h⟩ := bind_eq_ok.mp h
  cases h
  have cleared : Effect p inode p₁ inode₁ := by
    unfold clearEntry at hclear
    split at hclear
    · exact books.effect_dropBlock hk140 hne hclear
    · cases hclear
      exact books.effect_write _ (.inr ⟨k, hk140, slot_lt hk140⟩)
  have sized : Effect p₁ inode₁ p₁ inode₁.shrink :=
    cleared.books.effect_fields (fun _ _ => rfl) rfl fun h => Nat.lt_of_le_of_lt (Nat.sub_le _ _) h
  exact cleared.trans (sized.trans (sized.books.effect_sync (inodeReplace_inv hsync).2))

/-! ## `inode_realse` -/

/-- The loop gives back the blocks it meets. -/
theorem freeBlocks_ok {allBlocks : Blocks} {ks : List Nat} (hks : ks.Nodup)
    (htaken : ∀ k ∈ ks, allBlocks k ≠ 0 → Taken p (allBlocks k))
    (inj : ∀ j ∈ ks, ∀ k ∈ ks, allBlocks j ≠ 0 → allBlocks j = allBlocks k → j = k)
    (h : freeBlocks p allBlocks ks = .ok p') :
    (∀ c, Taken p' c ↔ Taken p c ∧ ∀ k ∈ ks, allBlocks k ≠ 0 → allBlocks k ≠ c) ∧ Synced p p' ∧
      p'.inodeBitmap = p.inodeBitmap := by
  induction ks generalizing p with
  | nil =>
    cases h
    exact ⟨fun c => ⟨fun h => ⟨h, fun _ hk => absurd hk List.not_mem_nil⟩, fun h => h.1⟩, .refl _,
      rfl⟩
  | cons k ks ih =>
    obtain ⟨hk, hks⟩ := List.nodup_cons.mp hks
    have inj' : ∀ i ∈ ks, ∀ j ∈ ks, allBlocks i ≠ 0 → allBlocks i = allBlocks j → i = j :=
      fun i hi j hj =>
      inj i (List.mem_cons_of_mem _ hi) j (List.mem_cons_of_mem _ hj)
    unfold freeBlocks at h
    split at h
    next hne =>
      obtain ⟨_, _, h⟩ := bind_eq_ok.mp h
      have freed := blockFree_freed (htaken k List.mem_cons_self hne)
      have apart (j : Nat) (hj : j ∈ ks) (hj0 : allBlocks j ≠ 0) : allBlocks j ≠ allBlocks k :=
        fun e => by
        have := inj j (List.mem_cons_of_mem _ hj) k List.mem_cons_self hj0 e
        exact hk (this ▸ hj)
      obtain ⟨htk, hsync, hbits⟩ := ih hks (fun j hj hj0 => (freed.taken _).mpr
        ⟨apart j hj hj0, htaken j (List.mem_cons_of_mem _ hj) hj0⟩) inj' h
      refine ⟨fun c => ?_, Synced.trans freed.wrote hsync, hbits.trans freed.inodeBitmap⟩
      rw [htk, freed.taken, List.forall_mem_cons]
      constructor
      · rintro ⟨⟨hc, ht⟩, hrest⟩
        exact ⟨ht, fun _ => Ne.symm hc, hrest⟩
      · rintro ⟨ht, hc, hrest⟩
        exact ⟨⟨Ne.symm (hc hne), ht⟩, hrest⟩
    next h0 =>
      obtain ⟨htk, hsync, hbits⟩ := ih hks (fun j hj => htaken j (List.mem_cons_of_mem _ hj)) inj' h
      refine ⟨fun c => ?_, hsync, hbits⟩
      rw [htk, List.forall_mem_cons]
      simp only [h0, false_implies, true_and]

/-- What a release leaves behind: all blocks of the inode are free. -/
structure Released (p : Part sb) (inode : Inode) (p' : Part sb) : Prop where
  taken : ∀ c, Taken p' c ↔ Taken p c ∧ ¬ Holds (slot p inode) c
  synced : Synced p p'
  inodeBitmap : p'.inodeBitmap = p.inodeBitmap

theorem realseBlocks_ok (books : InOrder p inode) (h : realseBlocks p inode = .ok p') :
    Released p inode p' := by
  unfold realseBlocks at h
  dsimp only at h
  split at h
  next ht =>
    obtain ⟨_, _, h⟩ := bind_eq_ok.mp h
    have h140 : slot p inode 140 = inode.iSectors 12 := slot_table
    rw [← h140] at h ht
    have freed := blockFree_freed (books.taken 140 ht)
    have htaken (k : Nat) (hk : k ∈ List.range 140) (hne : collectBlocks p inode k ≠ 0) :
        Taken (blockFree p (slot p inode 140)) (collectBlocks p inode k) := by
      rw [List.mem_range] at hk
      rw [← slot_lt hk] at hne ⊢
      refine (freed.taken _).mpr ⟨fun e => ?_, books.taken k hne⟩
      have := books.inj k 140 hne e
      omega
    have inj (j : Nat) (hj : j ∈ List.range 140) (k : Nat) (hk : k ∈ List.range 140)
        (hne : collectBlocks p inode j ≠ 0)
        (heq : collectBlocks p inode j = collectBlocks p inode k) : j = k := by
      rw [List.mem_range] at hj hk
      rw [← slot_lt hj] at hne heq
      rw [← slot_lt hk] at heq
      exact books.inj j k hne heq
    obtain ⟨htk, hsync, hbits⟩ := freeBlocks_ok List.nodup_range htaken inj h
    refine ⟨fun c => ?_, Synced.trans freed.wrote hsync, hbits.trans freed.inodeBitmap⟩
    rw [htk, freed.taken]
    constructor
    · rintro ⟨⟨hc, hct⟩, hrest⟩
      refine ⟨hct, ?_⟩
      rintro ⟨hc0, k, rfl⟩
      by_cases hk : k < 140
      · rw [slot_lt hk] at hc0 hrest
        exact hrest k (List.mem_range.mpr hk) hc0 rfl
      · by_cases hk' : k = 140
        · exact hc (by rw [hk'])
        · exact hc0 (slot_beyond (by omega))
    · rintro ⟨hct, hno⟩
      refine ⟨⟨fun e => hno ⟨e ▸ ht, 140, e.symm⟩, hct⟩, fun k hk hne e => ?_⟩
      rw [← slot_lt (List.mem_range.mp hk)] at hne e
      exact hno ⟨e ▸ hne, k, e⟩
  next ht =>
    rw [not_not] at ht
    have direct {k : Nat} (hk : k ∈ List.range 12) : slot p inode k = collectBlocks p inode k :=
      slot_lt (by have := List.mem_range.mp hk; omega)
    have htaken (k : Nat) (hk : k ∈ List.range 12) (hne : collectBlocks p inode k ≠ 0) :
        Taken p (collectBlocks p inode k) := by
      rw [← direct hk] at hne ⊢
      exact books.taken k hne
    have inj (j : Nat) (hj : j ∈ List.range 12) (k : Nat) (hk : k ∈ List.range 12)
        (hne : collectBlocks p inode j ≠ 0)
        (heq : collectBlocks p inode j = collectBlocks p inode k) : j = k := by
      rw [← direct hj] at hne heq
      rw [← direct hk] at heq
      exact books.inj j k hne heq
    obtain ⟨htk, hsync, hbits⟩ := freeBlocks_ok List.nodup_range htaken inj h
    refine ⟨fun c => ?_, hsync, hbits⟩
    rw [htk]
    refine and_congr_right fun hct => ⟨?_, fun hno k hk hne e => ?_⟩
    · rintro hrest ⟨hc0, k, rfl⟩
      by_cases hk : k < 12
      · rw [direct (List.mem_range.mpr hk)] at hc0 hrest
        exact hrest k (List.mem_range.mpr hk) hc0 rfl
      · refine hc0 ?_
        by_cases hk' : k < 140
        · rw [slot_indirect (by omega) hk', if_pos ht]
        · by_cases h140 : k = 140
          · rw [h140, slot_table, ht]
          · exact slot_beyond (by omega)
    · rw [← direct hk] at hne e
      exact hno ⟨e ▸ hne, k, e⟩

/-- WHAT `inode_realse` DOES: the blocks of the inode are free, its bit is cleared, and no other
inode is touched. -/
structure Realsed (p : Part sb) (inode : Inode) (p' : Part sb) : Prop where
  taken : ∀ c, Taken p' c ↔ Taken p c ∧ ¬ Holds (slot p inode) c
  inodeBitmap : p'.inodeBitmap = bitmapSet p.inodeBitmap inode.iNo false
  touches : Touches p inode.iNo (Own p inode) p'

theorem inodeRealse_ok (books : InOrder p inode) {n : Nat} (h : inodeRealse p inode n = .ok p') :
    inode.iNo = n ∧ n < 4096 ∧ Realsed p inode p' := by
  unfold inodeRealse at h
  obtain ⟨_, hassert, h⟩ := bind_eq_ok.mp h
  obtain ⟨p₁, hblocks, h⟩ := bind_eq_ok.mp h
  obtain rfl := assertThat_ok hassert
  obtain ⟨hn, hr⟩ := inodeReplace_inv h
  have released := realseBlocks_ok books hblocks
  obtain ⟨W, hw, hm⟩ := inodeBitmapSync_wrote (p₁.setInode inode.iNo false) hn
  have bit : Synced p₁ (p₁.setInode inode.iNo false) :=
    ⟨[], .none rfl rfl, fun _ h => absurd h List.not_mem_nil⟩
  have synced : Synced p _ := (released.synced.trans bit).trans ⟨W, hw, hm⟩
  refine ⟨rfl, hn, fun c => ?_, ?_, ?_⟩
  · rw [taken_congr hr.blockBitmap, ← released.taken]
    exact taken_congr rfl c
  · rw [hr.inodeBitmap, inodeBitmapSync_inodeBitmap, setInode_inodeBitmap, released.inodeBitmap]
  · exact (touches_of_synced synced fun _ h => h.start).trans (touches_of_replaced hr) fun _ h => h

end SeekingOs.Fs
