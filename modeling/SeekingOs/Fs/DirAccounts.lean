import Mathlib.Data.Finset.Prod
import SeekingOs.Fs.DirMap

/-!
# What a directory keeps account of

`dir_is_empty` looks at `i_size` alone and `dir_remove` asserts that an empty directory has no block
but the first. As long as the entries fit the 12 direct blocks, insertion and deletion keep `i_size`
the size of the entries in use, leave `.` and `..` at the start of block 0, and keep no other block
without an entry.
-/

namespace SeekingOs.Fs

open Lib Lib.Machine

variable {sb : SuperBlock} {p p' : Part sb} {inode inode' : Inode}

/-- The cells with an entry in use. -/
def live (p : Part sb) (inode : Inode) : Finset Cell :=
  (Finset.range 140 ×ˢ Finset.range dirEntrysPerSec).filter fun c => (entries p inode c).fType ≠ 0

theorem mem_live {c : Cell} : c ∈ live p inode ↔ (entries p inode c).fType ≠ 0 := by
  unfold live
  rw [Finset.mem_filter, Finset.mem_product, Finset.mem_range, Finset.mem_range]
  constructor
  · intro h
    exact h.2
  · intro h
    obtain ⟨hk, hi, -⟩ := entries_place h
    exact ⟨⟨hk, hi⟩, h⟩

theorem card_live_le (p : Part sb) (inode : Inode) :
    (live p inode).card ≤ 140 * dirEntrysPerSec := by
  apply Nat.le_trans (Finset.card_filter_le _ _)
  rw [Finset.card_product, Finset.card_range, Finset.card_range]

-- the cells are not to be counted out
attribute [irreducible] live

/-- One entry more. -/
theorem card_live_insert {c : Cell} {e : DirEntry} (free : (entries p inode c).fType = 0)
    (he : e.fType ≠ 0) (h : entries p' inode' = Function.update (entries p inode) c e) :
    (live p' inode').card = (live p inode).card + 1 := by
  have hno : c ∉ live p inode := fun hmem => mem_live.mp hmem free
  have hlive : live p' inode' = insert c (live p inode) := by
    ext c'
    rw [Finset.mem_insert, mem_live, mem_live, h]
    by_cases hc : c' = c
    · simp [hc, he]
    · simp [hc]
  rw [hlive, Finset.card_insert_of_notMem hno]

/-- One entry less. -/
theorem card_live_erase {c : Cell} (used : (entries p inode c).fType ≠ 0)
    (h : ∀ c', (entries p' inode' c').fType ≠ 0 ↔ c' ≠ c ∧ (entries p inode c').fType ≠ 0) :
    (live p' inode').card + 1 = (live p inode).card := by
  have hlive : live p' inode' = (live p inode).erase c := by
    ext c'
    rw [Finset.mem_erase, mem_live, mem_live, h]
  rw [hlive]
  exact Finset.card_erase_add_one (mem_live.mpr used)

/-- The accounts of a directory without an indirect table. -/
structure Accounts (p : Part sb) (inode : Inode) : Prop where
  size : inode.iSize = dirEntrySize * (live p inode).card
  dot : ∃ v, cells p inode (0, 0) = some (dotName, v)
  dotDot : ∃ v, cells p inode (0, 1) = some (dotDotName, v)
  /-- A block is there for an entry. -/
  blocks : ∀ k < 12, slot p inode k ≠ 0 → ∃ i, (entries p inode (k, i)).fType ≠ 0
  noTable : inode.iSectors 12 = 0

theorem Accounts.direct (acc : Accounts p inode) {k : Nat} (h : slot p inode k ≠ 0) : k < 12 := by
  by_contra hge
  apply h
  rw [slot_noTable acc.noTable, if_neg hge]

theorem Accounts.live_direct (acc : Accounts p inode) {c : Cell}
    (h : (entries p inode c).fType ≠ 0) : c.1 < 12 :=
  acc.direct (entries_place h).2.2

/-- The accounts fit their 32 bits. -/
theorem Accounts.small (acc : Accounts p inode) : inode.iSize + dirEntrySize < 2 ^ 32 := by
  have hcard := card_live_le p inode
  rw [acc.size]
  unfold dirEntrySize
  unfold dirEntrysPerSec at hcard
  omega

theorem cells_live {c : Cell} {b : Name × Nat × Nat} (h : cells p inode c = some b) :
    (entries p inode c).fType ≠ 0 := by
  obtain ⟨name, n, t⟩ := b
  exact (binding_some.mp h).1

/-- EMPTY. `dir_is_empty` answers that only `.` and `..` are left. -/
theorem Accounts.isEmpty_iff (acc : Accounts p inode) :
    dirIsEmpty inode = true ↔ ∀ c, (entries p inode c).fType ≠ 0 → c = (0, 0) ∨ c = (0, 1) := by
  obtain ⟨v, hdot⟩ := acc.dot
  obtain ⟨w, hdd⟩ := acc.dotDot
  have hsub : ({(0, 0), (0, 1)} : Finset Cell) ⊆ live p inode := by
    intro c hc
    rw [Finset.mem_insert, Finset.mem_singleton] at hc
    rcases hc with rfl | rfl
    · exact mem_live.mpr (cells_live hdot)
    · exact mem_live.mpr (cells_live hdd)
  have htwo : ({(0, 0), (0, 1)} : Finset Cell).card = 2 := by decide
  have hempty : dirIsEmpty inode = true ↔ (live p inode).card = 2 := by
    unfold dirIsEmpty dirEntrySize
    rw [beq_iff_eq, acc.size]
    unfold dirEntrySize
    omega
  rw [hempty]
  constructor
  · intro hcard c hc
    have heq := Finset.eq_of_subset_of_card_le hsub (by omega)
    have hmem := mem_live.mpr hc
    rw [← heq, Finset.mem_insert, Finset.mem_singleton] at hmem
    exact hmem
  · intro h
    rw [← htwo]
    congr 1
    apply Finset.Subset.antisymm ?_ hsub
    intro c hc
    rw [Finset.mem_insert, Finset.mem_singleton]
    exact h c (mem_live.mp hc)

/-- An empty directory has one block: what `dir_remove` asserts. -/
theorem Accounts.one_block (acc : Accounts p inode) (h : dirIsEmpty inode = true) {k : Nat}
    (hk : 1 ≤ k) (hk' : k ≤ 12) : inode.iSectors k = 0 := by
  by_cases h12 : k = 12
  · rw [h12]
    exact acc.noTable
  by_contra hne
  rw [← slot_direct (p := p) (by omega : k < 12)] at hne
  obtain ⟨i, hi⟩ := acc.blocks k (by omega) hne
  rcases acc.isEmpty_iff.mp h _ hi with heq | heq
  · rw [(Prod.mk.inj heq).1] at hk
    omega
  · rw [(Prod.mk.inj heq).1] at hk
    omega

/-! ## Insertion -/

/-- An insertion into the direct blocks. -/
structure InsertedDirect (p : Part sb) (inode : Inode) (e : DirEntry) (p' : Part sb)
    (inode' : Inode) (c : Cell) : Prop where
  place : c.1 < 12
  free : (entries p inode c).fType = 0
  entries_eq : entries p' inode' = Function.update (entries p inode) c e
  slots : ∀ j, j ≠ c.1 → slot p' inode' j = slot p inode j
  iSize : inode'.iSize = inode.grow.iSize

/-- A direct block is unused or has a free entry. -/
def DirectRoom (p : Part sb) (inode : Inode) : Prop :=
  ∃ k < 12, inode.iSectors k = 0 ∨ ∃ i < dirEntrysPerSec, (entryOf p (inode.iSectors k) i).fType = 0

theorem syncDirEntry_direct (books : InOrder p inode) (room : DirectRoom p inode) {pDe ioBuf : Buf}
    (h : syncDirEntry p inode pDe ioBuf = .ok (true, p', inode')) :
    ∃ c, InsertedDirect p inode (dirEntryAt pDe 0) p' inode' c := by
  unfold syncDirEntry at h
  obtain ⟨_, _, h⟩ := bind_eq_ok.mp h
  rw [List.range_eq_range'] at h
  obtain ⟨k, buf, _, hk, before, hend⟩ := syncBlocks_ok h
  have slot_eq {j : Nat} (hj : j < 12) : directBlocks inode j = slot p inode j := by
    rw [slot_direct hj]
    exact if_pos hj
  -- the blocks before `k` have no room
  have hk12 : k < 12 := by
    by_contra hge
    obtain ⟨j, hj, hroom⟩ := room
    obtain ⟨hne, buf', hfree⟩ := before j (Nat.zero_le _) (by omega)
    rw [slot_eq hj, slot_direct hj] at hne hfree
    rcases hroom with h0 | ⟨i, hi, h0⟩
    · exact hne h0
    · exact findFree_none buf' hfree hi h0
  rcases hend with ⟨h0, hnew⟩ | ⟨hne, i, hfree, rfl, rfl⟩
  · unfold syncNewBlock at hnew
    obtain ⟨_, halloc, hnew⟩ := bind_eq_ok.mp hnew
    obtain ⟨b, p₁, rfl, alloc⟩ := dirBlockAlloc_ok halloc
    dsimp only at hnew
    rw [if_pos hk12] at hnew
    cases hnew
    rw [slot_eq hk12] at h0
    obtain ⟨entries_eq, slots⟩ := books.newDirect hk12 h0 alloc pDe buf
    refine ⟨(k, 0), hk12, ?_, entries_eq, slots, rfl⟩
    rw [entries_unused h0, emptyEntry_fType]
  · rw [slot_eq hk12] at hne hfree ⊢
    obtain ⟨hi, hfree⟩ := findFree_some buf hfree
    refine ⟨(k, i), hk12, ?_, ?_, fun j _ => ?_, rfl⟩
    · rwa [entries_used (by omega) hi hne]
    · rw [entries_grow]
      exact books.entries_write (by omega) hi hne pDe buf
    · rw [slot_grow, books.slot_write _ (.inr ⟨k, by omega, rfl⟩)]

theorem Accounts.insert (acc : Accounts p inode) {e : DirEntry} {c : Cell} (he : e.fType ≠ 0)
    (ins : InsertedDirect p inode e p' inode' c) : Accounts p' inode' := by
  have keep {c' : Cell} {b : Name × Nat × Nat} (h : cells p inode c' = some b) :
      cells p' inode' c' = some b := by
    have hne : c' ≠ c := by
      rintro rfl
      exact cells_live h ins.free
    unfold cells at h ⊢
    rw [ins.entries_eq, Function.update_of_ne hne]
    exact h
  obtain ⟨v, hdot⟩ := acc.dot
  obtain ⟨w, hdd⟩ := acc.dotDot
  refine ⟨?_, ⟨v, keep hdot⟩, ⟨w, keep hdd⟩, fun k hk hne => ?_, ?_⟩
  · have hgrow : inode.grow.iSize = inode.iSize + dirEntrySize := u32_of_lt acc.small
    rw [ins.iSize, hgrow, acc.size, card_live_insert ins.free he ins.entries_eq,
      Nat.mul_add, Nat.mul_one]
  · by_cases hkc : k = c.1
    · refine ⟨c.2, ?_⟩
      rw [ins.entries_eq, hkc, Function.update_self]
      exact he
    · rw [ins.slots k hkc] at hne
      obtain ⟨i, hi⟩ := acc.blocks k hk hne
      refine ⟨i, ?_⟩
      rw [ins.entries_eq, Function.update_of_ne fun heq => hkc (congrArg Prod.fst heq)]
      exact hi
  · have hplace := ins.place
    have := ins.slots 140 (by omega)
    rw [slot_table, slot_table] at this
    rw [this]
    exact acc.noTable

/-! ## Deletion -/

theorem dropBlock_iSize {allBlocks : Blocks} {k : Nat}
    (h : dropBlock p inode allBlocks k = .ok (p', inode')) : inode'.iSize = inode.iSize := by
  unfold dropBlock at h
  obtain ⟨_, _, h⟩ := bind_eq_ok.mp h
  split at h
  · cases h
    rfl
  · obtain ⟨_, _, h⟩ := bind_eq_ok.mp h
    dsimp only at h
    split at h
    · cases h
      rfl
    · cases h
      rfl

/-- What a deletion that succeeds does to the size, and to the bits of the direct block that it
gives back. -/
theorem deleteDirEntry_frees (books : InOrder p inode) {n : Nat}
    (h : deleteDirEntry p inode n = .ok (true, p', inode')) :
    inode'.iSize + dirEntrySize = inode.iSize ∧
      ∀ k < 12, slot p inode k ≠ 0 → slot p' inode' k = 0 → ¬ Taken p' (slot p inode k) := by
  obtain ⟨j, hj, hne, s, found, -, -, h⟩ := deleteBlocks_ok h
  have hj140 := List.mem_range.mp hj
  rw [← slot_lt hj140] at hne
  unfold deleteFound at h
  obtain ⟨_, _, h⟩ := bind_eq_ok.mp h
  obtain ⟨⟨p₁, inode₁⟩, hclear, h⟩ := bind_eq_ok.mp h
  obtain ⟨_, hsize, h⟩ := bind_eq_ok.mp h
  obtain ⟨p₂, hsync, h⟩ := bind_eq_ok.mp h
  cases h
  have hsize := assertThat_ok hsize
  have hsync := (inodeReplace_inv hsync).2
  have htaken (b : Nat) : Taken p' b ↔ Taken p₁ b := taken_congr hsync.blockBitmap b
  unfold clearEntry at hclear
  split at hclear
  · have hkeep := dropBlock_iSize hclear
    refine ⟨?_, fun k hk hslot hgone => ?_⟩
    · unfold Inode.shrink
      dsimp only at hsize ⊢
      omega
    have hdirect : inode₁.iSectors k = 0 := by
      rw [slot_direct hk] at hgone
      exact hgone
    rw [htaken]
    unfold dropBlock at hclear
    obtain ⟨_, _, hclear⟩ := bind_eq_ok.mp hclear
    split at hclear
    next hj12 =>
      cases hclear
      by_cases hkj : k = j
      · rw [hkj, ← slot_lt hj140]
        intro ht
        exact ((blockFree_freed (books.taken j hne)).taken _).mp ht |>.1 rfl
      · rw [setSector_other _ _ hkj, ← slot_direct (p := p) hk] at hdirect
        exact absurd hdirect hslot
    next hj12 =>
      obtain ⟨_, _, hclear⟩ := bind_eq_ok.mp hclear
      have hkj : inode₁.iSectors k = inode.iSectors k := by
        dsimp only at hclear
        split at hclear
        · cases hclear
          rfl
        · cases hclear
          exact setSector_other _ _ (by omega)
      rw [hkj, ← slot_direct (p := p) hk] at hdirect
      exact absurd hdirect hslot
  · cases hclear
    refine ⟨?_, fun k hk hslot hgone => ?_⟩
    · unfold Inode.shrink
      dsimp only at hsize ⊢
      omega
    · rw [slot_direct hk] at hgone hslot
      exact absurd hgone hslot

/-- Every entry in use has its name in one place. -/
theorem Accounts.delete (acc : Accounts p inode) (books : InOrder p inode)
    (once : ∀ c c' name v w, cells p inode c = some (name, v) → cells p inode c' = some (name, w) →
      c = c') {n : Nat} (h : deleteDirEntry p inode n = .ok (true, p', inode')) :
    Accounts p' inode' := by
  have hsize := (deleteDirEntry_frees books h).1
  obtain ⟨v, hdot⟩ := acc.dot
  obtain ⟨w, hdd⟩ := acc.dotDot
  have hcount {c : Cell} (used : (entries p inode c).fType ≠ 0)
      (gone : ∀ c', (entries p' inode' c').fType ≠ 0 ↔ c' ≠ c ∧ (entries p inode c').fType ≠ 0) :
      inode'.iSize = dirEntrySize * (live p' inode').card := by
    have hcard := card_live_erase used gone
    rw [acc.size, ← hcard, Nat.mul_add, Nat.mul_one] at hsize
    exact Nat.add_right_cancel hsize
  cases deleteDirEntry_deleted books h with
  | cleared k i j hk counted hno other entries_eq slots =>
    have gone (c' : Cell) : (entries p' inode' c').fType ≠ 0 ↔
        c' ≠ (k, i) ∧ (entries p inode c').fType ≠ 0 := by
      rw [entries_eq]
      by_cases hc : c' = (k, i)
      · simp [hc]
      · simp [hc]
    have keep {c' : Cell} {b : Name × Nat × Nat} (h : cells p inode c' = some b)
        (hb : b.1 = dotName ∨ b.1 = dotDotName) : cells p' inode' c' = some b := by
      have hne : c' ≠ (k, i) := by
        rintro rfl
        obtain ⟨m, n', t⟩ := b
        obtain ⟨-, hm, -⟩ := binding_some.mp h
        rcases hb with rfl | rfl
        · exact counted.2.1 hm
        · exact counted.2.2 hm
      unfold cells at h ⊢
      rw [entries_eq, Function.update_of_ne hne]
      exact h
    refine ⟨hcount counted.1 gone, ⟨v, keep hdot (.inl rfl)⟩, ⟨w, keep hdd (.inr rfl)⟩,
      fun l hl hs => ?_, ?_⟩
    · rw [slots] at hs
      by_cases hlk : l = k
      · subst hlk
        exact ⟨j, (gone (l, j)).mpr ⟨fun e => other.1 (Prod.mk.inj e).2, other.2⟩⟩
      · obtain ⟨m, hm⟩ := acc.blocks l hl hs
        exact ⟨m, (gone (l, m)).mpr ⟨fun e => hlk (Prod.mk.inj e).1, hm⟩⟩
    · have := congrFun slots 140
      rw [slot_table, slot_table] at this
      rw [this]
      exact acc.noTable
  | dropped k i hk counted hno alone drop =>
    -- block 0 has `.`, which is neither counted nor `..`
    have hk0 : k ≠ 0 := by
      rintro rfl
      obtain ⟨hne, hname, -⟩ := binding_some.mp hdot
      rcases alone 0 hne with rfl | hdd'
      · exact counted.2.1 hname
      · rw [hname] at hdd'
        exact absurd hdd' (by decide)
    have only {m : Nat} (hm : (entries p inode (k, m)).fType ≠ 0) : m = i := by
      rcases alone m hm with rfl | hdd'
      · rfl
      · have := once (k, m) (0, 1) dotDotName _ w (binding_some.mpr ⟨hm, hdd', rfl, rfl⟩) hdd
        exact absurd (Prod.mk.inj this).1 hk0
    have gone (c' : Cell) : (entries p' inode' c').fType ≠ 0 ↔
        c' ≠ (k, i) ∧ (entries p inode c').fType ≠ 0 := by
      rw [drop.entries_eq]
      by_cases hc : c'.1 = k
      · rw [if_pos hc, emptyEntry_fType]
        refine ⟨fun h => absurd rfl h, fun h => ?_⟩
        obtain ⟨l, m⟩ := c'
        dsimp only at hc
        subst hc
        exact absurd (by rw [only h.2]) h.1
      · rw [if_neg hc]
        exact ⟨fun h => ⟨fun e => hc (congrArg Prod.fst e), h⟩, fun h => h.2⟩
    have keep {l : Nat} {b : Name × Nat × Nat} (h : cells p inode (0, l) = some b) :
        cells p' inode' (0, l) = some b := by
      unfold cells at h ⊢
      rw [drop.entries_eq, if_neg (Ne.symm hk0)]
      exact h
    have hk12 := acc.live_direct counted.1
    refine ⟨hcount counted.1 gone, ⟨v, keep hdot⟩, ⟨w, keep hdd⟩, fun l hl hs => ?_, ?_⟩
    · have hslot := drop.slots l (by omega)
      split at hslot
      · exact absurd hslot hs
      next hlk =>
        rw [hslot] at hs
        obtain ⟨m, hm⟩ := acc.blocks l hl hs
        exact ⟨m, (gone (l, m)).mpr ⟨fun e => hlk (Prod.mk.inj e).1, hm⟩⟩
    · have := drop.tableDirect hk12
      rw [slot_table, slot_table] at this
      rw [this]
      exact acc.noTable

/-! ## Runs -/

/-- The condition on a step: an insertion needs no more than the direct blocks. -/
def FitsDirect (d : Directory sb) : DirCall → Prop
  | .syncDirEntry _ _ _ _ => DirectRoom d.part d.inode
  | .deleteDirEntry _ => True

variable {d d' d₀ : Directory sb}

/-- A directory in order whose accounts are right. -/
structure Accounted (d : Directory sb) : Prop where
  good : d.Good
  accounts : Accounts d.part d.inode

theorem Accounted.step (acc : Accounted d) {e : DirCall} {b : Bool}
    (en : (dirMachine sb).enabled d e) (h : d.call e = .ok (d', b)) (fits : FitsDirect d e) :
    Accounted d' := by
  cases e with
  | syncDirEntry name n t ioBuf =>
    refine ⟨acc.good.sync en h (.inl fits), ?_⟩
    obtain ⟨pDe, hcreate, h⟩ := bind_eq_ok.mp h
    obtain ⟨⟨done, p', inode'⟩, hsync, h⟩ := bind_eq_ok.mp h
    cases h
    obtain rfl := syncDirEntry_true hsync
    obtain ⟨hname, _, _, _, hn, ht⟩ := en
    have ht32 : t < 2 ^ 32 ∧ t ≠ 0 := by
      rcases ht with rfl | rfl <;> decide
    have hlen := hname.2.1
    rw [createDirEntry_eq n t (by omega)] at hcreate
    cases hcreate
    obtain ⟨c, ins⟩ := syncDirEntry_direct acc.good.books fits hsync
    exact acc.accounts.insert (binding_some.mp (entryBuf_binding hname hn ht32.1 ht32.2)).1 ins
  | deleteDirEntry n =>
    refine ⟨acc.good.delete h, ?_⟩
    obtain ⟨⟨done, p', inode'⟩, hdelete, h⟩ := bind_eq_ok.mp h
    cases h
    cases b with
    | false =>
      obtain ⟨rfl, rfl⟩ := deleteBlocks_false hdelete
      exact acc.accounts
    | true => exact acc.accounts.delete acc.good.books acc.good.represents.once hdelete

end SeekingOs.Fs
