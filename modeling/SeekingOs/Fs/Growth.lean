import SeekingOs.Fs.File

/-!
# How a file grows

What the four ways of `file_write` to collect its blocks have in common: free blocks are taken, each
fills a slot that was empty, and `all_blocks` holds the slots that the write will use.
-/

namespace SeekingOs.Fs

open Lib

variable {sb : SuperBlock} {p p' p'' : Part sb} {inode : Inode} {b : Nat}

/-- Free blocks are taken, one for each index in `S`. -/
structure Acquired (p : Part sb) (S : Nat → Prop) (new : Nat → Nat) (p' : Part sb) : Prop where
  fresh : ∀ k, S k → sb.dataStartLba ≤ new k ∧ ¬ Taken p (new k)
  inj : ∀ j k, S j → S k → new j = new k → j = k
  taken : ∀ c, Taken p' c ↔ Taken p c ∨ ∃ k, S k ∧ new k = c
  inodeBitmap : p'.inodeBitmap = p.inodeBitmap

/-- Only sectors of the bitmaps are written. -/
def Synced (p p' : Part sb) : Prop := ∃ W, Wrote p W p' ∧ ∀ lba ∈ W, BitmapSector sb lba

theorem Synced.refl (p : Part sb) : Synced p p :=
  ⟨[], .refl p, fun _ h => absurd h List.not_mem_nil⟩

theorem Synced.trans (h : Synced p p') (h' : Synced p' p'') : Synced p p'' := by
  obtain ⟨W, hw, hm⟩ := h
  obtain ⟨W', hw', hm'⟩ := h'
  refine ⟨W ++ W', hw.trans hw', fun lba hl => ?_⟩
  rcases List.mem_append.mp hl with hl | hl
  · exact hm lba hl
  · exact hm' lba hl

theorem Acquired.none (p : Part sb) {S : Nat → Prop} (hS : ∀ k, ¬ S k) :
    Acquired p S (fun _ => 0) p where
  fresh k h := absurd h (hS k)
  inj j _ h := absurd h (hS j)
  taken c := by
    refine ⟨.inl, ?_⟩
    rintro (h | ⟨k, h, _⟩)
    · exact h
    · exact absurd h (hS k)
  inodeBitmap := rfl

theorem Acquired.one (h : Allocated p b p') (i : Nat) : Acquired p (· = i) (fun _ => b) p' where
  fresh _ _ := ⟨h.start, h.free⟩
  inj _ _ hj hk _ := hj.trans hk.symm
  taken c := by
    rw [h.taken, or_comm, exists_eq_left, eq_comm]
  inodeBitmap := h.inodeBitmap

/-- One more block, taken before the others. -/
theorem Acquired.cons {S S' : Nat → Prop} {new : Nat → Nat} {i : Nat} (first : Allocated p b p')
    (rest : Acquired p' S new p'') (hi : ¬ S i) (hS' : ∀ k, S' k ↔ k = i ∨ S k) :
    Acquired p S' (Function.update new i b) p'' := by
  have old {k : Nat} (hk : S k) : Function.update new i b k = new k := by
    refine Function.update_of_ne ?_ _ _
    rintro rfl
    exact hi hk
  have apart {k : Nat} (hk : S k) : new k ≠ b := fun e => (rest.fresh k hk).2 (e ▸ first.self)
  refine ⟨fun k hk => ?_, fun j k hj hk heq => ?_, fun c => ?_,
    rest.inodeBitmap.trans first.inodeBitmap⟩
  · rcases (hS' k).mp hk with rfl | hk
    · rw [Function.update_self]
      exact ⟨first.start, first.free⟩
    · rw [old hk]
      exact ⟨(rest.fresh k hk).1, fun ht => (rest.fresh k hk).2 ((first.taken _).mpr (.inr ht))⟩
  · rcases (hS' j).mp hj with rfl | hj <;> rcases (hS' k).mp hk with rfl | hk
    · rfl
    · rw [Function.update_self, old hk] at heq
      exact absurd heq.symm (apart hk)
    · rw [Function.update_self, old hj] at heq
      exact absurd heq (apart hj)
    · rw [old hj, old hk] at heq
      exact rest.inj j k hj hk heq
  · rw [rest.taken, first.taken]
    constructor
    · rintro ((rfl | h) | ⟨k, hk, rfl⟩)
      · exact .inr ⟨i, (hS' i).mpr (.inl rfl), Function.update_self _ _ _⟩
      · exact .inl h
      · exact .inr ⟨k, (hS' k).mpr (.inr hk), old hk⟩
    · rintro (h | ⟨k, hk, rfl⟩)
      · exact .inl (.inr h)
      · rcases (hS' k).mp hk with rfl | hk
        · rw [Function.update_self]
          exact .inl (.inl rfl)
        · rw [old hk]
          exact .inr ⟨k, hk, rfl⟩

theorem Acquired.ne_zero {S : Nat → Prop} {new : Nat → Nat} (h : Acquired p S new p')
    {k : Nat} (hk : S k) : new k ≠ 0 := by
  have h₁ := (h.fresh k hk).1
  have h₂ := sb.dataStart_pos
  omega

theorem Acquired.self {S : Nat → Prop} {new : Nat → Nat} (h : Acquired p S new p')
    {k : Nat} (hk : S k) :
    Taken p' (new k) := (h.taken _).mpr (.inr ⟨k, hk, rfl⟩)

theorem Acquired.congr {S : Nat → Prop} {new : Nat → Nat} (h : Acquired p S new p')
    (ht : ∀ c, Taken p'' c ↔ Taken p' c) (hi : p''.inodeBitmap = p'.inodeBitmap) :
    Acquired p S new p'' where
  fresh := h.fresh
  inj := h.inj
  taken c := by rw [ht, h.taken]
  inodeBitmap := hi.trans h.inodeBitmap

theorem Acquired.congr_slots {S S' : Nat → Prop} {new : Nat → Nat} (h : Acquired p S new p')
    (hS : ∀ k, S' k ↔ S k) :
    Acquired p S' new p' where
  fresh k hk := h.fresh k ((hS k).mp hk)
  inj j k hj hk := h.inj j k ((hS j).mp hj) ((hS k).mp hk)
  taken c := by
    rw [h.taken]
    simp only [hS]
  inodeBitmap := h.inodeBitmap

/-! ## The loop that allocates -/

theorem noteBlock_ok {allBlocks : Blocks} {k : Nat} {r : Inode × Blocks}
    (h : noteBlock inode allBlocks k b = .ok r) :
    (k < 12 → inode.iSectors k = 0) ∧ r.2 = Function.update allBlocks k b ∧
      r.1 = if k < 12 then inode.setSector k b else inode := by
  unfold noteBlock at h
  by_cases hk : k < 12
  · rw [if_pos hk] at h
    obtain ⟨_, hassert, h⟩ := bind_eq_ok.mp h
    cases h
    exact ⟨fun _ => assertThat_ok hassert, rfl, (if_pos hk).symm⟩
  · rw [if_neg hk] at h
    cases h
    exact ⟨fun h => absurd h hk, rfl, (if_neg hk).symm⟩

/-- The inode with new direct blocks. -/
def Inode.withNew (inode : Inode) (ks : List Nat) (new : Nat → Nat) : Inode :=
  { inode with iSectors := fun k => if k ∈ ks ∧ k < 12 then new k else inode.iSectors k }

/-- What the loop that allocates leaves behind. -/
structure Grew (g : Growth sb) (ks : List Nat) (new : Nat → Nat) (g' : Growth sb) : Prop where
  acquired : Acquired g.part (· ∈ ks) new g'.part
  synced : Synced g.part g'.part
  inode : g'.inode = g.inode.withNew ks new
  allBlocks : g'.allBlocks = fun k => if k ∈ ks then new k else g.allBlocks k
  empty : ∀ k ∈ ks, k < 12 → g.inode.iSectors k = 0

section Cons

variable {i k : Nat} {ks : List Nat} {new : Nat → Nat}

theorem update_mem (hi : i ∉ ks) (hk : k ∈ ks) : Function.update new i b k = new k := by
  refine Function.update_of_ne ?_ _ _
  rintro rfl
  exact hi hk

theorem allBlocks_cons (hi : i ∉ ks) (allBlocks : Blocks) :
    (fun k => if k ∈ ks then new k else Function.update allBlocks i b k) =
      fun k => if k ∈ i :: ks then Function.update new i b k else allBlocks k := by
  ext k
  by_cases hk : k ∈ ks
  · simp [hk, update_mem hi hk]
  · by_cases hki : k = i
    · subst hki
      simp [hk]
    · simp [hk, hki]

theorem withNew_cons (hi : i ∉ ks) :
    (if i < 12 then inode.setSector i b else inode).withNew ks new =
      inode.withNew (i :: ks) (Function.update new i b) := by
  unfold Inode.withNew
  by_cases h12 : i < 12
  · rw [if_pos h12]
    unfold Inode.setSector
    congr 1
    ext k
    by_cases hk : k ∈ ks
    · simp [hk, show k ≠ i from fun e => hi (e ▸ hk)]
    · by_cases hki : k = i
      · subst hki
        simp [hk, h12]
      · simp [hk, hki]
  · rw [if_neg h12]
    congr 1
    ext k
    by_cases hk : k ∈ ks
    · simp [hk, update_mem hi hk]
    · by_cases hki : k = i
      · subst hki
        simp [hk, h12]
      · simp [hk, hki]

end Cons

theorem growBlocks_ok {g : Growth sb} {ks : List Nat} {r : Bool × Growth sb} (hks : ks.Nodup)
    (h : growBlocks g ks = .ok r) : r.1 = true ∧ ∃ new, Grew g ks new r.2 := by
  induction ks generalizing g with
  | nil =>
    cases h
    refine ⟨rfl, fun _ => 0, .none _ fun _ => List.not_mem_nil, .refl _, ?_, ?_,
      fun k hk => absurd hk List.not_mem_nil⟩
    · simp [Inode.withNew]
    · simp
  | cons i ks ih =>
    obtain ⟨hi, hks⟩ := List.nodup_cons.mp hks
    unfold growBlocks at h
    obtain ⟨_, halloc, h⟩ := bind_eq_ok.mp h
    obtain ⟨b, p₁, rfl, first⟩ := blockBitmapAlloc_ok halloc
    obtain ⟨⟨inode, allBlocks⟩, hnote, h⟩ := bind_eq_ok.mp h
    obtain ⟨hzero, hall, hinode⟩ := noteBlock_ok hnote
    dsimp only at hall hinode
    subst hall hinode
    obtain ⟨hr, new, rest⟩ := ih hks h
    refine ⟨hr, Function.update new i b, .cons first rest.acquired hi fun k => List.mem_cons,
      Synced.trans first.wrote rest.synced, ?_, ?_, fun k hk hlt => ?_⟩
    · rw [rest.inode, withNew_cons hi]
    · rw [rest.allBlocks, allBlocks_cons hi]
    · rcases List.mem_cons.mp hk with rfl | hk'
      · exact hzero hlt
      · have hne : k ≠ i := fun e => hi (e ▸ hk')
        have := rest.empty k hk' hlt
        dsimp only at this
        split at this
        · rwa [setSector_other _ _ hne] at this
        · exact this

/-! ## The four ways to collect the blocks -/

/-- The slots that a write fills: the new blocks, and the indirect table when it comes to be. -/
def growthSlots (has will k : Nat) : Prop := has ≤ k ∧ k < will ∨ k = 140 ∧ has ≤ 12 ∧ 12 < will

instance (has will k : Nat) : Decidable (growthSlots has will k) :=
  inferInstanceAs (Decidable (has ≤ k ∧ k < will ∨ k = 140 ∧ has ≤ 12 ∧ 12 < will))

/-- What collecting the blocks leaves behind. -/
structure Collected (p : Part sb) (inode : Inode) (has will : Nat) (new : Nat → Nat)
    (g : Growth sb) : Prop where
  acquired : Acquired p (growthSlots has will) new g.part
  at_new : ∀ k, growthSlots has will k → slot g.part g.inode k = new k
  at_old : ∀ k, ¬ growthSlots has will k → slot g.part g.inode k = slot p inode k
  blocks : ∀ k < 140, g.allBlocks k = slot g.part g.inode k ∨ g.allBlocks k = 0
  used : ∀ k < will, has ≤ k + 1 → g.allBlocks k = slot g.part g.inode k
  inode : g.inode = { inode with iSectors := g.inode.iSectors }
  wrote : ∃ W, Wrote p W g.part ∧ ∀ lba ∈ W, BitmapSector sb lba ∨
    lba = slot g.part g.inode 140 ∧ lba ≠ 0

/-- A block is apart from the sectors of the bitmaps. -/
theorem Synced.tableEntry {t k : Nat} (h : Synced p p') (ht : sb.dataStartLba ≤ t) (hk : k < 128) :
    tableEntry p' t k = tableEntry p t k := by
  obtain ⟨W, hw, hm⟩ := h
  refine hw.tableEntry (fun hmem => ?_) hk
  have := (hm t hmem).lt
  omega

variable {has will : Nat}

theorem lastBlock_ok {r : Bool × Growth sb} (hwill : will ≤ 140) (hpos : 1 ≤ will)
    (h : lastBlock p inode will = .ok r) :
    r.1 = true ∧ ∃ new, Collected p inode will will new r.2 := by
  have hno (k : Nat) : ¬ growthSlots will will k := by
    unfold growthSlots
    omega
  unfold lastBlock at h
  by_cases h12 : will ≤ 12
  · rw [if_pos h12] at h
    cases h
    refine ⟨rfl, _, .none p hno, fun k hk => absurd hk (hno k), fun k _ => rfl, fun k hk => ?_,
      fun k hk hle => ?_, rfl,
      [], .refl p, fun _ h => absurd h List.not_mem_nil⟩
    · dsimp only
      by_cases hkw : k = will - 1
      · subst hkw
        rw [Function.update_self, slot_direct (by omega)]
        exact .inl rfl
      · rw [Function.update_of_ne hkw]
        exact .inr rfl
    · dsimp only
      rw [show k = will - 1 by omega, Function.update_self, slot_direct (by omega)]
  · rw [if_neg h12] at h
    obtain ⟨_, hassert, h⟩ := bind_eq_ok.mp h
    have ht := assertThat_ok hassert
    cases h
    have htable {k : Nat} (hk : 12 ≤ k) (hk' : k < 140) :
        readTable p (inode.iSectors 12) (fun _ => 0) k = slot p inode k := by
      rw [slot_indirect hk hk', if_neg ht, readTable, if_pos ⟨hk, hk'⟩]
    refine ⟨rfl, _, .none p hno, fun k hk => absurd hk (hno k), fun k _ => rfl, fun k hk => ?_,
      fun k hk hle => ?_, rfl,
      [], .refl p, fun _ h => absurd h List.not_mem_nil⟩
    · by_cases hk12 : 12 ≤ k
      · exact .inl (htable hk12 hk)
      · refine .inr ?_
        dsimp only
        rw [readTable, if_neg (by omega)]
    · exact htable (by omega) (by omega)

theorem mem_newBlocks {k : Nat} : k ∈ newBlocks has will ↔ has ≤ k ∧ k < will := by
  unfold newBlocks
  rw [List.mem_range'_1]
  omega

theorem nodup_newBlocks : (newBlocks has will).Nodup := List.nodup_range'

theorem withNew_sector {ks : List Nat} {new : Nat → Nat} {k : Nat} (hk : k ∈ ks) (hlt : k < 12) :
    (inode.withNew ks new).iSectors k = new k := if_pos ⟨hk, hlt⟩

theorem withNew_other {ks : List Nat} {new : Nat → Nat} {k : Nat} (h : ¬ (k ∈ ks ∧ k < 12)) :
    (inode.withNew ks new).iSectors k = inode.iSectors k := if_neg h

/-- Situation 1. The table of the file, if any, is not touched. -/
theorem growDirect_ok {r : Bool × Growth sb}
    (htable : inode.iSectors 12 = 0 ∨ sb.dataStartLba ≤ inode.iSectors 12) (hhas : 1 ≤ has)
    (hle : has ≤ will) (hwill : will ≤ 12) (h : growDirect p inode has will = .ok r) :
    r.1 = true ∧ ∃ new, Collected p inode has will new r.2 := by
  unfold growDirect at h
  obtain ⟨last, hlast, h⟩ := bind_eq_ok.mp h
  obtain ⟨_, _, h⟩ := bind_eq_ok.mp h
  obtain ⟨hr, new, grew⟩ := growBlocks_ok nodup_newBlocks h
  obtain ⟨b, g⟩ := r
  obtain ⟨hacq, hsync, hinode, hall, _⟩ := grew
  dsimp only at hr hacq hsync hinode hall ⊢
  have hlast' : last = inode.iSectors (has - 1) := by
    unfold sectorAt at hlast
    rw [if_pos (by omega)] at hlast
    exact (Except.ok.inj hlast).symm
  have hS (k : Nat) : growthSlots has will k ↔ k ∈ newBlocks has will := by
    rw [mem_newBlocks]
    unfold growthSlots
    omega
  have h12 : g.inode.iSectors 12 = inode.iSectors 12 := by
    rw [hinode, withNew_other (by omega)]
  have at_new (k : Nat) (hk : k ∈ newBlocks has will) : slot g.part g.inode k = new k := by
    have hlt := mem_newBlocks.mp hk
    rw [slot_direct (by omega), hinode, withNew_sector hk (by omega)]
  have at_old (k : Nat) (hk : k ∉ newBlocks has will) : slot g.part g.inode k = slot p inode k := by
    by_cases h1 : k < 12
    · rw [slot_direct h1, slot_direct h1, hinode, withNew_other fun h => hk h.1]
    by_cases h2 : k < 140
    · rw [slot_indirect (by omega) h2, slot_indirect (by omega) h2, h12]
      rcases htable with h0 | h0
      · rw [if_pos h0, if_pos h0]
      · rw [hsync.tableEntry h0 (by omega)]
    by_cases h3 : k = 140
    · rw [h3, slot_table, slot_table, h12]
    · rw [slot_beyond (by omega), slot_beyond (by omega)]
  have all_new (k : Nat) (hk : k ∈ newBlocks has will) : g.allBlocks k = slot g.part g.inode k := by
    rw [at_new k hk, hall]
    exact if_pos hk
  have all_last : g.allBlocks (has - 1) = slot g.part g.inode (has - 1) := by
    have hno : has - 1 ∉ newBlocks has will := fun hk => by
      have := mem_newBlocks.mp hk
      omega
    rw [at_old _ hno, slot_direct (by omega), hall]
    simp only [hno, ↓reduceIte]
    rw [Function.update_self, hlast']
  refine ⟨hr, new, ⟨fun k hk => hacq.fresh k ((hS k).mp hk), fun j k hj hk =>
    hacq.inj j k ((hS j).mp hj) ((hS k).mp hk),
    fun c => ?_, hacq.inodeBitmap⟩, fun k hk => at_new k ((hS k).mp hk),
    fun k hk => at_old k fun h => hk ((hS k).mpr h),
    fun k hk => ?_, fun k hk hle' => ?_, ?_, ?_⟩
  · rw [hacq.taken]
    simp only [hS]
  · by_cases hmem : k ∈ newBlocks has will
    · exact .inl (all_new k hmem)
    by_cases hkl : k = has - 1
    · rw [hkl]
      exact .inl all_last
    · refine .inr ?_
      rw [hall]
      simp only [hmem, ↓reduceIte]
      exact Function.update_of_ne hkl _ _
  · by_cases hmem : k ∈ newBlocks has will
    · exact all_new k hmem
    · rw [mem_newBlocks] at hmem
      rw [show k = has - 1 by omega]
      exact all_last
  · rw [hinode]
    rfl
  · obtain ⟨W, hw, hm⟩ := hsync
    exact ⟨W, hw, fun lba hl => .inl (hm lba hl)⟩

/-- The slots of an inode whose table was just written. -/
theorem slot_writeTable {t k : Nat} {allBlocks : Blocks} (ht : inode.iSectors 12 = t) (hne : t ≠ 0)
    (hfit : ∀ k < 140, allBlocks k < 2 ^ 32) (hk : 12 ≤ k) (hk' : k < 140) :
    slot (writeTable p t allBlocks) inode k = allBlocks k := by
  rw [slot_indirect hk hk', ht, if_neg hne, tableEntry_writeTable (by omega) (hfit _ (by omega)),
    show 12 + (k - 12) = k by omega]

/-- Situations 2 and 3: after the loop the table is written. The loop started from an inode
with the table's block `t` and from `ab`, which holds the indirect blocks of the file and its last
block. -/
theorem stored_collected {g : Growth sb} {inode₁ : Inode} {ab : Blocks} {new new' : Nat → Nat}
    {t : Nat} (hacq : Acquired p (growthSlots has will) new' g.part) (hsync : Synced p g.part)
    (hinode : g.inode = inode₁.withNew (newBlocks has will) new)
    (hall : g.allBlocks = fun k => if k ∈ newBlocks has will then new k else ab k) (hhas : 1 ≤ has)
    (hle : has ≤ will) (hwill : will ≤ 140) (ht : t ≠ 0)
    (hnew : ∀ k ∈ newBlocks has will, new' k = new k) (hfit : ∀ k < 140, ab k < 2 ^ 32)
    (hrest : inode₁ = { inode with iSectors := inode₁.iSectors }) (h12 : inode₁.iSectors 12 = t)
    (hother : ∀ k < 12, inode₁.iSectors k = inode.iSectors k)
    (htable : if growthSlots has will 140 then new' 140 = t else inode.iSectors 12 = t)
    (hindirect : ∀ k < 140, 12 ≤ k → ab k = slot p inode k)
    (hdirect : ∀ k < 12, ab k = slot p inode k ∨ ab k = 0)
    (hlast : ab (has - 1) = slot p inode (has - 1)) :
    Collected p inode has will new' { g with part := writeTable g.part t g.allBlocks } := by
  have hS {k : Nat} (hk : k < 140) : growthSlots has will k ↔ k ∈ newBlocks has will := by
    rw [mem_newBlocks]
    unfold growthSlots
    omega
  have ht12 : g.inode.iSectors 12 = t := by
    rw [hinode, withNew_other (by omega), h12]
  have hnew32 {k : Nat} (hk : k ∈ newBlocks has will) : new k < 2 ^ 32 := by
    have hlt := mem_newBlocks.mp hk
    rw [← hnew k hk]
    exact (hacq.self ((hS (by omega)).mpr hk)).lt_u32
  have hfit' (k : Nat) (hk : k < 140) : g.allBlocks k < 2 ^ 32 := by
    rw [hall]
    dsimp only
    split
    next hmem => exact hnew32 hmem
    next => exact hfit k hk
  have hslot {k : Nat} (hk : 12 ≤ k) (hk' : k < 140) :
      slot (writeTable g.part t g.allBlocks) g.inode k = g.allBlocks k :=
    slot_writeTable ht12 ht hfit' hk hk'
  have at_new (k : Nat) (hk : growthSlots has will k) :
      slot (writeTable g.part t g.allBlocks) g.inode k = new' k := by
    by_cases h140 : k = 140
    · subst h140
      rw [if_pos hk] at htable
      rw [slot_table, ht12, htable]
    · have hlt : k < 140 := by
        unfold growthSlots at hk
        omega
      have hmem := (hS hlt).mp hk
      by_cases h1 : k < 12
      · rw [slot_direct h1, hinode, withNew_sector hmem h1, hnew k hmem]
      · rw [hslot (by omega) hlt, hall, hnew k hmem]
        exact if_pos hmem
  have at_old (k : Nat) (hk : ¬ growthSlots has will k) :
      slot (writeTable g.part t g.allBlocks) g.inode k = slot p inode k := by
    by_cases h1 : k < 12
    · rw [slot_direct h1, slot_direct h1, hinode,
        withNew_other fun h => hk ((hS (by omega)).mpr h.1), hother k h1]
    by_cases h2 : k < 140
    · rw [hslot (by omega) h2, hall, ← hindirect k h2 (by omega)]
      exact if_neg fun h => hk ((hS h2).mpr h)
    by_cases h3 : k = 140
    · subst h3
      rw [if_neg hk] at htable
      rw [slot_table, slot_table, ht12, htable]
    · rw [slot_beyond (by omega), slot_beyond (by omega)]
  have all_new (k : Nat) (hk : k ∈ newBlocks has will) :
      g.allBlocks k = slot (writeTable g.part t g.allBlocks) g.inode k := by
    have hlt := mem_newBlocks.mp hk
    rw [at_new k ((hS (by omega)).mpr hk), hnew k hk, hall]
    exact if_pos hk
  have all_old (k : Nat) (hlt : k < 140) (hk : k ∉ newBlocks has will)
      (hab : ab k = slot p inode k) :
      g.allBlocks k = slot (writeTable g.part t g.allBlocks) g.inode k := by
    rw [at_old k fun h => hk ((hS hlt).mp h), ← hab, hall]
    exact if_neg hk
  refine ⟨hacq.congr (taken_congr rfl) rfl, at_new, at_old, fun k hk => ?_,
    fun k hk hle' => ?_, ?_, ?_⟩
  · by_cases hmem : k ∈ newBlocks has will
    · exact .inl (all_new k hmem)
    by_cases h1 : k < 12
    · rcases hdirect k h1 with hab | hab
      · exact .inl (all_old k hk hmem hab)
      · refine .inr ?_
        dsimp only
        rw [hall, ← hab]
        exact if_neg hmem
    · exact .inl (all_old k hk hmem (hindirect k hk (by omega)))
  · by_cases hmem : k ∈ newBlocks has will
    · exact all_new k hmem
    · refine all_old k (by omega) hmem ?_
      rw [mem_newBlocks] at hmem
      rw [show k = has - 1 by omega]
      exact hlast
  · dsimp only
    rw [hinode, hrest]
    rfl
  · obtain ⟨W, hw, hm⟩ := hsync
    refine ⟨_, hw.trans (wrote_ideWrite _ _ _ _), fun lba hl => ?_⟩
    rcases List.mem_append.mp hl with hl | hl
    · exact .inl (hm lba hl)
    · rw [List.mem_range'_1] at hl
      refine .inr ?_
      rw [slot_table]
      dsimp only
      omega

/-- Situation 2. -/
theorem growAcross_ok {r : Bool × Growth sb} (hhas : 1 ≤ has) (hhas' : has ≤ 12) (hwill : 12 < will)
    (hwill' : will ≤ 140) (hfit : ∀ k < 12, inode.iSectors k < 2 ^ 32)
    (h : growAcross p inode has will = .ok r) :
    r.1 = true ∧ ∃ new, Collected p inode has will new r.2 := by
  unfold growAcross at h
  obtain ⟨_, halloc, h⟩ := bind_eq_ok.mp h
  obtain ⟨t, p₁, rfl, first⟩ := blockBitmapAlloc_ok halloc
  obtain ⟨_, hassert, h⟩ := bind_eq_ok.mp h
  obtain ⟨⟨b, g⟩, hgrow, h⟩ := bind_eq_ok.mp h
  have h0 := assertThat_ok hassert
  obtain ⟨hr, new, grew⟩ := growBlocks_ok nodup_newBlocks hgrow
  dsimp only at hr grew
  subst hr
  cases h
  have h140 : growthSlots has will 140 := .inr ⟨rfl, hhas', hwill⟩
  have hno : 140 ∉ newBlocks has will := fun hk => by
    have := mem_newBlocks.mp hk
    omega
  have hacq : Acquired p (growthSlots has will) (Function.update new 140 t) g.part := by
    refine .cons first grew.acquired hno fun k => ?_
    rw [mem_newBlocks]
    unfold growthSlots
    omega
  refine ⟨rfl, _, stored_collected hacq (Synced.trans first.wrote grew.synced) grew.inode
    grew.allBlocks hhas (by omega) hwill'
    first.ne_zero (fun k hk => update_mem hno hk) (fun k _ => ?_) rfl (setSector_same _ _ _)
    (fun k hk => setSector_other _ _ (by omega)) ?_ (fun k hk hle => ?_) (fun k hk => ?_) ?_⟩
  · dsimp only
    by_cases hkh : k = has - 1
    · rw [hkh, Function.update_self]
      exact hfit _ (by omega)
    · rw [Function.update_of_ne hkh]
      decide
  · rw [if_pos h140, Function.update_self]
  · dsimp only
    rw [Function.update_of_ne (by omega), slot_indirect hle hk, if_pos h0]
  · dsimp only
    by_cases hkh : k = has - 1
    · rw [hkh, Function.update_self, slot_direct (by omega)]
      exact .inl rfl
    · rw [Function.update_of_ne hkh]
      exact .inr rfl
  · dsimp only
    rw [Function.update_self, slot_direct (by omega)]

/-- Situation 3. -/
theorem growIndirect_ok {r : Bool × Growth sb} (hhas : 12 < has) (hle : has ≤ will)
    (hwill : will ≤ 140) (h : growIndirect p inode has will = .ok r) :
    r.1 = true ∧ ∃ new, Collected p inode has will new r.2 := by
  unfold growIndirect at h
  obtain ⟨_, hassert, h⟩ := bind_eq_ok.mp h
  obtain ⟨⟨b, g⟩, hgrow, h⟩ := bind_eq_ok.mp h
  have h0 := assertThat_ok hassert
  obtain ⟨hr, new, grew⟩ := growBlocks_ok nodup_newBlocks hgrow
  dsimp only at hr grew
  subst hr
  cases h
  have h140 : ¬ growthSlots has will 140 := by
    unfold growthSlots
    omega
  have hacq : Acquired p (growthSlots has will) new g.part := by
    refine grew.acquired.congr_slots fun k => ?_
    rw [mem_newBlocks]
    unfold growthSlots
    omega
  have htable (k : Nat) (hk : k < 140) (hle : 12 ≤ k) :
      readTable p (inode.iSectors 12) (fun _ => 0) k = slot p inode k := by
    rw [slot_indirect hle hk, if_neg h0, readTable, if_pos ⟨hle, hk⟩]
  refine ⟨rfl, new, stored_collected hacq grew.synced grew.inode grew.allBlocks (by omega) hle hwill
    h0 (fun _ _ => rfl)
    (fun k _ => ?_) rfl rfl (fun _ _ => rfl) ?_ htable (fun k hk => .inr ?_)
      (htable _ (by omega) (by omega))⟩
  · dsimp only [readTable]
    split
    · exact tableEntry_lt
    · decide
  · rw [if_neg h140]
  · dsimp only [readTable]
    rw [if_neg (by omega)]

/-- WHAT COLLECTING THE BLOCKS DOES, in all four ways. -/
theorem collectForWrite_ok {r : Bool × Growth sb}
    (htable : inode.iSectors 12 = 0 ∨ sb.dataStartLba ≤ inode.iSectors 12)
    (hfit : ∀ k < 12, inode.iSectors k < 2 ^ 32) (hhas : 1 ≤ has) (hle : has ≤ will)
    (hwill : will ≤ 140) (h : collectForWrite p inode has will = .ok r) :
    r.1 = true ∧ ∃ new, Collected p inode has will new r.2 := by
  unfold collectForWrite at h
  by_cases heq : will = has
  · rw [if_pos heq] at h
    subst heq
    exact lastBlock_ok hwill hhas h
  rw [if_neg heq] at h
  by_cases h12 : will ≤ 12
  · rw [if_pos h12] at h
    exact growDirect_ok htable hhas hle h12 h
  rw [if_neg h12] at h
  by_cases hhas12 : has ≤ 12
  · rw [if_pos hhas12] at h
    exact growAcross_ok hhas hhas12 (by omega) hwill hfit h
  · rw [if_neg hhas12] at h
    exact growIndirect_ok (by omega) hle hwill h

theorem storeTable_inode (t : Nat) (r : Bool × Growth sb) :
    (storeTable t r).2.inode = r.2.inode := by
  obtain ⟨b, g⟩ := r
  cases b <;> rfl

theorem storeTable_fst (t : Nat) (r : Bool × Growth sb) : (storeTable t r).1 = r.1 := by
  obtain ⟨b, g⟩ := r
  cases b <;> rfl

/-- Collecting the blocks does not fail, a full bitmap apart, which stops the kernel; and it changes
no other field of the inode. -/
theorem collectForWrite_rest {r : Bool × Growth sb} (h : collectForWrite p inode has will = .ok r) :
    r.1 = true ∧ r.2.inode.iNo = inode.iNo ∧ r.2.inode.iSize = inode.iSize := by
  have grown {g : Growth sb} {q : Bool × Growth sb}
      (h : growBlocks g (newBlocks has will) = .ok q) :
      q.1 = true ∧ q.2.inode.iNo = g.inode.iNo ∧ q.2.inode.iSize = g.inode.iSize := by
    obtain ⟨hq, new, grew⟩ := growBlocks_ok nodup_newBlocks h
    rw [grew.inode]
    exact ⟨hq, rfl, rfl⟩
  unfold collectForWrite at h
  split at h
  · unfold lastBlock at h
    split at h
    · cases h
      exact ⟨rfl, rfl, rfl⟩
    · obtain ⟨_, _, h⟩ := bind_eq_ok.mp h
      cases h
      exact ⟨rfl, rfl, rfl⟩
  split at h
  · unfold growDirect at h
    obtain ⟨_, _, h⟩ := bind_eq_ok.mp h
    obtain ⟨_, _, h⟩ := bind_eq_ok.mp h
    exact grown h
  split at h
  · unfold growAcross at h
    obtain ⟨_, halloc, h⟩ := bind_eq_ok.mp h
    obtain ⟨t, p₁, rfl, _⟩ := blockBitmapAlloc_ok halloc
    obtain ⟨_, _, h⟩ := bind_eq_ok.mp h
    obtain ⟨_, hgrow, h⟩ := bind_eq_ok.mp h
    cases h
    rw [storeTable_inode, storeTable_fst]
    exact grown hgrow
  · unfold growIndirect at h
    obtain ⟨_, _, h⟩ := bind_eq_ok.mp h
    obtain ⟨_, hgrow, h⟩ := bind_eq_ok.mp h
    cases h
    rw [storeTable_inode, storeTable_fst]
    exact grown hgrow

end SeekingOs.Fs
