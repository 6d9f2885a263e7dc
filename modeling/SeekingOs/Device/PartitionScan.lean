import Mathlib.Data.List.Perm.Basic
import SeekingOs.Device.Partitions

/-!
# What a scan of partition tables does

A scan that comes to its end has recorded what the tables hold, or the partitions up to the eighth
logical one. So whether it does is a question about the tables.
-/

namespace SeekingOs.Device

open Lib

variable {A B : Type}

/-- Elements put into an array from `n` on. -/
def place (mk : Nat → A → B) : Nat → List A → (Nat → B) → Nat → B
  | _, [], f => f
  | n, x :: xs, f => place mk (n + 1) xs (Function.update f n (mk n x))

/-- Elements put behind elements. -/
theorem place_append (mk : Nat → A → B) (n : Nat) (xs ys : List A) (f : Nat → B) :
    place mk n (xs ++ ys) f = place mk (n + xs.length) ys (place mk n xs f) := by
  induction xs generalizing n f with
  | nil => rfl
  | cons x xs ih =>
    rw [List.cons_append, place, ih, List.length_cons, place]
    congr 1
    omega

/-- An array with elements put in. -/
theorem place_apply (mk : Nat → A → B) (n : Nat) (xs : List A) (f : Nat → B) (i : Nat) :
    place mk n xs f i = if n ≤ i then (xs[i - n]?.map (mk i)).getD (f i) else f i := by
  induction xs generalizing n f with
  | nil => simp [place]
  | cons x xs ih =>
    rw [place, ih]
    by_cases hlt : i < n
    · rw [if_neg (by omega), if_neg (by omega), Function.update_of_ne (by omega)]
    by_cases heq : i = n
    · subst heq
      rw [if_neg (by omega), if_pos (Nat.le_refl _), Function.update_self, Nat.sub_self]
      rfl
    · rw [if_pos (by omega), if_pos (by omega), Function.update_of_ne heq,
        show i - n = i - (n + 1) + 1 by omega,
        List.getElem?_cons_succ]

/-- The list elements of `n` partitions. -/
def refsFrom (hd : Drive) (logic : Bool) (start n : Nat) : List PartRef :=
  (List.range' start n).map fun i => ⟨hd, logic, i⟩

theorem refsFrom_add (hd : Drive) (logic : Bool) (start m n : Nat) :
    refsFrom hd logic start (m + n) =
      refsFrom hd logic start m ++ refsFrom hd logic (start + m) n := by
  unfold refsFrom
  rw [← List.map_append, List.range'_append_1]

/-- The variables when these partitions are recorded. -/
def Ide.record (hd : Drive) (base' : Nat) (prims logics : List (Nat × Nat)) (refs : List PartRef)
    (s : Ide) : Ide where
  extLbaBase := base'
  pNo := s.pNo + prims.length
  lNo := s.lNo + logics.length
  primParts := Function.update s.primParts hd (place (primPart hd) s.pNo prims (s.primParts hd))
  logicParts :=
    Function.update s.logicParts hd (place (logicPart hd) s.lNo logics (s.logicParts hd))
  partitionList := s.partitionList ++ refs

/-- Each of them is put on the list once. -/
def Ide.Lists (s : Ide) (hd : Drive) (prims logics : List (Nat × Nat)) (refs : List PartRef) :
    Prop :=
  refs.Perm (refsFrom hd false s.pNo prims.length ++ refsFrom hd true s.lNo logics.length)

variable {hd : Drive} {disk : Sectors} {s s' s'' : Ide} {lba base' base'' : Nat}
  {es : List TableEntry} {p : TableEntry}
  {prims logics prims' logics' : List (Nat × Nat)} {refs refs' : List PartRef}
    {scan : Nat → Ide → Scanned}

theorem record_record :
    (s.record hd base' prims logics refs).record hd base'' prims' logics' refs' =
    s.record hd base'' (prims ++ prims') (logics ++ logics') (refs ++ refs') := by
  unfold Ide.record
  simp only [Function.update_self, Function.update_idem, place_append, List.length_append,
    Nat.add_assoc, List.append_assoc]

theorem lists_append (h : s.Lists hd prims logics refs)
    (h' : (s.record hd base' prims logics refs).Lists hd prims' logics' refs') :
    s.Lists hd (prims ++ prims') (logics ++ logics') (refs ++ refs') := by
  unfold Ide.Lists at h h' ⊢
  rw [List.length_append, List.length_append, refsFrom_add, refsFrom_add]
  refine (h.append h').trans ?_
  dsimp only [Ide.record]
  rw [List.append_assoc, List.append_assoc]
  apply List.Perm.append_left
  rw [← List.append_assoc, ← List.append_assoc]
  exact List.Perm.append_right _ List.perm_append_comm

/-- WHAT A SCAN HAS DONE when it is at its end. -/
def Scans (hd : Drive) (disk : Sectors) (s : Ide) (lba : Nat) (es : List TableEntry) (s' : Ide) :
    Prop :=
  ∃ base' prims logics refs, s' = s.record hd base' prims logics refs ∧
    s.Lists hd prims logics refs ∧ s.pNo + prims.length < 4 ∧
    (Holds disk s.extLbaBase lba es base' prims logics ∧ (s.lNo + logics.length < 8 ∨ logics = []) ∨
      Fills disk s.extLbaBase lba es base' prims logics ∧ s.lNo + logics.length = 8)

/-- The indices are in their arrays, and a scan may start. -/
structure Ide.InRange (s : Ide) : Prop where
  pNo : s.pNo < 4
  lNo : s.lNo ≤ 8

theorem Fills.logics_ne {base : Nat} (h : Fills disk base lba es base' prims logics) :
    logics ≠ [] := by
  induction h with
  | last => exact List.cons_ne_nil _ _
  | unused _ _ ih => exact ih
  | primary _ _ ih => exact ih
  | logical => exact List.cons_ne_nil _ _
  | before _ _ _ _ ih => simp [ih]
  | inside _ _ _ _ ih => exact ih

/-! ## The parts of a scan -/

theorem Scanned.andThen_ok {r : Scanned} {next : Ide → Scanned}
    (h : r.andThen next = some (.ok s')) : ∃ t, r = some (.ok t) ∧ next t = some (.ok s') := by
  match r, h with
  | some (.ok t), h => exact ⟨t, rfl, h⟩

/-- One sector can be read when the driver reaches it. -/
theorem ideRead_one {ready : Nat → Bool} {hd : Disk} {buf : Nat} (answers : ∀ k, ready k = true) :
    (∃ rounds, ideRead ready hd lba buf 1 = .ok rounds) ↔ lba < maxLba := by
  constructor
  · rintro ⟨rounds, h⟩
    unfold ideRead transfer at h
    obtain ⟨-, -, h⟩ := bind_eq_ok.mp h
    obtain ⟨-, -, h⟩ := bind_eq_ok.mp h
    rw [transferLoop, dif_pos (by decide)] at h
    obtain ⟨regs, h, -⟩ := bind_eq_ok.mp h
    unfold selectSector at h
    obtain ⟨u, h, -⟩ := bind_eq_ok.mp h
    exact assertThat_ok h
  · intro hlt
    obtain ⟨rounds, h, -⟩ :=
      @transferLoop_covers hd lba buf 1 0 cmdReadSector "ide_read" "read" ready (by omega)
        answers (by omega)
    refine ⟨rounds, ?_⟩
    unfold ideRead transfer
    rw [assertThat_of (show lba ≤ maxLba by omega), ok_bind, assertThat_of (by decide), ok_bind, h]

theorem addPrim_ok {part : Nat × Nat} (h : s.addPrim hd part = some (.ok s')) :
    s' = s.record hd s.extLbaBase [part] [] [⟨hd, false, s.pNo⟩] ∧ s.pNo + 1 < 4 := by
  unfold Ide.addPrim at h
  split at h
  · have h := Option.some.inj h
    obtain ⟨u, hassert, h⟩ := bind_eq_ok.mp h
    have hlt := assertThat_ok hassert
    refine ⟨?_, hlt⟩
    rw [← Except.ok.inj h]
    simp [Ide.record, place]
  · cases h

theorem addPrim_eq {part : Nat × Nat} (h : s.pNo + 1 < 4) :
    s.addPrim hd part = some (.ok (s.record hd s.extLbaBase [part] [] [⟨hd, false, s.pNo⟩])) := by
  unfold Ide.addPrim
  rw [if_pos (by omega)]
  simp [Ide.record, place, assertThat_of h]

theorem addLogic_eq {part : Nat × Nat} (h : s.lNo < 8) :
    s.addLogic hd part = some (.ok (s.record hd s.extLbaBase [] [part] [⟨hd, true, s.lNo⟩])) := by
  unfold Ide.addLogic
  rw [if_pos h]
  simp [Ide.record, place]

theorem addLogic_ok {part : Nat × Nat} (h : s.addLogic hd part = some (.ok s')) :
    s' = s.record hd s.extLbaBase [] [part] [⟨hd, true, s.lNo⟩] ∧ s.lNo < 8 := by
  by_cases hlt : s.lNo < 8
  · rw [addLogic_eq hlt] at h
    exact ⟨(Except.ok.inj (Option.some.inj h)).symm, hlt⟩
  · unfold Ide.addLogic at h
    rw [if_neg hlt] at h
    cases h

/-! ## What a scan does -/

@[simp] theorem record_extLbaBase : (s.record hd base' prims logics refs).extLbaBase = base' := rfl

@[simp] theorem record_pNo : (s.record hd base' prims logics refs).pNo = s.pNo + prims.length := rfl

@[simp] theorem record_lNo : (s.record hd base' prims logics refs).lNo = s.lNo + logics.length :=
  rfl

/-- Where the tables count from is set. -/
def Ide.rebase (s : Ide) (base : Nat) : Ide := { s with extLbaBase := base }

theorem scan_extended (scan : Nat → Ide → Scanned) (p : TableEntry) (s : Ide) :
    (if s.extLbaBase ≠ 0 then scan (u32 (p.startLba + s.extLbaBase : Nat)) s
      else scan p.startLba { s with extLbaBase := p.startLba }) =
      scan (p.target s.extLbaBase) (s.rebase (p.newBase s.extLbaBase)) := by
  unfold TableEntry.target TableEntry.newBase
  by_cases h : s.extLbaBase ≠ 0
  · rw [if_pos h, if_pos h, if_pos h]
    rfl
  · rw [if_neg h, if_neg h, if_neg h]
    rfl

theorem Scans.inRange (h : Scans hd disk s lba es s') (hs : s.InRange) : s'.InRange := by
  obtain ⟨base', prims, logics, refs, rfl, -, hp, ⟨-, hl | rfl⟩ | ⟨-, hl⟩⟩ := h
  · exact ⟨hp, Nat.le_of_lt hl⟩
  · exact ⟨hp, hs.lNo⟩
  · exact ⟨hp, Nat.le_of_eq hl⟩

theorem Scans.nil (hs : s.InRange) : Scans hd disk s lba [] s := by
  refine ⟨s.extLbaBase, [], [], [], ?_, List.Perm.refl _, hs.pNo, .inl ⟨.nil _ _, .inr rfl⟩⟩
  simp [Ide.record, place]

theorem Scans.unused (free : p.fsType = 0) (h : Scans hd disk s lba es s') :
    Scans hd disk s lba (p :: es) s' := by
  obtain ⟨base', prims, logics, refs, heq, hlists, hp, ⟨holds, hl⟩ | ⟨fills, hl⟩⟩ := h
  · exact ⟨base', prims, logics, refs, heq, hlists, hp, .inl ⟨.unused free holds, hl⟩⟩
  · exact ⟨base', prims, logics, refs, heq, hlists, hp, .inr ⟨.unused free fills, hl⟩⟩

theorem lists_prim (s : Ide) (part : Nat × Nat) : s.Lists hd [part] [] [⟨hd, false, s.pNo⟩] :=
  List.Perm.refl _

theorem lists_logic (s : Ide) (part : Nat × Nat) : s.Lists hd [] [part] [⟨hd, true, s.lNo⟩] :=
  List.Perm.refl _

theorem Scans.primary (plain : p.Plain)
    (h : Scans hd disk (s.record hd s.extLbaBase [p.part 0] [] [⟨hd, false, s.pNo⟩]) 0 es s') :
    Scans hd disk s 0 (p :: es) s' := by
  obtain ⟨base', prims, logics, refs, rfl, hlists, hp, hcases⟩ := h
  refine ⟨base', p.part 0 :: prims, logics, _, record_record,
    lists_append (lists_prim s _) hlists, ?_, ?_⟩
  · rw [record_pNo] at hp
    rw [List.length_cons]
    simp only [List.length_singleton] at hp
    omega
  · obtain ⟨holds, hl⟩ | ⟨fills, hl⟩ := hcases
    · exact .inl ⟨.primary plain holds, hl⟩
    · exact .inr ⟨.primary plain fills, hl⟩

theorem Scans.logical (plain : p.Plain) (below : lba ≠ 0) (room : s.lNo + 1 < 8)
    (h : Scans hd disk (s.record hd s.extLbaBase [] [p.part lba] [⟨hd, true, s.lNo⟩]) lba es s') :
    Scans hd disk s lba (p :: es) s' := by
  obtain ⟨base', prims, logics, refs, rfl, hlists, hp, hcases⟩ := h
  refine ⟨base', prims, p.part lba :: logics, _, record_record,
    lists_append (lists_logic s _) hlists, hp, ?_⟩
  obtain ⟨holds, hl⟩ | ⟨fills, hl⟩ := hcases
  · refine .inl ⟨.logical plain below holds, .inl ?_⟩
    obtain hl | rfl := hl
    · simp only [record_lNo, List.length_singleton] at hl
      rw [List.length_cons]
      omega
    · exact room
  · refine .inr ⟨.logical plain below fills, ?_⟩
    simp only [record_lNo, List.length_singleton] at hl
    rw [List.length_cons]
    omega

theorem Scans.last (plain : p.Plain) (below : lba ≠ 0) (full : s.lNo + 1 = 8) (hs : s.InRange) :
    Scans hd disk s lba (p :: es) (s.record hd s.extLbaBase [] [p.part lba] [⟨hd, true, s.lNo⟩]) :=
  ⟨s.extLbaBase, [], [p.part lba], _, rfl, lists_logic s _, hs.pNo, .inr ⟨.last plain below, full⟩⟩

/-- A table below, and the entries behind. -/
theorem Scans.extended {t : Ide} (ext : p.fsType = 0x5) (reach : p.target s.extLbaBase < maxLba)
    (inner : Scans hd disk (s.rebase (p.newBase s.extLbaBase)) (p.target s.extLbaBase)
      (partitionTable disk (p.target s.extLbaBase)) t) (rest : Scans hd disk t lba es s') :
    Scans hd disk s lba (p :: es) s' := by
  obtain ⟨b, prims, logics, refs, ht, hlists, hp, hinner⟩ := inner
  have ht' : t = s.record hd b prims logics refs := ht
  subst ht'
  obtain ⟨b', prims', logics', refs', rfl, hlists', hp', hrest⟩ := rest
  refine ⟨b', prims ++ prims', logics ++ logics', refs ++ refs', record_record,
    lists_append hlists hlists', ?_, ?_⟩
  · rw [List.length_append, ← Nat.add_assoc]
    exact hp'
  rw [List.length_append, ← Nat.add_assoc]
  simp only [record_lNo, record_extLbaBase] at hrest
  obtain ⟨holds, hl⟩ | ⟨fills, hl⟩ := hinner
  · obtain ⟨holds', hl'⟩ | ⟨fills', hl'⟩ := hrest
    · refine .inl ⟨.extended ext reach holds holds', ?_⟩
      obtain hl' | rfl := hl'
      · exact .inl hl'
      · obtain hl | rfl := hl
        · exact .inl hl
        · exact .inr rfl
    · exact .inr ⟨.before ext reach holds fills', hl'⟩
  · -- the eighth is recorded below: behind it there is none
    have hl : s.lNo + logics.length = 8 := hl
    obtain ⟨holds', hl'⟩ | ⟨fills', hl'⟩ := hrest
    · obtain hl' | rfl := hl'
      · omega
      · rw [List.append_nil]
        exact .inr ⟨.inside ext reach fills holds', by simpa using hl⟩
    · have := List.length_pos_of_ne_nil fills'.logics_ne
      omega

/-- THE LOOP, when the levels below do what they should. -/
theorem scanEntries_scans (below : ∀ lba t t', t.InRange → scan lba t = some (.ok t') →
      lba < maxLba ∧ Scans hd disk t lba (partitionTable disk lba) t') (hs : s.InRange)
    (h : scanEntries hd scan lba es s = some (.ok s')) : Scans hd disk s lba es s' := by
  induction es generalizing s with
  | nil =>
    cases h
    exact Scans.nil hs
  | cons p es ih =>
    rw [scanEntries] at h
    split at h
    · rename_i ext
      rw [scan_extended] at h
      obtain ⟨t, hscan, h⟩ := Scanned.andThen_ok h
      have hrebase : (s.rebase (p.newBase s.extLbaBase)).InRange := ⟨hs.pNo, hs.lNo⟩
      obtain ⟨reach, inner⟩ := below _ _ _ hrebase hscan
      exact Scans.extended ext reach inner (ih (inner.inRange hrebase) h)
    · rename_i notExt
      split at h
      · rename_i used
        have plain : p.Plain := ⟨notExt, used⟩
        split at h
        · rename_i first
          subst first
          obtain ⟨t, hadd, h⟩ := Scanned.andThen_ok h
          obtain ⟨rfl, hp⟩ := addPrim_ok hadd
          exact Scans.primary plain (ih ⟨hp, hs.lNo⟩ h)
        · rename_i low
          obtain ⟨t, hadd, h⟩ := Scanned.andThen_ok h
          obtain ⟨rfl, hl⟩ := addLogic_ok hadd
          change (if 8 ≤ s.lNo + 1 then _ else _) = _ at h
          by_cases full : 8 ≤ s.lNo + 1
          · rw [if_pos full] at h
            cases h
            exact Scans.last plain low (by omega) hs
          · rw [if_neg full] at h
            exact Scans.logical plain low (by omega)
              (ih ⟨hs.pNo, by rw [record_lNo, List.length_singleton]; omega⟩ h)
      · rename_i free
        exact Scans.unused (not_not.mp free) (ih hs h)

/-- A SCAN THAT COMES TO ITS END. -/
theorem partitionScan_scans {levels : Nat} (hs : s.InRange)
    (h : partitionScan hd disk levels lba s = some (.ok s')) :
    lba < maxLba ∧ Scans hd disk s lba (partitionTable disk lba) s' := by
  induction levels generalizing lba s s' with
  | zero => cases h
  | succ levels ih =>
    rw [partitionScan] at h
    split at h
    · cases h
    · rename_i rounds hread
      refine ⟨(ideRead_one fun _ => rfl).mp ⟨rounds, hread⟩, ?_⟩
      exact scanEntries_scans (fun lba t t' ht => ih ht) hs h

/-! ## Scans that come to their end -/

/-- More levels change nothing. -/
theorem scanEntries_mono {scan' : Nat → Ide → Scanned} (more : ∀ lba t r, scan lba t = some r →
      scan' lba t = some r) {r : Except Fault Ide} (h : scanEntries hd scan lba es s = some r) :
    scanEntries hd scan' lba es s = some r := by
  induction es generalizing s with
  | nil => exact h
  | cons p es ih =>
    have hthen : ∀ a : Scanned, a.andThen (scanEntries hd scan lba es) = some r →
        a.andThen (scanEntries hd scan' lba es) = some r := by
      intro a ha
      match a, ha with
      | some (.ok t), ha => exact ih ha
      | some (.error fault), ha => exact ha
    rw [scanEntries] at h ⊢
    split at h
    · rename_i ext
      rw [if_pos ext, scan_extended]
      rw [scan_extended] at h
      cases hscan : scan (p.target s.extLbaBase) (s.rebase (p.newBase s.extLbaBase)) with
      | none =>
        rw [hscan] at h
        cases h
      | some a =>
        rw [hscan] at h
        rw [more _ _ _ hscan]
        exact hthen _ h
    · rename_i notExt
      rw [if_neg notExt]
      split at h
      · rename_i used
        rw [if_pos used]
        split at h
        · rename_i first
          rw [if_pos first]
          exact hthen _ h
        · rename_i low
          rw [if_neg low]
          cases hadd : s.addLogic hd (u32 (lba + p.startLba : Nat), p.secCnt) with
          | none =>
            rw [hadd] at h
            cases h
          | some a =>
            rw [hadd] at h
            cases a with
            | error fault => exact h
            | ok t =>
              simp only [Scanned.andThen] at h ⊢
              by_cases full : 8 ≤ t.lNo
              · rw [if_pos full] at h ⊢
                exact h
              · rw [if_neg full] at h ⊢
                exact ih h
      · rename_i free
        rw [if_neg free]
        exact ih h

theorem partitionScan_succ {levels : Nat} {r : Except Fault Ide}
    (h : partitionScan hd disk levels lba s = some r) :
    partitionScan hd disk (levels + 1) lba s = some r := by
  induction levels generalizing lba s r with
  | zero => cases h
  | succ levels ih =>
    rw [partitionScan] at h ⊢
    split at h
    · exact h
    · exact scanEntries_mono (fun lba t r ht => ih ht) h

theorem partitionScan_mono {levels levels' : Nat} (hle : levels ≤ levels') {r : Except Fault Ide}
    (h : partitionScan hd disk levels lba s = some r) :
    partitionScan hd disk levels' lba s = some r := by
  induction levels', hle using Nat.le_induction with
  | base => exact h
  | succ levels' _ ih => exact partitionScan_succ ih

/-- The loop goes on to its end, and has recorded these. -/
def Records (hd : Drive) (disk : Sectors) (s : Ide) (lba : Nat) (es : List TableEntry) (base' : Nat)
    (prims logics : List (Nat × Nat)) : Prop :=
  ∃ levels refs, scanEntries hd (partitionScan hd disk levels) lba es s =
    some (.ok (s.record hd base' prims logics refs))

/-- A table below that is read to its end, and then the entries behind. -/
theorem Records.extended (ext : p.fsType = 0x5) (reach : p.target s.extLbaBase < maxLba)
    (inner : Records hd disk (s.rebase (p.newBase s.extLbaBase)) (p.target s.extLbaBase)
      (partitionTable disk (p.target s.extLbaBase)) base' prims logics)
    (rest : ∀ refs, Records hd disk
      (s.record hd base' prims logics refs) lba es base'' prims' logics') :
    Records hd disk s lba (p :: es) base'' (prims ++ prims') (logics ++ logics') := by
  obtain ⟨levels, refs, hinner⟩ := inner
  obtain ⟨levels', refs', hrest⟩ := rest refs
  refine ⟨max (levels + 1) levels', refs ++ refs', ?_⟩
  have hscan : partitionScan hd disk (levels + 1) (p.target s.extLbaBase)
      (s.rebase (p.newBase s.extLbaBase)) =
      some (.ok (s.record hd base' prims logics refs)) := by
    obtain ⟨rounds, hread⟩ :=
      (@ideRead_one _ (fun _ => true) ⟨hd.name, hd.devNo⟩ 0 fun _ => rfl).mpr reach
    rw [partitionScan, hread]
    exact hinner
  rw [scanEntries, if_pos ext, scan_extended, partitionScan_mono (Nat.le_max_left _ _) hscan,
    ← record_record]
  exact scanEntries_mono (fun lba t r ht => partitionScan_mono (Nat.le_max_right _ _) ht) hrest

theorem Records.unused (free : p.fsType = 0) (h : Records hd disk s lba es base' prims logics) :
    Records hd disk s lba (p :: es) base' prims logics := by
  obtain ⟨levels, refs, hrest⟩ := h
  refine ⟨levels, refs, ?_⟩
  rw [scanEntries, if_neg (by rw [free]; decide), if_neg (by rw [free]; simp)]
  exact hrest

theorem Records.primary (plain : p.Plain) (hp : s.pNo + 1 < 4)
    (h : Records hd disk (s.record hd s.extLbaBase [p.part 0] [] [⟨hd, false, s.pNo⟩]) 0 es base'
      prims logics) : Records hd disk s 0 (p :: es) base' (p.part 0 :: prims) logics := by
  obtain ⟨levels, refs, hrest⟩ := h
  refine ⟨levels, ⟨hd, false, s.pNo⟩ :: refs, ?_⟩
  rw [scanEntries, if_neg plain.1, if_pos plain.2, if_pos rfl, addPrim_eq hp]
  rw [record_record] at hrest
  exact hrest

theorem Records.logical (plain : p.Plain) (below : lba ≠ 0) (hl : s.lNo + 1 < 8)
    (h : Records hd disk (s.record hd s.extLbaBase [] [p.part lba] [⟨hd, true, s.lNo⟩]) lba es base'
      prims logics) : Records hd disk s lba (p :: es) base' prims (p.part lba :: logics) := by
  obtain ⟨levels, refs, hrest⟩ := h
  refine ⟨levels, ⟨hd, true, s.lNo⟩ :: refs, ?_⟩
  rw [scanEntries, if_neg plain.1, if_pos plain.2, if_neg below, addLogic_eq (by omega)]
  rw [record_record] at hrest
  change (if 8 ≤ s.lNo + 1 then _ else _) = _
  rw [if_neg (by omega)]
  exact hrest

/-- What the tables hold is recorded, when there is room. -/
theorem Holds.records {base : Nat} (h : Holds disk base lba es base' prims logics)
    (hbase : s.extLbaBase = base) (hp : s.pNo + prims.length < 4)
    (hl : s.lNo + logics.length < 8 ∨ logics = []) :
    Records hd disk s lba es base' prims logics := by
  induction h generalizing s with
  | nil base lba =>
    subst hbase
    exact ⟨0, [], by simp [scanEntries, Ide.record, place]⟩
  | unused free _ ih => exact Records.unused free (ih hbase hp hl)
  | primary plain rest ih =>
    rw [List.length_cons] at hp
    exact Records.primary plain (by omega)
      (ih hbase (by simp only [record_pNo, List.length_singleton]; omega) hl)
  | logical plain below rest ih =>
    simp only [List.length_cons, reduceCtorEq, or_false] at hl
    exact Records.logical plain below (by omega)
      (ih hbase hp (.inl (by simp only [record_lNo, List.length_singleton]; omega)))
  | extended ext reach inner rest ihinner ihrest =>
    subst hbase
    rw [List.length_append] at hp hl
    rw [List.append_eq_nil_iff] at hl
    apply Records.extended ext reach
    · exact ihinner rfl (show s.pNo + _ < 4 by omega)
        (hl.imp (fun hl => show s.lNo + _ < 8 by omega) And.left)
    · intro refs
      exact ihrest rfl (by rw [record_pNo]; omega)
        (hl.imp (fun hl => by rw [record_lNo]; omega) And.right)

/-- And the partitions up to the eighth logical one. -/
theorem Fills.records {base : Nat} (h : Fills disk base lba es base' prims logics)
    (hbase : s.extLbaBase = base) (hp : s.pNo + prims.length < 4) (hl : s.lNo + logics.length = 8) :
    Records hd disk s lba es base' prims logics := by
  induction h generalizing s with
  | last plain below =>
    subst hbase
    refine ⟨0, [⟨hd, true, s.lNo⟩], ?_⟩
    rw [List.length_singleton] at hl
    rw [scanEntries, if_neg plain.1, if_pos plain.2, if_neg below, addLogic_eq (by omega)]
    change (if 8 ≤ s.lNo + 1 then _ else _) = _
    rw [if_pos (by omega)]
    rfl
  | unused free _ ih => exact Records.unused free (ih hbase hp hl)
  | primary plain rest ih =>
    rw [List.length_cons] at hp
    exact Records.primary plain (by omega)
      (ih hbase (by simp only [record_pNo, List.length_singleton]; omega) hl)
  | logical plain below rest ih =>
    have hmore := List.length_pos_of_ne_nil rest.logics_ne
    rw [List.length_cons] at hl
    exact Records.logical plain below (by omega)
      (ih hbase hp (by simp only [record_lNo, List.length_singleton]; omega))
  | before ext reach inner rest ih =>
    subst hbase
    have hmore := List.length_pos_of_ne_nil rest.logics_ne
    rw [List.length_append] at hp hl
    apply Records.extended ext reach
    · exact inner.records rfl (show s.pNo + _ < 4 by omega) (.inl (show s.lNo + _ < 8 by omega))
    · intro refs
      exact ih rfl (by rw [record_pNo]; omega) (by rw [record_lNo]; omega)
  | @inside _ lba _ base'' _ _ _ logics _ ext reach inner rest ih =>
    subst hbase
    rw [List.length_append] at hp
    rw [← List.append_nil logics]
    apply Records.extended ext reach
    · exact ih rfl (show s.pNo + _ < 4 by omega) hl
    · intro refs
      exact rest.records rfl (by rw [record_pNo]; omega) (.inr rfl)

/-! ## When a scan comes to its end -/

/-- `p_no = 0, l_no = 0` -/
def Ide.restart (s : Ide) : Ide := { s with pNo := 0, lNo := 0 }

/-- `partition_scan(hd, 0)` returns: it has an end, and no index was outside its array and no
assertion failed on the way. -/
def Returns (hd : Drive) (disk : Sectors) (s : Ide) : Prop :=
  ∃ levels s', partitionScan hd disk levels 0 s = some (.ok s')

/-- The tables of a disk are what a scan has room for, with `base` as the address that they count
from at first. -/
def Fitting (disk : Sectors) (base : Nat) : Prop :=
  ∃ base' prims logics, prims.length < 4 ∧
    (Holds disk base 0 (partitionTable disk 0) base' prims logics ∧ logics.length < 8 ∨
      Fills disk base 0 (partitionTable disk 0) base' prims logics ∧ logics.length = 8)

theorem returns_of_records {base' : Nat}
    (h : Records hd disk s 0 (partitionTable disk 0) base' prims logics) :
    ∃ levels refs, partitionScan hd disk levels 0 s =
      some (.ok (s.record hd base' prims logics refs)) := by
  obtain ⟨levels, refs, hrest⟩ := h
  obtain ⟨rounds, hread⟩ :=
    (@ideRead_one 0 (fun _ => true) ⟨hd.name, hd.devNo⟩ 0 fun _ => rfl).mpr (by decide)
  refine ⟨levels + 1, refs, ?_⟩
  rw [partitionScan, hread]
  exact hrest

/-- PARTITION SCANNING RETURNS exactly when the tables are finitely many, in reach and hold no more
than there is room for. -/
theorem partition_scan_returns_iff (hd : Drive) (disk : Sectors) (s : Ide) :
    Returns hd disk s.restart ↔ Fitting disk s.extLbaBase := by
  constructor
  · rintro ⟨levels, s', h⟩
    obtain ⟨-, base', prims, logics, refs, -, -, hp, hcases⟩ :=
      partitionScan_scans ⟨Nat.zero_lt_succ 3, Nat.zero_le 8⟩ h
    refine ⟨base', prims, logics, by simpa [Ide.restart] using hp, ?_⟩
    obtain ⟨holds, hl⟩ | ⟨fills, hl⟩ := hcases
    · refine .inl ⟨holds, ?_⟩
      obtain hl | rfl := hl
      · simpa [Ide.restart] using hl
      · exact Nat.zero_lt_succ 7
    · exact .inr ⟨fills, by simpa [Ide.restart] using hl⟩
  · rintro ⟨base', prims, logics, hp, ⟨holds, hl⟩ | ⟨fills, hl⟩⟩
    · have hrecords : Records hd disk s.restart 0 (partitionTable disk 0) base' prims logics :=
        holds.records rfl (by simpa [Ide.restart] using hp) (.inl (by simpa [Ide.restart] using hl))
      obtain ⟨levels, refs, h⟩ := returns_of_records hrecords
      exact ⟨levels, _, h⟩
    · have hrecords : Records hd disk s.restart 0 (partitionTable disk 0) base' prims logics :=
        fills.records rfl (by simpa [Ide.restart] using hp) (by simpa [Ide.restart] using hl)
      obtain ⟨levels, refs, h⟩ := returns_of_records hrecords
      exact ⟨levels, _, h⟩

/-- A disk with four primary partitions of ten sectors. -/
def fourPrimaries : Sectors := fun lba off =>
  if lba = 0 ∧ 446 ≤ off ∧ off < 510 then
    if (off - 446) % 16 = 4 then 0x83 else if (off - 446) % 16 = 8 then
      BitVec.ofNat 8 (1 + (off - 446) / 16 * 10)
    else if (off - 446) % 16 = 12 then 10 else 0
  else 0

/-- What the variables are before the first scan. -/
def Ide.init : Ide := ⟨0, 0, 0, fun _ _ => Part.zero, fun _ _ => Part.zero, []⟩

/-- After the fourth there is no room for a fifth, and that is asserted. -/
theorem four_primaries : ¬ Returns ⟨0, 1⟩ fourPrimaries Ide.init.restart := by
  rintro ⟨levels, s', h⟩
  cases levels with
  | zero => cases h
  | succ levels =>
    obtain ⟨rounds, hread⟩ :=
      (@ideRead_one 0 (fun _ => true) ⟨(Drive.mk 0 1).name, 1⟩ 0 fun _ => rfl).mpr (by decide)
    rw [partitionScan, hread] at h
    have hfails : scanEntries ⟨0, 1⟩ (partitionScan ⟨0, 1⟩ fourPrimaries levels) 0
        (partitionTable fourPrimaries 0) Ide.init.restart =
      some (.error (.assert "partition_scan" "p_no < 4")) := rfl
    dsimp only at h
    rw [hfails] at h
    cases h

end SeekingOs.Device
