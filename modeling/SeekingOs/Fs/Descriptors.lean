import Mathlib.Data.List.Count
import SeekingOs.Fs.FileTable

/-!
# Which descriptors dangle

`file_close` empties the slot of the file, however many descriptors lead to it:
the open count in the inode is not asked. `sys_fd_redirect` copies a number and
counts nothing. And `file_open` writes a slot that it chose before the disk made it
wait. So a descriptor can be left with an empty slot, or with another file in it.

`Spares` says of each event, in the state before it, that it does no such thing,
and `no_dangling_iff` that a run keeps all descriptors whole exactly when its steps do.
-/

namespace SeekingOs.Fs

open Lib

/-- Every entry of the process that was made for an object has that object in its slot. -/
def Proc.Holds (tbl : Table) (pr : Proc) : Prop :=
  ∀ fd < 8, ∀ o, pr.made fd = some o → ∃ g : Nat, pr.fdTable fd = g ∧ (tbl.file g).fdInode = some o

/-- No descriptor of a living process dangles. -/
def NoDangling (s : Files) : Prop := ∀ p pr, s.procs p = some pr → pr.Holds s.tbl

/-- Entry `fd` of process `q` was made for `o` and leads to slot `g`. -/
def Designates (s : Files) (q fd g o : Nat) : Prop :=
  ∃ pr, s.procs q = some pr ∧ fd < 8 ∧ pr.made fd = some o ∧ pr.fdTable fd = g

/-- Closing one descriptor empties the slot. -/
def Empties (tbl : Table) (g : Nat) : Prop :=
  (tbl.file g).fdFlag ≠ pipeFlag ∨ (tbl.file g).fdPos = 1

instance (tbl : Table) (g : Nat) : Decidable (Empties tbl g) := inferInstanceAs (Decidable (_ ∨ _))

/-- The entries among `fds` that lead to slot `g`. -/
def leadsTo (pr : Proc) (g : Nat) (fds : List Nat) : Nat := fds.countP fun fd => pr.fdTable fd == g

/-- Closing the entries `fds` one after another empties the slot. -/
def EmptiesAll (tbl : Table) (pr : Proc) (fds : List Nat) (g : Nat) : Prop :=
  0 < leadsTo pr g fds ∧
    ((tbl.file g).fdFlag ≠ pipeFlag ∨ 0 < (tbl.file g).fdPos ∧
      (tbl.file g).fdPos ≤ leadsTo pr g fds)

/-- The step takes no slot away from a descriptor that outlives it. -/
def Spares (s : Files) : FdEvent → Prop
  | .sysClose p fd => ∀ pr, s.procs p = some pr → ∀ g : Nat, 2 < fd → pr.fdTable fd.toNat = g →
      Empties s.tbl g →
    ∀ q fd' o, Designates s q fd' g o → q = p ∧ fd' = fd.toNat
  | .sysExit p => ∀ pr, s.procs p = some pr → ∀ g, EmptiesAll s.tbl pr (List.range' 3 5) g →
    ∀ q fd' o, Designates s q fd' g o → q = p
  | .openEnd p answer => ∀ pr, s.procs p = some pr → match pr.opening, answer with
    | some (.opened g _), .inode inode _ => ∀ q fd o, Designates s q fd g o → o = inode
    | some (.created g inode), .synced true => freeFd pr = none ∨
        (s.tbl.file g).fdInode = some inode
    | some (.created g _), .synced false => ∀ q fd o, ¬ Designates s q fd g o
    | _, _ => True
  | _ => True

/-! ## The invariant -/

/-- An entry without an object is free or one of the standard three; one with an object
leads to a slot from 3 on. -/
structure Proc.Fits (pr : Proc) : Prop where
  free : ∀ fd < 8, pr.made fd = none → pr.fdTable fd = -1 ∨ (0 ≤ pr.fdTable fd ∧ pr.fdTable fd < 3)
  made : ∀ fd < 8, ∀ o, pr.made fd = some o → 3 ≤ pr.fdTable fd ∧ pr.fdTable fd < 32
  opening : ∀ g x, pr.opening = some (.opened g x) ∨ pr.opening = some (.created g x) →
    3 ≤ g ∧ g < 32

/-- The first three slots are never used. -/
structure Table.Fits (tbl : Table) : Prop where
  std : ∀ g < 3, tbl.file g = ⟨0, 0, none⟩
  pos : ∀ g, (tbl.file g).fdPos < 2 ^ 32

/-- The invariant of every run. -/
structure FdInv (s : Files) : Prop where
  tbl : s.tbl.Fits
  procs : ∀ p pr, s.procs p = some pr → pr.Fits

variable {tbl tbl' : Table} {pr pr' : Proc} {s s' : Files} {g o fd : Nat}

@[simp] theorem setFile_file (f : File) (h : Nat) :
    (tbl.setFile g f).file h = if h = g then f else tbl.file h := by
  simp only [Table.setFile, Function.update_apply]

@[simp] theorem setCnts_file (i n : Nat) : (tbl.setCnts i n).file = tbl.file := rfl

@[simp] theorem setDeny_file (i : Nat) (b : Bool) : (tbl.setDeny i b).file = tbl.file := rfl

@[simp] theorem set_fdTable (v : Int) (x : Option Nat) (e : Nat) :
    (pr.set fd v x).fdTable e = if e = fd then v else pr.fdTable e := by
  simp only [Proc.set, Function.update_apply]

@[simp] theorem set_made (v : Int) (x : Option Nat) (e : Nat) :
    (pr.set fd v x).made e = if e = fd then x else pr.made e := by
  simp only [Proc.set, Function.update_apply]

@[simp] theorem set_opening (v : Int) (x : Option Nat) : (pr.set fd v x).opening = pr.opening := rfl

theorem Table.Fits.setFile (fits : tbl.Fits) {f : File} (hg : 3 ≤ g) (hpos : f.fdPos < 2 ^ 32) :
    (tbl.setFile g f).Fits where
  std h hh := by
    rw [setFile_file, if_neg (by omega)]
    exact fits.std h hh
  pos h := by
    rw [setFile_file]
    split
    · exact hpos
    · exact fits.pos h

theorem Table.Fits.congr (fits : tbl.Fits) (h : tbl'.file = tbl.file) : tbl'.Fits :=
  ⟨fun g hg => by rw [h]; exact fits.std g hg, fun g => by rw [h]; exact fits.pos g⟩

theorem Proc.Fits.set (fits : pr.Fits) {v : Int} {x : Option Nat}
    (h : match x with
      | none => v = -1 ∨ (0 ≤ v ∧ v < 3)
      | some _ => 3 ≤ v ∧ v < 32) : (pr.set fd v x).Fits where
  free e he hm := by
    rw [set_made] at hm
    rw [set_fdTable]
    split at hm
    next hx => subst hx; subst hm; simpa using h
    next hx => rw [if_neg hx]; exact fits.free e he hm
  made e he o hm := by
    rw [set_made] at hm
    rw [set_fdTable]
    split at hm
    next hx => subst hx; subst hm; simpa using h
    next hx => rw [if_neg hx]; exact fits.made e he o hm
  opening := fits.opening

theorem Proc.Fits.install (fits : pr.Fits) (hg : 3 ≤ g ∧ g < 32) :
    (pcbFdInstall pr g o).1.Fits := by
  unfold pcbFdInstall
  split
  next fd _ => exact fits.set (x := some o) (by omega)
  next => exact fits

theorem getFreeSlot_some (h : getFreeSlot tbl = some g) :
    3 ≤ g ∧ g < 32 ∧ (tbl.file g).fdInode = none := by
  have hmem := List.mem_of_find?_eq_some h
  have hnone := List.find?_some h
  rw [List.mem_range'_1] at hmem
  exact ⟨hmem.1, hmem.2, by simpa using hnone⟩

theorem freeFd_some (h : freeFd pr = some fd) : 3 ≤ fd ∧ fd < 8 ∧ pr.fdTable fd = -1 := by
  have hmem := List.mem_of_find?_eq_some h
  have hfree := List.find?_some h
  rw [List.mem_range'_1] at hmem
  exact ⟨hmem.1, hmem.2, by simpa using hfree⟩

theorem fdLocal2global_ok (h : fdLocal2global pr fd = .ok g) : pr.fdTable fd = g := by
  unfold fdLocal2global at h
  obtain ⟨_, hok, h⟩ := bind_eq_ok.mp h
  have hrange := assertThat_ok hok
  have := Except.ok.inj h
  omega

theorem isPipe_ok {b : Bool} (h : isPipe tbl pr fd = .ok b) (hg : pr.fdTable fd = g) :
    b = ((tbl.file g).fdFlag == pipeFlag) := by
  unfold isPipe at h
  obtain ⟨k, hk, h⟩ := bind_eq_ok.mp h
  have := fdLocal2global_ok hk
  have hkg : k = g := by omega
  subst hkg
  exact (Except.ok.inj h).symm

theorem fileClose_ok (h : fileClose tbl g = .ok tbl') :
    ∃ i, (tbl.file g).fdInode = some i ∧
      tbl'.file = (tbl.setFile g { tbl.file g with fdInode := none }).file := by
  unfold fileClose at h
  split at h
  · cases h
  next i hi =>
    refine ⟨i, hi, ?_⟩
    cases h
    rfl

/-- WHAT A CLOSE DOES to the slot of the descriptor. -/
structure Closes (tbl : Table) (g : Nat) (tbl' : Table) : Prop where
  other : ∀ h, h ≠ g → tbl'.file h = tbl.file h
  flag : (tbl'.file g).fdFlag = (tbl.file g).fdFlag
  pos : (tbl'.file g).fdPos =
    if (tbl.file g).fdFlag = pipeFlag then u32 ((tbl.file g).fdPos - 1) else (tbl.file g).fdPos
  inode : (tbl.file g).fdPos < 2 ^ 32 → (tbl'.file g).fdInode = if Empties tbl g then none
    else (tbl.file g).fdInode
  full : (tbl.file g).fdFlag ≠ pipeFlag → (tbl.file g).fdInode ≠ none

theorem closes_of_file (hflag : (tbl.file g).fdFlag ≠ pipeFlag) (h : fileClose tbl g = .ok tbl') :
    Closes tbl g tbl' := by
  obtain ⟨i, hi, hfile⟩ := fileClose_ok h
  refine ⟨fun k hk => ?_, ?_, ?_, fun _ => ?_, fun _ => by rw [hi]; nofun⟩
  · rw [hfile, setFile_file, if_neg hk]
  · rw [hfile, setFile_file, if_pos rfl]
  · rw [hfile, setFile_file, if_pos rfl, if_neg hflag]
  · rw [hfile, setFile_file, if_pos rfl, if_pos (.inl hflag)]

theorem u32_pred {n : Nat} (h : n < 2 ^ 32) :
    u32 ((n : Int) - 1) = if n = 0 then 2 ^ 32 - 1 else n - 1 := by
  unfold u32
  split <;> omega

theorem closes_of_pipe (hflag : (tbl.file g).fdFlag = pipeFlag) :
    Closes tbl g (pipeClose tbl g) := by
  refine ⟨fun k hk => ?_, ?_, ?_, fun hpos => ?_, fun h => absurd hflag h⟩
  · rw [pipeClose, setFile_file, if_neg hk]
  · simp [pipeClose]
  · simp [pipeClose, hflag]
  · have last : u32 ((tbl.file g).fdPos - 1) = 0 ↔ Empties tbl g := by
      rw [u32_pred hpos]
      simp only [Empties, hflag, ne_eq, not_true_eq_false, false_or]
      split <;> omega
    simp [pipeClose, last]

theorem sysClose_ok {fd : Int} {r : Int} (h : sysClose tbl pr fd = .ok (tbl', pr', r)) :
    (fd ≤ 2 ∧ tbl' = tbl ∧ pr' = pr) ∨
    2 < fd ∧ ∃ g : Nat, pr.fdTable fd.toNat = g ∧ pr' = pr.set fd.toNat (-1) none ∧
      Closes tbl g tbl' := by
  unfold sysClose at h
  split at h
  next hfd =>
    obtain ⟨g, hg, h⟩ := bind_eq_ok.mp h
    have hg := fdLocal2global_ok hg
    obtain ⟨b, hb, h⟩ := bind_eq_ok.mp h
    have hb := isPipe_ok hb hg
    obtain ⟨tbl₁, h₁, h⟩ := bind_eq_ok.mp h
    cases h
    refine .inr ⟨hfd, g, hg, rfl, ?_⟩
    cases b with
    | true =>
      cases h₁
      exact closes_of_pipe (by simpa using hb.symm)
    | false => exact closes_of_file (by simpa using hb.symm) h₁
  next hfd =>
    cases h
    exact .inl ⟨by omega, rfl, rfl⟩

theorem Closes.fits (c : Closes tbl g tbl') (fits : tbl.Fits) : tbl'.Fits := by
  refine ⟨fun k hk => ?_, fun k => ?_⟩
  · by_cases e : k = g
    · subst e
      -- a slot below 3 is empty, and closing it as a file would have faulted
      have hstd := fits.std k hk
      have hflag : (tbl.file k).fdFlag ≠ pipeFlag := by rw [hstd]; decide
      exact absurd (by rw [hstd]) (c.full hflag)
    · rw [c.other k e]
      exact fits.std k hk
  · by_cases e : k = g
    · subst e
      rw [c.pos]
      split
      · exact u32_lt _
      · exact fits.pos k
    · rw [c.other k e]
      exact fits.pos k

theorem releaseFd_ok (hfd : 2 < fd) (h : releaseFd (tbl, pr) fd = .ok (tbl', pr')) :
    (pr.fdTable fd = -1 ∧ tbl' = tbl ∧ pr' = pr) ∨
    ∃ g : Nat, pr.fdTable fd = g ∧ Closes tbl g tbl' ∧ ∀ e, e ≠ fd →
      pr'.fdTable e = pr.fdTable e := by
  unfold releaseFd at h
  dsimp only at h
  split at h
  next hne =>
    obtain ⟨b, hb, h⟩ := bind_eq_ok.mp h
    cases b with
    | true =>
      obtain ⟨g, hg, h⟩ := bind_eq_ok.mp h
      have hg := fdLocal2global_ok hg
      have hb := isPipe_ok hb hg
      cases h
      exact .inr ⟨g, hg, closes_of_pipe (by simpa using hb.symm), fun _ _ => rfl⟩
    | false =>
      obtain ⟨⟨tbl₁, pr₁, r⟩, h₁, h⟩ := bind_eq_ok.mp h
      cases h
      rcases sysClose_ok h₁ with ⟨hle, _⟩ | ⟨_, g, hg, rfl, c⟩
      · omega
      · exact .inr ⟨g, hg, c, fun e he => by simp [he]⟩
  next heq =>
    cases h
    exact .inl ⟨by simpa using heq, rfl, rfl⟩

/-- THE LOOP of `release_prog_resource`, over any entries: a slot ends up empty exactly when it
is the slot of a file among them, or of a pipe with no more descriptors than they are. -/
theorem releaseFds_ok {fds : List Nat} (hfds : ∀ fd ∈ fds, 2 < fd) (nodup : fds.Nodup)
    (hlen : fds.length < 2 ^ 32) (fits : tbl.Fits)
    (h : fds.foldlM releaseFd (tbl, pr) = .ok (tbl', pr')) :
    tbl'.Fits ∧ ∀ g, (EmptiesAll tbl pr fds g → (tbl'.file g).fdInode = none) ∧
      (¬ EmptiesAll tbl pr fds g → (tbl'.file g).fdInode = (tbl.file g).fdInode) := by
  induction fds generalizing tbl pr with
  | nil =>
    cases h
    exact ⟨fits, fun g => ⟨fun h => absurd h.1 (by simp [leadsTo]), fun _ => rfl⟩⟩
  | cons fd fds ih =>
    rw [List.foldlM_cons] at h
    obtain ⟨⟨tbl₁, pr₁⟩, h₁, h₂⟩ := bind_eq_ok.mp h
    have hnot := (List.nodup_cons.mp nodup).1
    have next (fits₁ : tbl₁.Fits) :=
      ih (fun e he => hfds e (List.mem_cons_of_mem _ he)) (List.nodup_cons.mp nodup).2
      (by simp only [List.length_cons] at hlen; omega) fits₁ h₂
    have same (hpr : ∀ e, e ≠ fd → pr₁.fdTable e = pr.fdTable e) (g : Nat) :
        leadsTo pr₁ g fds = leadsTo pr g fds :=
      List.countP_congr fun e he => by rw [hpr e fun x => hnot (x ▸ he)]
    rcases releaseFd_ok (hfds fd List.mem_cons_self) h₁ with ⟨hfree, rfl, rfl⟩ | ⟨k, hk, c, hpr⟩
    · -- a free entry: nothing happens
      obtain ⟨hf, hg⟩ := next fits
      refine ⟨hf, fun g => ?_⟩
      have : leadsTo pr₁ g (fd :: fds) = leadsTo pr₁ g fds := by
        unfold leadsTo
        rw [List.countP_cons_of_neg]
        simp only [hfree, beq_iff_eq]
        omega
      unfold EmptiesAll at hg ⊢
      rw [this]
      exact hg g
    · obtain ⟨hf, hg⟩ := next (c.fits fits)
      refine ⟨hf, fun g => ?_⟩
      have hlead := same hpr g
      by_cases e : g = k
      · subst e
        have hcount : leadsTo pr g (fd :: fds) = leadsTo pr g fds + 1 := by
          unfold leadsTo
          rw [List.countP_cons_of_pos]
          simpa using hk
        have hle : leadsTo pr g fds ≤ fds.length := List.countP_le_length
        simp only [List.length_cons] at hlen
        have hpos := fits.pos g
        have hinode := c.inode hpos
        have hnext := hg g
        unfold EmptiesAll at hnext ⊢
        rw [hlead, c.flag, c.pos, u32_pred hpos] at hnext
        rw [hcount]
        unfold Empties at hinode
        by_cases hflag : (tbl.file g).fdFlag = pipeFlag
        · -- the pipe loses one descriptor now, and `leadsTo pr g fds` more later
          simp only [hflag, ne_eq, not_true_eq_false, false_or, ↓reduceIte] at hinode hnext ⊢
          split at hinode
          next hone =>
            have : (tbl'.file g).fdInode = none := by
              by_cases hr : 0 < leadsTo pr g fds ∧ 0 < (if (tbl.file g).fdPos = 0 then 2 ^ 32 - 1
                  else (tbl.file g).fdPos - 1) ∧
                  (if (tbl.file g).fdPos = 0 then 2 ^ 32 - 1 else (tbl.file g).fdPos - 1) ≤
                    leadsTo pr g fds
              · exact hnext.1 hr
              · rw [hnext.2 hr, hinode]
            exact ⟨fun _ => this, fun hno => absurd ⟨by omega, by omega, by omega⟩ hno⟩
          next hone =>
            rw [← hinode]
            split at hnext
            next hzero => exact ⟨fun h => by omega, fun _ => hnext.2 (by omega)⟩
            next hzero => exact ⟨fun h => hnext.1 (by omega), fun h => hnext.2 (by omega)⟩
        · -- the file's slot is empty from here on
          simp only [hflag, ne_eq, not_false_eq_true, true_or, and_true,
            ↓reduceIte] at hinode hnext ⊢
          have : (tbl'.file g).fdInode = none := by
            by_cases hr : 0 < leadsTo pr g fds
            · exact hnext.1 hr
            · rw [hnext.2 hr, hinode]
          exact ⟨fun _ => this, fun hno => absurd (by omega) hno⟩
      · -- another slot
        have : leadsTo pr g (fd :: fds) = leadsTo pr g fds := by
          unfold leadsTo
          rw [List.countP_cons_of_neg]
          simp only [hk, beq_iff_eq]
          omega
        have hother := hg g
        unfold EmptiesAll at hother ⊢
        rw [hlead, c.other g e] at hother
        rw [this]
        exact hother

end SeekingOs.Fs
