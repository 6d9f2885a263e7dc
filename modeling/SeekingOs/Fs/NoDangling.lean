import Mathlib.Tactic.IntervalCases
import SeekingOs.Fs.Descriptors

/-!
# A run keeps its descriptors whole exactly when every step spares them

Every event changes the content of one slot at most, `sys_exit` apart. So after it
the descriptors are whole when those that lead to this slot are, and the
process that took the step has the right new entry.
-/

namespace SeekingOs.Fs

open Lib

variable {tbl tbl' : Table} {pr pr' : Proc} {s s' : Files} {p g o fd : Nat}

/-! ## One slot -/

/-- The tables differ in the content of slot `g` alone. -/
def SameBut (g : Nat) (tbl tbl' : Table) : Prop :=
  ∀ k, k ≠ g → (tbl'.file k).fdInode = (tbl.file k).fdInode

theorem Proc.Holds.iff_slot (h : pr.Holds tbl) (same : SameBut g tbl tbl') :
    pr.Holds tbl' ↔ ∀ fd < 8, ∀ o, pr.made fd = some o → pr.fdTable fd = g →
      (tbl'.file g).fdInode = some o := by
  constructor
  · intro h' fd hfd o hm hg
    obtain ⟨k, hk, hinode⟩ := h' fd hfd o hm
    have : k = g := by omega
    rw [← this, hinode]
  · intro h' fd hfd o hm
    obtain ⟨k, hk, hinode⟩ := h fd hfd o hm
    by_cases e : k = g
    · exact ⟨g, e ▸ hk, h' fd hfd o hm (e ▸ hk)⟩
    · exact ⟨k, hk, by rw [same k e, hinode]⟩

/-- No content changes. -/
theorem Proc.Holds.congr (h : pr.Holds tbl)
    (same : ∀ k, (tbl'.file k).fdInode = (tbl.file k).fdInode) : pr.Holds tbl' := by
  intro fd hfd o hm
  obtain ⟨k, hk, hinode⟩ := h fd hfd o hm
  exact ⟨k, hk, by rw [same k, hinode]⟩

/-- A free slot is filled. -/
theorem Proc.Holds.fill (h : pr.Holds tbl) (same : SameBut g tbl tbl')
    (free : (tbl.file g).fdInode = none) : pr.Holds tbl' := by
  refine (h.iff_slot same).mpr fun fd hfd o hm hg => ?_
  obtain ⟨k, hk, hinode⟩ := h fd hfd o hm
  have : k = g := by omega
  rw [this, free] at hinode
  cases hinode

/-- A free entry that nothing was made for is given a slot and an object. -/
theorem Proc.Fits.holds_install (fits : pr.Fits) :
    (pcbFdInstall pr g o).1.Holds tbl ↔
    pr.Holds tbl ∧ (freeFd pr = none ∨ (tbl.file g).fdInode = some o) := by
  unfold pcbFdInstall
  cases hf : freeFd pr with
  | none => simp
  | some fd =>
    obtain ⟨_, hlt, hfree⟩ := freeFd_some hf
    have hmade : pr.made fd = none := by
      cases hm : pr.made fd with
      | none => rfl
      | some o' =>
        have := fits.made fd hlt o' hm
        omega
    simp only [reduceCtorEq, false_or]
    constructor
    · intro h
      refine ⟨fun e he o' hm => ?_, ?_⟩
      · have hne : e ≠ fd := fun x => by rw [x, hmade] at hm; cases hm
        simpa [hne] using h e he o' (by simpa [hne] using hm)
      · obtain ⟨k, hk, hinode⟩ := h fd hlt o (by simp)
        have : k = g := by
          rw [set_fdTable, if_pos rfl] at hk
          omega
        rw [← this, hinode]
    · rintro ⟨h, hinode⟩ e he o' hm
      by_cases hx : e = fd
      · subst hx
        simp only [set_made, ↓reduceIte, Option.some.injEq] at hm
        exact ⟨g, by simp, hm ▸ hinode⟩
      · simpa [hx] using h e he o' (by simpa [hx] using hm)

/-- A process that has called `pcb_fd_install` has no other system call in progress than before. -/
theorem install_opening : (pcbFdInstall pr g o).1.opening = pr.opening := by
  unfold pcbFdInstall
  split <;> rfl

/-! ## One process -/

theorem noDangling_put : NoDangling (s.put p tbl' pr') ↔
    (∀ q pr, q ≠ p → s.procs q = some pr → pr.Holds tbl') ∧ pr'.Holds tbl' := by
  unfold NoDangling Files.put
  simp only [Function.update_apply]
  constructor
  · intro h
    exact ⟨fun q pr hq hpr => h q pr (by rw [if_neg hq, hpr]), h p pr' (by rw [if_pos rfl])⟩
  · rintro ⟨others, own⟩ q pr hpr
    split at hpr
    · cases hpr
      exact own
    next hq => exact others q pr hq hpr

/-- The other processes, after one slot has changed. -/
theorem NoDangling.others_iff (h : NoDangling s) (same : SameBut g s.tbl tbl') :
    (∀ q pr, q ≠ p → s.procs q = some pr → pr.Holds tbl') ↔
      ∀ q fd o, q ≠ p → Designates s q fd g o → (tbl'.file g).fdInode = some o := by
  constructor
  · rintro h' q fd o hq ⟨pr, hpr, hfd, hm, hg⟩
    exact ((h q pr hpr).iff_slot same).mp (h' q pr hq hpr) fd hfd o hm hg
  · intro h' q pr hq hpr
    exact ((h q pr hpr).iff_slot same).mpr fun fd hfd o hm hg => h' q fd o hq ⟨pr, hpr, hfd, hm, hg⟩

theorem Proc.Holds.own_iff (h : pr.Holds s.tbl) (hp : s.procs p = some pr)
    (same : SameBut g s.tbl tbl') :
    pr.Holds tbl' ↔ ∀ fd o, Designates s p fd g o → (tbl'.file g).fdInode = some o := by
  rw [h.iff_slot same]
  constructor
  · rintro h' fd o ⟨pr₁, hpr₁, hfd, hm, hg⟩
    rw [hp] at hpr₁
    cases hpr₁
    exact h' fd hfd o hm hg
  · exact fun h' fd hfd o hm hg => h' fd o ⟨pr, hp, hfd, hm, hg⟩

/-- Everyone, after one slot has changed and no entry. -/
theorem NoDangling.all_iff (h : NoDangling s) (hp : s.procs p = some pr)
    (same : SameBut g s.tbl tbl') :
    ((∀ q pr, q ≠ p → s.procs q = some pr → pr.Holds tbl') ∧ pr.Holds tbl') ↔
      ∀ q fd o, Designates s q fd g o → (tbl'.file g).fdInode = some o := by
  rw [h.others_iff same, (h p pr hp).own_iff hp same]
  constructor
  · rintro ⟨others, own⟩ q fd o hd
    by_cases hq : q = p
    · exact own fd o (hq ▸ hd)
    · exact others q fd o hq hd
  · exact fun h' => ⟨fun q fd o _ => h' q fd o, fun fd o => h' p fd o⟩

/-! ## The events -/

theorem sameBut_setFile (f : File) : SameBut g tbl (tbl.setFile g f) := fun k hk => by
  rw [setFile_file, if_neg hk]

/-- `sys_open` up to the disk fills a free slot or none. -/
theorem NoDangling.sysOpen (h : NoDangling s) (hp : s.procs p = some pr) (lookup : Lookup) :
    NoDangling (s.put p (sysOpen s.tbl pr lookup).1 (sysOpen s.tbl pr lookup).2) := by
  have unchanged (pr' : Proc) (hpr : pr'.Holds s.tbl) : NoDangling (s.put p s.tbl pr') :=
    noDangling_put.mpr ⟨fun q pr _ hpr => h q pr hpr, hpr⟩
  cases lookup with
  | refused => exact unchanged _ (h p pr hp)
  | «exists» flag =>
    unfold Fs.sysOpen
    dsimp only
    split
    · exact unchanged _ (h p pr hp)
    · exact unchanged _ (h p pr hp)
  | create inode flag =>
    unfold Fs.sysOpen
    dsimp only
    split
    · exact unchanged _ (h p pr hp)
    next g hg =>
      have free := (getFreeSlot_some hg).2.2
      have same : SameBut g s.tbl ((s.tbl.setFile g ⟨0, flag, some inode⟩).setDeny inode false) :=
        sameBut_setFile _
      exact noDangling_put.mpr ⟨fun q pr _ hpr => (h q pr hpr).fill same free,
        (h p pr hp).fill same free⟩

theorem inodeOpen_file {inode : Nat} {cached : Bool} :
    (inodeOpen tbl inode cached).file = tbl.file := by
  unfold inodeOpen
  split <;> rfl

/-- The end of `file_open`: whoever had the slot must have had the same file. -/
theorem FdInv.fileOpenEnd_iff (inv : FdInv s) (h : NoDangling s) (hp : s.procs p = some pr)
    {flag inode : Nat} {cached : Bool} :
    NoDangling (s.put p (fileOpenEnd s.tbl { pr with opening := none } g flag inode cached).1
      (fileOpenEnd s.tbl { pr with opening := none } g flag inode cached).2.1) ↔
      ∀ q fd o, Designates s q fd g o → o = inode := by
  have fits := inv.procs p pr hp
  have fits' : ({ pr with opening := none } : Proc).Fits := ⟨fits.free, fits.made, nofun⟩
  -- whatever else happens, slot `g` holds the inode
  have key (tbl' : Table) (same : SameBut g s.tbl tbl') (hg : (tbl'.file g).fdInode = some inode) :
      ((∀ q pr, q ≠ p → s.procs q = some pr → pr.Holds tbl') ∧ pr.Holds tbl') ↔
        ∀ q fd o, Designates s q fd g o → o = inode := by
    rw [h.all_iff hp same]
    exact forall_congr' fun q => forall_congr' fun fd => forall_congr' fun o =>
      imp_congr_right fun _ => by
        rw [hg]; exact ⟨fun e => (Option.some.inj e).symm, fun e => by rw [e]⟩
  have keep (tbl' : Table) (same : SameBut g s.tbl tbl') (hg : (tbl'.file g).fdInode = some inode) :
      NoDangling (s.put p tbl' { pr with opening := none }) ↔
        ∀ q fd o, Designates s q fd g o → o = inode :=
    noDangling_put.trans (key tbl' same hg)
  have install (tbl' : Table) (same : SameBut g s.tbl tbl')
      (hg : (tbl'.file g).fdInode = some inode) :
      NoDangling (s.put p tbl' (pcbFdInstall { pr with opening := none } g inode).1) ↔
        ∀ q fd o, Designates s q fd g o → o = inode := by
    rw [noDangling_put, fits'.holds_install]
    simp only [hg, or_true, and_true]
    exact key tbl' same hg
  have same : SameBut g s.tbl ((inodeOpen s.tbl inode cached).setFile g ⟨0, flag, some inode⟩) :=
    fun k hk => by
    rw [setFile_file, if_neg hk, inodeOpen_file]
  unfold fileOpenEnd
  dsimp only
  split
  · split
    · exact keep _ same (by simp)
    · exact install _ same (by simp)
  · exact install _ same (by simp)

/-- The end of `file_create`. -/
theorem FdInv.fileCreateEnd_iff (inv : FdInv s) (h : NoDangling s) (hp : s.procs p = some pr)
    (inode : Nat) :
    (NoDangling (s.put p (fileCreateEnd s.tbl { pr with opening := none } g inode true).1
      (fileCreateEnd s.tbl { pr with opening := none } g inode true).2.1) ↔
      freeFd pr = none ∨ (s.tbl.file g).fdInode = some inode) ∧
    (NoDangling (s.put p (fileCreateEnd s.tbl { pr with opening := none } g inode false).1
      (fileCreateEnd s.tbl { pr with opening := none } g inode false).2.1) ↔
      ∀ q fd o, ¬ Designates s q fd g o) := by
  have fits := inv.procs p pr hp
  have fits' : ({ pr with opening := none } : Proc).Fits := ⟨fits.free, fits.made, nofun⟩
  constructor
  · simp only [fileCreateEnd, ↓reduceIte]
    rw [noDangling_put, fits'.holds_install]
    constructor
    · exact fun h' => h'.2.2
    · exact fun h' =>
        ⟨fun q pr _ hpr => (h q pr hpr).congr fun _ => rfl, (h p pr hp).congr fun _ => rfl, h'⟩
  · simp only [fileCreateEnd, Bool.false_eq_true, ↓reduceIte]
    rw [noDangling_put]
    refine (h.all_iff hp (sameBut_setFile _)).trans ?_
    simp [Designates]

/-- `sys_close`: the others that lead to an emptied slot dangle. -/
theorem FdInv.sysClose_iff (inv : FdInv s) (h : NoDangling s) (hp : s.procs p = some pr)
    (hg : pr.fdTable fd = g) (c : Closes s.tbl g tbl') :
    NoDangling (s.put p tbl' (pr.set fd (-1) none)) ↔
      (Empties s.tbl g → ∀ q fd' o, Designates s q fd' g o → q = p ∧ fd' = fd) := by
  have same : SameBut g s.tbl tbl' := fun k hk => by rw [c.other k hk]
  have hinode := c.inode (inv.tbl.pos g)
  rw [noDangling_put]
  by_cases he : Empties s.tbl g
  · rw [if_pos he] at hinode
    simp only [he, forall_const]
    constructor
    · rintro ⟨others, own⟩ q fd' o hd
      by_contra hne
      by_cases hq : q = p
      · subst hq
        obtain ⟨pr₁, hpr₁, hlt, hm, hg'⟩ := hd
        rw [hp] at hpr₁
        cases hpr₁
        have hfd : fd' ≠ fd := fun e => hne ⟨rfl, e⟩
        obtain ⟨k, hk, hkin⟩ := own fd' hlt o (by simpa [hfd] using hm)
        have : k = g := by
          rw [set_fdTable, if_neg hfd] at hk
          omega
        rw [this, hinode] at hkin
        cases hkin
      · have := (h.others_iff same).mp others q fd' o hq hd
        rw [hinode] at this
        cases this
    · intro hsafe
      refine ⟨(h.others_iff same).mpr fun q fd' o hq hd => absurd (hsafe q fd' o hd).1 hq,
        fun e he' o hm => ?_⟩
      by_cases hx : e = fd
      · subst hx
        simp at hm
      · rw [set_made, if_neg hx] at hm
        rw [set_fdTable, if_neg hx]
        obtain ⟨k, hk, hkin⟩ := h p pr hp e he' o hm
        have hkg : k ≠ g := fun x => hx (hsafe p e o ⟨pr, hp, he', hm, by rw [hk, x]⟩).2
        exact ⟨k, hk, by rw [same k hkg, hkin]⟩
  · rw [if_neg he] at hinode
    simp only [he, false_imp_iff, iff_true]
    have unchanged (k : Nat) : (tbl'.file k).fdInode = (s.tbl.file k).fdInode := by
      by_cases hk : k = g
      · rw [hk, hinode]
      · exact same k hk
    refine ⟨fun q pr _ hpr => (h q pr hpr).congr unchanged, fun e he' o hm => ?_⟩
    by_cases hx : e = fd
    · subst hx
      simp at hm
    · rw [set_made, if_neg hx] at hm
      rw [set_fdTable, if_neg hx]
      exact (h p pr hp).congr unchanged e he' o hm

/-- `sys_exit`: the others that lead to a slot the process empties dangle. -/
theorem FdInv.sysExit_iff (inv : FdInv s) (h : NoDangling s) (hp : s.procs p = some pr)
    (hrel : releaseFds s.tbl pr = .ok (tbl', pr')) :
    NoDangling { tbl := tbl', procs := Function.update s.procs p none } ↔
    Spares s (.sysExit p) := by
  have loop : (List.range' 3 5).foldlM releaseFd (s.tbl, pr) = .ok (tbl', pr') := hrel
  obtain ⟨_, hslot⟩ := releaseFds_ok (by decide) (by decide) (by decide) inv.tbl loop
  have survivors : NoDangling { tbl := tbl', procs := Function.update s.procs p none } ↔
      ∀ q pr, q ≠ p → s.procs q = some pr → pr.Holds tbl' := by
    unfold NoDangling
    simp only [Function.update_apply]
    constructor
    · exact fun h' q pr hq hpr => h' q pr (by rw [if_neg hq, hpr])
    · intro h' q pr hpr
      split at hpr
      · cases hpr
      next hq => exact h' q pr hq hpr
  rw [survivors]
  constructor
  · intro h' pr₀ hp₀ g he q fd o hd
    rw [hp] at hp₀
    cases hp₀
    by_contra hq
    obtain ⟨prq, hprq, hlt, hm, hg⟩ := hd
    obtain ⟨k, hk, hinode⟩ := h' q prq hq hprq fd hlt o hm
    have : k = g := by omega
    rw [this, (hslot g).1 he] at hinode
    cases hinode
  · intro hsafe q prq hq hprq fd hlt o hm
    obtain ⟨k, hk, hinode⟩ := h q prq hprq fd hlt o hm
    have hno : ¬ EmptiesAll s.tbl pr (List.range' 3 5) k := fun he =>
      hq (hsafe pr hp k he q fd o ⟨prq, hprq, hlt, hm, hk⟩)
    exact ⟨k, hk, by rw [(hslot k).2 hno, hinode]⟩

/-- `sys_pipe` fills a free slot, and both new entries lead to it. -/
theorem FdInv.sysPipe (inv : FdInv s) (h : NoDangling s) (hp : s.procs p = some pr)
    {page : Option Nat} {r : Int} (hpipe : sysPipe s.tbl pr page = .ok (tbl', pr', r)) :
    NoDangling (s.put p tbl' pr') := by
  unfold Fs.sysPipe at hpipe
  split at hpipe
  · cases hpipe
  next g hg =>
    obtain ⟨hle, hlt, free⟩ := getFreeSlot_some hg
    have fits := inv.procs p pr hp
    split at hpipe
    · cases hpipe
      have same : SameBut g s.tbl (s.tbl.setFile g { s.tbl.file g with fdInode := none }) :=
        sameBut_setFile _
      exact noDangling_put.mpr ⟨fun q pr _ hpr => (h q pr hpr).fill same free,
        (h p pr hp).fill same free⟩
    next page =>
      cases hpipe
      have same : SameBut g s.tbl (s.tbl.setFile g ⟨2, pipeFlag, some page⟩) := sameBut_setFile _
      have filled : ((s.tbl.setFile g ⟨2, pipeFlag, some page⟩).file g).fdInode = some page := by
        simp
      refine noDangling_put.mpr ⟨fun q pr _ hpr => (h q pr hpr).fill same free, ?_⟩
      refine (fits.install ⟨hle, hlt⟩).holds_install.mpr ⟨?_, .inr filled⟩
      exact fits.holds_install.mpr ⟨(h p pr hp).fill same free, .inr filled⟩

/-- `sys_fd_redirect` copies an entry together with what it was made for. -/
theorem NoDangling.sysFdRedirect (h : NoDangling s) (hp : s.procs p = some pr) {oldFd newFd : Nat}
    (hnew : newFd < 8) : NoDangling (s.put p s.tbl (sysFdRedirect pr oldFd newFd)) := by
  refine noDangling_put.mpr ⟨fun q pr _ hpr => h q pr hpr, fun e he o hm => ?_⟩
  unfold Fs.sysFdRedirect at hm ⊢
  by_cases hstd : newFd < 3
  · rw [if_pos hstd] at hm ⊢
    by_cases hx : e = oldFd
    · simp [hx] at hm
    · simpa [hx] using h p pr hp e he o (by simpa [hx] using hm)
  · rw [if_neg hstd] at hm ⊢
    by_cases hx : e = oldFd
    · simpa [hx] using h p pr hp newFd hnew o (by simpa [hx] using hm)
    · simpa [hx] using h p pr hp e he o (by simpa [hx] using hm)

/-- `update_inode_open_cnts` counts, and leaves the slots as they are. -/
theorem updateInodeOpenCnt_ok (h : updateInodeOpenCnt tbl pr fd = .ok tbl') (fits : tbl.Fits) :
    tbl'.Fits ∧ ∀ k, (tbl'.file k).fdInode = (tbl.file k).fdInode := by
  unfold updateInodeOpenCnt at h
  obtain ⟨_, _, h⟩ := bind_eq_ok.mp h
  split at h
  · obtain ⟨b, hb, h⟩ := bind_eq_ok.mp h
    unfold isPipe at hb
    obtain ⟨g, hg, hb⟩ := bind_eq_ok.mp hb
    have hg := fdLocal2global_ok hg
    have hnat : (pr.fdTable fd).toNat = g := by omega
    cases b with
    | true =>
      have hflag : (tbl.file g).fdFlag = pipeFlag := by simpa using (Except.ok.inj hb)
      have hstd : 3 ≤ g := by
        by_contra hlt
        rw [fits.std g (by omega)] at hflag
        cases hflag
      cases h
      rw [hnat]
      refine ⟨fits.setFile hstd (u32_lt ((tbl.file g).fdPos + 1)), fun k => ?_⟩
      rw [setFile_file]
      split
      next e => rw [e]
      next => rfl
    | false =>
      simp only [Bool.false_eq_true, ↓reduceIte] at h
      split at h
      · cases h
      · cases h
        exact ⟨fits.congr rfl, fun _ => rfl⟩
  · cases h
    exact ⟨fits, fun _ => rfl⟩

theorem updateInodeOpenCnts_ok {fds : List Nat}
    (h : fds.foldlM (fun tbl fd => updateInodeOpenCnt tbl pr fd) tbl = .ok tbl') (fits : tbl.Fits) :
    tbl'.Fits ∧ ∀ k, (tbl'.file k).fdInode = (tbl.file k).fdInode := by
  induction fds generalizing tbl with
  | nil => cases h; exact ⟨fits, fun _ => rfl⟩
  | cons fd fds ih =>
    rw [List.foldlM_cons] at h
    obtain ⟨tbl₁, h₁, h₂⟩ := bind_eq_ok.mp h
    obtain ⟨f₁, s₁⟩ := updateInodeOpenCnt_ok h₁ fits
    obtain ⟨f₂, s₂⟩ := ih h₂ f₁
    exact ⟨f₂, fun k => (s₂ k).trans (s₁ k)⟩

/-- A child's entries lead where its parent's do. -/
theorem NoDangling.sysFork (h : NoDangling s) (hp : s.procs p = some pr)
    (same : ∀ k, (tbl'.file k).fdInode = (s.tbl.file k).fdInode) (child : Nat) :
    NoDangling (s.put child tbl' pr) :=
  noDangling_put.mpr ⟨fun q pr _ hpr => (h q pr hpr).congr same, (h p pr hp).congr same⟩

/-! ## Steps and runs -/

theorem fdStep_run {f : Proc → Except Fault Files} {u : Unit} (hp : s.procs p = some pr)
    (st : fdStep.run s p f = .ok (s', u)) : f pr = .ok s' := by
  unfold fdStep.run at st
  simp only [hp] at st
  obtain ⟨s₁, hs₁, st⟩ := bind_eq_ok.mp st
  cases st
  exact hs₁

/-- The process of an enabled event is alive. -/
theorem idle_some (h : fdEnabled.idle s p = true) :
    ∃ pr, s.procs p = some pr ∧ pr.opening = none := by
  unfold fdEnabled.idle at h
  split at h
  next pr hpr => exact ⟨pr, hpr, by simpa using h⟩
  next => cases h

/-- THE STEP LEMMA. A step from a state without dangling descriptors leads to one exactly when it
spares the others. -/
theorem FdInv.step_exact (inv : FdInv s) (h : NoDangling s) {e : FdEvent} {u : Unit}
    (en : fdEnabled s e = true) (st : fdStep s e = .ok (s', u)) : NoDangling s' ↔ Spares s e := by
  cases e with
  | sysOpen p lookup =>
    obtain ⟨pr, hp, _⟩ := idle_some en
    cases fdStep_run hp st
    exact ⟨fun _ => trivial, fun _ => h.sysOpen hp lookup⟩
  | openEnd p answer =>
    simp only [fdEnabled] at en
    cases hp : s.procs p with
    | none => simp [hp] at en
    | some pr =>
      cases fdStep_run hp st
      simp only [hp, Option.bind_some] at en
      simp only [Spares, hp, Option.some.injEq, forall_eq']
      cases ho : pr.opening with
      | none => simp [ho] at en
      | some op =>
        cases op with
        | opened g flag =>
          cases answer with
          | synced ok => simp [ho] at en
          | inode inode cached =>
            exact inv.fileOpenEnd_iff h hp
        | created g inode =>
          cases answer with
          | inode inode cached => simp [ho] at en
          | synced ok =>
            cases ok with
            | true => exact (inv.fileCreateEnd_iff h hp inode).1
            | false => exact (inv.fileCreateEnd_iff h hp inode).2
  | sysClose p fd =>
    obtain ⟨hidle, _⟩ := Bool.and_eq_true_iff.mp en
    obtain ⟨pr, hp, _⟩ := idle_some hidle
    have st := fdStep_run hp st
    obtain ⟨⟨tbl', pr', r⟩, hclose, st⟩ := bind_eq_ok.mp st
    cases st
    rcases sysClose_ok hclose with ⟨hle, rfl, rfl⟩ | ⟨hfd, g, hg, rfl, c⟩
    · refine ⟨fun _ => ?_, fun _ => noDangling_put.mpr ⟨fun q pr _ hpr => h q pr hpr, h p _ hp⟩⟩
      intro pr' _ g hfd
      omega
    · rw [inv.sysClose_iff h hp hg c]
      simp only [Spares, hp, Option.some.injEq, forall_eq']
      constructor
      · intro hsafe k _ hk
        have : k = g := by omega
        exact this ▸ hsafe
      · exact fun hsafe => hsafe g hfd hg
  | sysPipe p page =>
    obtain ⟨pr, hp, _⟩ := idle_some en
    have st := fdStep_run hp st
    obtain ⟨⟨tbl', pr', r⟩, hpipe, st⟩ := bind_eq_ok.mp st
    cases st
    exact ⟨fun _ => trivial, fun _ => inv.sysPipe h hp hpipe⟩
  | sysFdRedirect p oldFd newFd =>
    obtain ⟨hidle, hnew⟩ := Bool.and_eq_true_iff.mp en
    obtain ⟨pr, hp, _⟩ := idle_some (Bool.and_eq_true_iff.mp hidle).1
    cases fdStep_run hp st
    exact ⟨fun _ => trivial, fun _ => h.sysFdRedirect hp (by simpa using hnew)⟩
  | sysFork p child =>
    obtain ⟨hidle, _⟩ := Bool.and_eq_true_iff.mp en
    obtain ⟨pr, hp, _⟩ := idle_some hidle
    have st := fdStep_run hp st
    obtain ⟨tbl', hcnt, st⟩ := bind_eq_ok.mp st
    cases st
    exact ⟨fun _ => trivial, fun _ => h.sysFork hp (updateInodeOpenCnts_ok hcnt inv.tbl).2 child⟩
  | sysExit p =>
    obtain ⟨pr, hp, _⟩ := idle_some en
    have st := fdStep_run hp st
    obtain ⟨⟨tbl', pr'⟩, hrel, st⟩ := bind_eq_ok.mp st
    cases st
    exact inv.sysExit_iff h hp hrel

/-! ## The invariant of every run -/

theorem FdInv.put (inv : FdInv s) (htbl : tbl'.Fits) (hpr : pr'.Fits) :
    FdInv (s.put p tbl' pr') := by
  refine ⟨htbl, fun q pr hq => ?_⟩
  simp only [Files.put, Function.update_apply] at hq
  split at hq
  · cases hq
    exact hpr
  · exact inv.procs q pr hq

theorem Table.Fits.sysOpen (htbl : tbl.Fits) (hpr : pr.Fits) (lookup : Lookup) :
    (Fs.sysOpen tbl pr lookup).1.Fits ∧ (Fs.sysOpen tbl pr lookup).2.Fits := by
  unfold Fs.sysOpen
  split
  · exact ⟨htbl, hpr⟩
  · split
    · exact ⟨htbl, hpr⟩
    next inode flag g hg =>
      obtain ⟨hle, hlt, _⟩ := getFreeSlot_some hg
      refine ⟨(htbl.setFile hle (by simp)).congr rfl, hpr.free, hpr.made, fun g x h => ?_⟩
      simp only [Option.some.injEq, reduceCtorEq, Opening.created.injEq, false_or] at h
      exact ⟨h.1 ▸ hle, h.1 ▸ hlt⟩
  · split
    · exact ⟨htbl, hpr⟩
    next flag g hg =>
      obtain ⟨hle, hlt, _⟩ := getFreeSlot_some hg
      refine ⟨htbl, hpr.free, hpr.made, fun g x h => ?_⟩
      simp only [Option.some.injEq, reduceCtorEq, Opening.opened.injEq, or_false] at h
      exact ⟨h.1 ▸ hle, h.1 ▸ hlt⟩

theorem Table.Fits.sysOpenEnd (htbl : tbl.Fits) (hpr : pr.Fits) (answer : DiskAnswer) :
    (Fs.sysOpenEnd tbl pr answer).1.Fits ∧ (Fs.sysOpenEnd tbl pr answer).2.Fits := by
  have done : ({ pr with opening := none } : Proc).Fits := ⟨hpr.free, hpr.made, nofun⟩
  unfold Fs.sysOpenEnd
  split
  next g flag inode cached ho =>
    obtain ⟨hle, hlt⟩ := hpr.opening g flag (.inl ho)
    have slot : ((inodeOpen tbl inode cached).setFile g ⟨0, flag, some inode⟩).Fits :=
      (htbl.congr inodeOpen_file).setFile hle (by simp)
    unfold fileOpenEnd
    dsimp only
    split
    · split
      · exact ⟨slot, done⟩
      · exact ⟨slot.congr rfl, done.install ⟨hle, hlt⟩⟩
    · exact ⟨slot, done.install ⟨hle, hlt⟩⟩
  next g inode ok ho =>
    obtain ⟨hle, hlt⟩ := hpr.opening g inode (.inr ho)
    unfold fileCreateEnd
    split
    · exact ⟨htbl.congr rfl, done.install ⟨hle, hlt⟩⟩
    · exact ⟨htbl.setFile hle (by simp), done⟩
  next => exact ⟨htbl, hpr⟩

theorem Table.Fits.sysPipe (htbl : tbl.Fits) (hpr : pr.Fits) {page : Option Nat} {r : Int}
    (h : Fs.sysPipe tbl pr page = .ok (tbl', pr', r)) : tbl'.Fits ∧ pr'.Fits := by
  unfold Fs.sysPipe at h
  split at h
  · cases h
  next g hg =>
    obtain ⟨hle, hlt, _⟩ := getFreeSlot_some hg
    split at h
    · cases h
      exact ⟨htbl.setFile hle (htbl.pos g), hpr⟩
    · cases h
      exact ⟨htbl.setFile hle (by simp), (hpr.install ⟨hle, hlt⟩).install ⟨hle, hlt⟩⟩

theorem Proc.Fits.sysFdRedirect (hpr : pr.Fits) {oldFd newFd : Nat} (hnew : newFd < 8) :
    (Fs.sysFdRedirect pr oldFd newFd).Fits := by
  unfold Fs.sysFdRedirect
  split
  · exact hpr.set (x := none) (by omega)
  · refine hpr.set ?_
    split
    next hm => exact hpr.free newFd hnew hm
    next o hm => exact hpr.made newFd hnew o hm

theorem FdInv.next (inv : FdInv s) {e : FdEvent} {u : Unit} (en : fdEnabled s e = true)
    (st : fdStep s e = .ok (s', u)) : FdInv s' := by
  have htbl := inv.tbl
  cases e with
  | sysOpen p lookup =>
    obtain ⟨pr, hp, _⟩ := idle_some en
    cases fdStep_run hp st
    obtain ⟨h₁, h₂⟩ := htbl.sysOpen (inv.procs p pr hp) lookup
    exact inv.put h₁ h₂
  | openEnd p answer =>
    cases hp : s.procs p with
    | none => simp [fdEnabled, hp] at en
    | some pr =>
      cases fdStep_run hp st
      obtain ⟨h₁, h₂⟩ := htbl.sysOpenEnd (inv.procs p pr hp) answer
      exact inv.put h₁ h₂
  | sysClose p fd =>
    obtain ⟨hidle, _⟩ := Bool.and_eq_true_iff.mp en
    obtain ⟨pr, hp, _⟩ := idle_some hidle
    have st := fdStep_run hp st
    obtain ⟨⟨tbl', pr', r⟩, hclose, st⟩ := bind_eq_ok.mp st
    cases st
    have fits := inv.procs p pr hp
    rcases sysClose_ok hclose with ⟨_, rfl, rfl⟩ | ⟨_, g, _, rfl, c⟩
    · exact inv.put htbl fits
    · exact inv.put (c.fits htbl) (fits.set (x := none) (.inl rfl))
  | sysPipe p page =>
    obtain ⟨pr, hp, _⟩ := idle_some en
    have st := fdStep_run hp st
    obtain ⟨⟨tbl', pr', r⟩, hpipe, st⟩ := bind_eq_ok.mp st
    cases st
    obtain ⟨h₁, h₂⟩ := htbl.sysPipe (inv.procs p pr hp) hpipe
    exact inv.put h₁ h₂
  | sysFdRedirect p oldFd newFd =>
    obtain ⟨hidle, hnew⟩ := Bool.and_eq_true_iff.mp en
    obtain ⟨pr, hp, _⟩ := idle_some (Bool.and_eq_true_iff.mp hidle).1
    cases fdStep_run hp st
    exact inv.put htbl ((inv.procs p pr hp).sysFdRedirect (by simpa using hnew))
  | sysFork p child =>
    obtain ⟨hidle, _⟩ := Bool.and_eq_true_iff.mp en
    obtain ⟨pr, hp, _⟩ := idle_some hidle
    have st := fdStep_run hp st
    obtain ⟨tbl', hcnt, st⟩ := bind_eq_ok.mp st
    cases st
    exact inv.put (updateInodeOpenCnts_ok hcnt htbl).1 (inv.procs p pr hp)
  | sysExit p =>
    obtain ⟨pr, hp, _⟩ := idle_some en
    have st := fdStep_run hp st
    obtain ⟨⟨tbl', pr'⟩, hrel, st⟩ := bind_eq_ok.mp st
    cases st
    have loop : (List.range' 3 5).foldlM releaseFd (s.tbl, pr) = .ok (tbl', pr') := hrel
    refine ⟨(releaseFds_ok (by decide) (by decide) (by decide) htbl loop).1, fun q pr hq => ?_⟩
    simp only [Function.update_apply] at hq
    split at hq
    · cases hq
    · exact inv.procs q pr hq

theorem fdStart_inv (live : Nat → Bool) : FdInv (fdStart live) ∧ NoDangling (fdStart live) := by
  have init {p : Nat} {pr : Proc} (h : (fdStart live).procs p = some pr) : pr = initProc := by
    unfold fdStart at h
    dsimp only at h
    split at h
    · exact (Option.some.inj h).symm
    · cases h
  refine ⟨⟨⟨fun _ _ => rfl, fun _ => by simp [fdStart]⟩, fun p pr h => ?_⟩, fun p pr h => ?_⟩
  · rw [init h]
    refine ⟨fun fd _ _ => ?_, fun fd _ o hm => (by cases hm), fun g x ho => ?_⟩
    · show (if fd < 3 then (fd : Int) else -1) = -1 ∨ _
      unfold initProc
      dsimp only
      split <;> omega
    · rcases ho with ho | ho <;> cases ho
  · rw [init h]
    exact fun fd _ o hm => by cases hm

/-- NO DANGLING DESCRIPTOR, EXACTLY. Over any processes and any interleaving of opens, closes,
pipes, redirections, forks and exits, the descriptors are whole in every state of a run if and
only if every step of the run spares the descriptors of the others. -/
theorem no_dangling_iff {live : Nat → Bool} {tr : List (Entry Files FdEvent Unit)}
    (path : fdMachine.Path (fdStart live) tr s) :
    Machine.Always NoDangling tr s ↔ Machine.Meets Spares tr :=
  path.always_iff (fdStart_inv live).1 (fdStart_inv live).2 (fun inv en st => inv.next en st)
    fun inv h en st => inv.step_exact h en st

theorem put_procs_other {s : Files} {p q : Nat} {tbl : Table} {pr : Proc} (h : q ≠ p) :
    (s.put p tbl pr).procs q = s.procs q := Function.update_of_ne h _ _

/-- Only process 1 is there at the start. -/
theorem started_alone {q : Nat} (h : q ≠ 1) : (fdStart fun p => p == 1).procs q = none :=
  if_neg (by simpa using h)

/-- Process 1 opens a file and forks 2, which opens another one and closes it again. -/
def forkedRun : List FdEvent :=
  [.sysOpen 1 (.exists 0), .openEnd 1 (.inode 7 false), .sysFork 1 2, .sysOpen 2 (.exists 0),
   .openEnd 2 (.inode 9 false), .sysClose 2 4]

/-- Every step of that run spares the others, and so no descriptor dangles in any state of it. -/
theorem no_dangling_iff_forked :
    ∃ tr s, fdMachine.Path (fdStart fun p => p == 1) tr s ∧ tr.map (·.event) = forkedRun ∧
      Machine.Always NoDangling tr s := by
  have opened := Machine.Path.start.step (M := fdMachine) (s := fdStart fun p => p == 1)
    (e := .sysOpen 1 (.exists 0)) (by decide) rfl
  have opened := opened.step (e := .openEnd 1 (.inode 7 false)) (by decide) rfl
  have forked := opened.step (e := .sysFork 1 2) (by decide) rfl
  have again := forked.step (e := .sysOpen 2 (.exists 0)) (by decide) rfl
  have again := again.step (e := .openEnd 2 (.inode 9 false)) (by decide) rfl
  have closed := again.step (e := .sysClose 2 4) (by decide) rfl
  refine ⟨_, _, closed, rfl, (no_dangling_iff closed).mpr fun entry hmem => ?_⟩
  simp only [List.nil_append, List.cons_append, List.mem_cons, List.not_mem_nil, or_false] at hmem
  rcases hmem with rfl | rfl | rfl | rfl | rfl | rfl
  · trivial
  · rintro pr ⟨⟩ q fd o ⟨pr, hq, hfd, hm, hg⟩
    by_cases e : q = 1
    · subst e
      cases hq
      cases hm
    · rw [put_procs_other e, started_alone e] at hq
      cases hq
  · trivial
  · trivial
  · rintro pr ⟨⟩ q fd o ⟨pr, hq, hfd, hm, hg⟩
    by_cases e₂ : q = 2
    · subst e₂
      cases hq
      interval_cases fd <;> first | cases hm; done | cases hg
    · by_cases e₁ : q = 1
      · subst e₁
        cases hq
        interval_cases fd <;> first | cases hm; done | cases hg
      · rw [put_procs_other e₂, put_procs_other e₂, put_procs_other e₁, put_procs_other e₁,
          started_alone e₁] at hq
        cases hq
  · rintro pr ⟨⟩ g hfd hg hempty q fd o ⟨pr, hq, hfd, hm, hg'⟩
    cases hg
    by_cases e₂ : q = 2
    · subst e₂
      cases hq
      refine ⟨rfl, ?_⟩
      interval_cases fd <;> first | rfl | cases hm; done | cases hg'
    · by_cases e₁ : q = 1
      · subst e₁
        cases hq
        interval_cases fd <;> first | cases hm; done | cases hg'
      · rw [put_procs_other e₂, put_procs_other e₂, put_procs_other e₂, put_procs_other e₁,
          put_procs_other e₁, started_alone e₁] at hq
        cases hq

/-- Process 1 opens a file and forks 2, which closes its descriptor. -/
def danglingRun : List FdEvent :=
  [.sysOpen 1 (.exists 0), .openEnd 1 (.inode 7 false), .sysFork 1 2, .sysClose 2 3]

/-- Process 1 has not closed descriptor 3, and its slot is empty. -/
theorem descriptor_dangles :
    ¬ ∀ tr s, fdMachine.Path (fdStart fun p => p == 1) tr s → NoDangling s := by
  intro h
  have run : ((fdMachine.exec (fdStart fun p => p == 1) danglingRun).map fun s =>
      (s.procs 1).map fun pr => decide (pr.made 3 = some 7 ∧ pr.fdTable 3 = 3 ∧
        (s.tbl.file 3).fdInode = none)) =
        some (some true) := by
    decide +kernel
  obtain ⟨s, hs, hbad⟩ := Option.map_eq_some_iff.mp run
  obtain ⟨tr, path⟩ := Machine.exec_path _ hs
  obtain ⟨pr, hpr, hbad⟩ := Option.map_eq_some_iff.mp hbad
  obtain ⟨hm, hfd, hempty⟩ := of_decide_eq_true hbad
  obtain ⟨g, hg, hinode⟩ := h tr s path 1 pr hpr 3 (by decide) 7 hm
  have : g = 3 := by omega
  rw [this, hempty] at hinode
  cases hinode

end SeekingOs.Fs
