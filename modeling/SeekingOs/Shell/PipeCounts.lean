import Mathlib.Algebra.BigOperators.Group.Finset.Piecewise
import Mathlib.Algebra.Order.BigOperators.Group.Finset
import Mathlib.Order.Interval.Finset.Nat
import SeekingOs.Fs.Descriptors
import SeekingOs.Lib.Machine

/-!
# How many descriptors a pipe has

`fd_pos` of a pipe's slot is written by `sys_pipe`, counted up by `fork` for the child and down by
`sys_close` and by `release_prog_resource`, each of which asks `fd_flag` whether a descriptor is a
pipe's. The descriptors 0 to 2 are in none of these loops, so that what `sys_fd_redirect` makes of
them is not counted.

There are no files here: whatever is open from descriptor 3 on is a pipe.
-/

namespace SeekingOs.Shell

open Lib Fs

/-- The numbers that `allocate_pid` has. -/
@[irreducible] def pids : Finset Nat := Finset.Icc 1 1024

/-- The entries of `fd_table` that the loops go through. -/
def localFds : List Nat := List.range' 3 5

/-- How many of them lead a process to slot `g`. -/
def ends (pr : Option Proc) (g : Nat) : Nat := pr.elim 0 fun pr => leadsTo pr g localFds

/-- How many pairs there are of a living process and a descriptor from 3 on that leads to slot `g`.
-/
def descriptors (s : Files) (g : Nat) : Nat := ∑ p ∈ pids, ends (s.procs p) g

/-! ## The calls, with the pages that they free -/

/-- What `mfree_page` gets when a pipe loses a descriptor. -/
def freesPage (tbl : Table) (g : Nat) : List (Option Nat) :=
  if u32 ((tbl.file g).fdPos - 1) = 0 then [(tbl.file g).fdInode] else []

/-- What `mfree_page` gets from `sys_close`. -/
def closeFrees (tbl : Table) (pr : Proc) (fd : Int) : Except Fault (List (Option Nat)) :=
  if fd > 2 then do
    let globalFd ← fdLocal2global pr fd.toNat
    if ← isPipe tbl pr fd.toNat then return freesPage tbl globalFd else return []
  else return []

/-- What it gets from the last loop of `release_prog_resource`. -/
def releaseFrees : Table × Proc → List Nat → Except Fault (List (Option Nat))
  | _, [] => return []
  | (tbl, pr), fd :: rest => do
    let freed ← if pr.fdTable fd ≠ -1 then closeFrees tbl pr fd else pure []
    let st ← releaseFd (tbl, pr) fd
    return freed ++ (← releaseFrees st rest)

/-- What a process does next. `page` is what `get_kernel_pages` answers, and `child` the new process
unless there is no memory for it. -/
inductive PipeEvent where
  | sysPipe (p : Nat) (page : Option Nat)
  | sysFork (p : Nat) (child : Option Nat)
  | sysClose (p : Nat) (fd : Int)
  | sysExit (p : Nat)
  | sysFdRedirect (p oldFd newFd : Nat)
  deriving DecidableEq, Repr

/-- When a call may be made. -/
def pipeEnabled (s : Files) : PipeEvent → Prop
  | .sysPipe p page => ∃ pr, s.procs p = some pr ∧ getFreeSlot s.tbl ≠ none ∧
      2 ≤ (localFds.countP fun fd => pr.fdTable fd == -1) ∧ ∀ g, page ≠ none →
        (s.tbl.file g).fdInode ≠ page
  | .sysFork p child => (s.procs p).isSome ∧ ∀ c, child = some c → s.procs c = none ∧ c ∈ pids
  | .sysClose p fd => ∃ pr, s.procs p = some pr ∧ (fd ≤ 2 ∨ fd < 8 ∧ pr.fdTable fd.toNat ≠ -1)
  | .sysExit p => (s.procs p).isSome
  | .sysFdRedirect p oldFd _ => (s.procs p).isSome ∧ oldFd < 3

/-- One step, and the pages that it frees. -/
def pipeStep (s : Files) : PipeEvent → Except Fault (Files × List (Option Nat))
  | .sysPipe p page => run p fun pr => do
    let (tbl, pr, _) ← sysPipe s.tbl pr page
    return (s.put p tbl pr, [])
  | .sysFork p child => run p fun pr =>
    match child with
    | none => return (s, [])
    | some child => do
      let tbl ← updateInodeOpenCnts s.tbl pr
      return (s.put child tbl pr, [])
  | .sysClose p fd => run p fun pr => do
    let freed ← closeFrees s.tbl pr fd
    let (tbl, pr, _) ← sysClose s.tbl pr fd
    return (s.put p tbl pr, freed)
  | .sysExit p => run p fun pr => do
    let freed ← releaseFrees (s.tbl, pr) localFds
    let (tbl, _) ← releaseFds s.tbl pr
    return ({ tbl, procs := Function.update s.procs p none }, freed)
  | .sysFdRedirect p oldFd newFd => run p fun pr =>
      return (s.put p s.tbl (sysFdRedirect pr oldFd newFd), [])
where
  run (p : Nat) (f : Proc → Except Fault (Files × List (Option Nat))) :
    Except Fault (Files × List (Option Nat)) :=
    match s.procs p with
    | some pr => f pr
    | none => .ok (s, [])

/-- Processes with pipes and without files. -/
def pipeMachine : Machine Files PipeEvent (List (Option Nat)) Fault := ⟨pipeEnabled, pipeStep⟩

/-! ## Counting -/

variable {tbl tbl' : Table} {pr : Proc} {s s' : Files} {g fd p : Nat} {fds : List Nat}

theorem leadsTo_cons_of (h : pr.fdTable fd = (g : Int)) :
    leadsTo pr g (fd :: fds) = leadsTo pr g fds + 1 :=
  List.countP_cons_of_pos (by simpa using h)

theorem leadsTo_cons_other (h : pr.fdTable fd ≠ (g : Int)) :
    leadsTo pr g (fd :: fds) = leadsTo pr g fds :=
  List.countP_cons_of_neg (by simpa using h)

/-- An entry changes. -/
theorem countP_set (pr : Proc) (nodup : fds.Nodup) (hfd : fd ∈ fds) (v : Int)
    (object : Option Nat) (w : Int) :
    (fds.countP fun e => (pr.set fd v object).fdTable e == w) +
      (if pr.fdTable fd = w then 1 else 0) =
      (fds.countP fun e => pr.fdTable e == w) + (if v = w then 1 else 0) := by
  have front (q : Proc) : (fds.countP fun e => q.fdTable e == w) =
      ((fds.erase fd).countP fun e => q.fdTable e == w) + if q.fdTable fd = w then 1 else 0 := by
    rw [(List.perm_cons_erase hfd).countP_eq, List.countP_cons]
    simp
  have rest : ((fds.erase fd).countP fun e => (pr.set fd v object).fdTable e == w) =
      (fds.erase fd).countP fun e => pr.fdTable e == w := by
    apply List.countP_congr
    intro e he
    have other : e ≠ fd := ((List.Nodup.mem_erase_iff nodup).mp he).1
    rw [set_fdTable, if_neg other]
  rw [front, front pr, rest, set_fdTable, if_pos rfl]
  omega

theorem leadsTo_set (pr : Proc) (nodup : fds.Nodup) (hfd : fd ∈ fds) (v : Int)
    (object : Option Nat) (g : Nat) :
    leadsTo (pr.set fd v object) g fds + (if pr.fdTable fd = g then 1 else 0) =
      leadsTo pr g fds + (if v = g then 1 else 0) :=
  countP_set pr nodup hfd v object g

/-- An entry that is not in the loops. -/
theorem leadsTo_set_other (hfd : fd ∉ fds) (v : Int) (object : Option Nat) (g : Nat) :
    leadsTo (pr.set fd v object) g fds = leadsTo pr g fds := by
  apply List.countP_congr
  intro e he
  have other : e ≠ fd := fun h => hfd (h ▸ he)
  rw [set_fdTable, if_neg other]

theorem leadsTo_pos : 0 < leadsTo pr g fds ↔ ∃ fd ∈ fds, pr.fdTable fd = g := by
  unfold leadsTo
  rw [List.countP_pos_iff]
  simp

/-- One process changes. -/
theorem descriptors_update (hp : p ∈ pids) (o : Option Proc) (tbl : Table) (g : Nat) :
    descriptors ⟨tbl, Function.update s.procs p o⟩ g + ends (s.procs p) g =
      descriptors s g + ends o g := by
  unfold descriptors
  dsimp only
  have move : (fun q => ends (Function.update s.procs p o q) g) =
      Function.update (fun q => ends (s.procs q) g) p (ends o g) := by
    funext q
    by_cases hq : q = p
    · subst hq
      rw [Function.update_self, Function.update_self]
    · rw [Function.update_of_ne hq, Function.update_of_ne hq]
  rw [move, Finset.sum_update_of_mem hp, ← Finset.add_sum_erase pids _ hp,
    Finset.sdiff_singleton_eq_erase]
  omega

theorem ends_le (pr : Option Proc) (g : Nat) : ends pr g ≤ 5 := by
  cases pr with
  | none => exact Nat.zero_le _
  | some pr => exact List.countP_le_length

/-- The count fits. -/
theorem descriptors_le (s : Files) (g : Nat) : descriptors s g ≤ 5120 := by
  have bound := Finset.sum_le_card_nsmul pids (fun p => ends (s.procs p) g) 5 fun p _ => ends_le _ _
  have card : pids.card = 1024 := by
    unfold pids
    exact Nat.card_Icc 1 1024
  rw [card] at bound
  exact bound

theorem ends_le_descriptors (hp : p ∈ pids) (g : Nat) : ends (s.procs p) g ≤ descriptors s g :=
  Finset.single_le_sum (f := fun p => ends (s.procs p) g) (fun _ _ => Nat.zero_le _) hp

/-! ## A slot that loses descriptors -/

/-- The slot after `n` descriptors were given back. -/
def File.drop (f : File) (n : Nat) : File :=
  if n = 0 then f
  else { f with fdPos := f.fdPos - n, fdInode := if f.fdPos - n = 0 then none else f.fdInode }

@[simp] theorem drop_zero (f : File) : File.drop f 0 = f := rfl

theorem drop_succ (f : File) (n : Nat) (h : n + 1 ≤ f.fdPos) :
    File.drop (File.drop f 1) n = File.drop f (n + 1) := by
  cases n with
  | zero => rfl
  | succ n =>
    unfold File.drop
    simp only [Nat.succ_ne_zero, if_false]
    have more : ¬ f.fdPos - 1 = 0 := by omega
    have same : f.fdPos - 1 - (n + 1) = f.fdPos - (n + 1 + 1) := by omega
    rw [if_neg more, same]

@[simp] theorem drop_fdFlag (f : File) (n : Nat) : (File.drop f n).fdFlag = f.fdFlag := by
  unfold File.drop
  split
  next => rfl
  next => rfl

theorem pipeClose_eq (hpos : 0 < (tbl.file g).fdPos) (hlt : (tbl.file g).fdPos < 2 ^ 32) :
    pipeClose tbl g = tbl.setFile g (File.drop (tbl.file g) 1) := by
  have less : u32 (((tbl.file g).fdPos : Int) - 1) = (tbl.file g).fdPos - 1 := by
    rw [u32_pred hlt, if_neg (by omega)]
  unfold pipeClose
  dsimp only
  rw [less]
  rfl

theorem freesPage_eq (hpos : 0 < (tbl.file g).fdPos) (hlt : (tbl.file g).fdPos < 2 ^ 32) :
    freesPage tbl g = if (tbl.file g).fdPos = 1 then [(tbl.file g).fdInode] else [] := by
  have less : u32 (((tbl.file g).fdPos : Int) - 1) = (tbl.file g).fdPos - 1 := by
    rw [u32_pred hlt, if_neg (by omega)]
  have last : (tbl.file g).fdPos - 1 = 0 ↔ (tbl.file g).fdPos = 1 := by omega
  unfold freesPage
  rw [less]
  exact if_congr last rfl rfl

/-! ## The loops -/

/-- Descriptor `fd` leads to the slot of a pipe. -/
def OnPipe (tbl : Table) (pr : Proc) (fd g : Nat) : Prop :=
  pr.fdTable fd = g ∧ g < 32 ∧ (tbl.file g).fdFlag = pipeFlag

theorem OnPipe.local2global (on : OnPipe tbl pr fd g) : fdLocal2global pr fd = .ok g := by
  have range : (g : Int) ≥ 0 ∧ (g : Int) ≤ maxFilesOpen := by
    have := on.2.1
    unfold maxFilesOpen
    omega
  unfold fdLocal2global
  rw [on.1]
  dsimp only
  rw [assertThat_of range, ok_bind]
  rfl

theorem OnPipe.isPipe (on : OnPipe tbl pr fd g) : isPipe tbl pr fd = .ok true := by
  unfold Fs.isPipe
  rw [on.local2global, ok_bind, on.2.2]
  rfl

theorem OnPipe.sysClose (on : OnPipe tbl pr fd g) (hfd : 2 < fd) :
    sysClose tbl pr fd = .ok (pipeClose tbl g, pr.set fd (-1) none, 0) := by
  unfold Fs.sysClose
  rw [if_pos (by omega), Int.toNat_natCast, on.local2global, ok_bind, on.isPipe, ok_bind]
  rfl

theorem OnPipe.closeFrees (on : OnPipe tbl pr fd g) (hfd : 2 < fd) :
    closeFrees tbl pr fd = .ok (freesPage tbl g) := by
  unfold Shell.closeFrees
  rw [if_pos (by omega), Int.toNat_natCast, on.local2global, ok_bind, on.isPipe, ok_bind]
  rfl

theorem OnPipe.releaseFd (on : OnPipe tbl pr fd g) :
    releaseFd (tbl, pr) fd = .ok (pipeClose tbl g, pr) := by
  have hne : pr.fdTable fd ≠ -1 := by
    rw [on.1]
    omega
  unfold Fs.releaseFd
  dsimp only
  rw [if_pos hne, on.isPipe, ok_bind, if_pos rfl, on.local2global, ok_bind]
  rfl

/-- Every entry is free or leads to a pipe. -/
def OnPipes (tbl : Table) (pr : Proc) (fds : List Nat) : Prop :=
  ∀ fd ∈ fds, pr.fdTable fd = -1 ∨ ∃ g, OnPipe tbl pr fd g

/-- Each slot `g` has lost `n g` descriptors, and `gs` are those that have lost their last one. -/
structure Drops (tbl : Table) (n : Nat → Nat) (tbl' : Table) (gs : List Nat) : Prop where
  files : ∀ g, tbl'.file g = File.drop (tbl.file g) (n g)
  nodup : gs.Nodup
  last : ∀ g, g ∈ gs ↔ 0 < n g ∧ (tbl.file g).fdPos = n g

/-- Slot `k` loses one more, before the others. -/
theorem Drops.cons {n n' : Nat → Nat} {gs : List Nat} {k : Nat}
    (drops : Drops (tbl.setFile k (File.drop (tbl.file k) 1)) n tbl' gs) (one : n' k = n k + 1)
    (other : ∀ g, g ≠ k → n' g = n g) (enough : n k + 1 ≤ (tbl.file k).fdPos) :
    Drops tbl n' tbl' (if (tbl.file k).fdPos = 1 then k :: gs else gs) := by
  have kept (g : Nat) (h : g ≠ k) : (tbl.setFile k (File.drop (tbl.file k) 1)).file g =
      tbl.file g := by
    rw [setFile_file, if_neg h]
  have lost : (tbl.setFile k (File.drop (tbl.file k) 1)).file k = File.drop (tbl.file k) 1 := by
    rw [setFile_file, if_pos rfl]
  have pos : (File.drop (tbl.file k) 1).fdPos = (tbl.file k).fdPos - 1 := rfl
  have later : k ∈ gs ↔ 0 < n k ∧ (tbl.file k).fdPos - 1 = n k := by
    rw [drops.last, lost, pos]
  constructor
  · intro g
    rw [drops.files]
    by_cases h : g = k
    · rw [h, lost, drop_succ _ _ enough, one]
    · rw [kept g h, other g h]
  · split
    next hone =>
      refine List.nodup_cons.mpr ⟨fun h => ?_, drops.nodup⟩
      have := later.mp h
      omega
    next => exact drops.nodup
  · intro g
    by_cases h : g = k
    · subst h
      rw [one]
      split
      next hone =>
        rw [List.mem_cons]
        exact ⟨fun _ => by omega, fun _ => .inl rfl⟩
      next => exact later.trans (by omega)
    · have mem : (g ∈ if (tbl.file k).fdPos = 1 then k :: gs else gs) ↔ g ∈ gs := by
        split
        next => simp [h]
        next => exact Iff.rfl
      rw [mem, drops.last, kept g h, other g h]

/-- THE LOOP OF `release_prog_resource`. Each slot loses the descriptors that lead to it, and the
pages of those that lose their last one are freed, once each. -/
theorem releaseFds_drops (hfds : ∀ fd ∈ fds, 2 < fd) (on : OnPipes tbl pr fds)
    (enough : ∀ g, leadsTo pr g fds ≤ (tbl.file g).fdPos ∧
      (0 < leadsTo pr g fds → (tbl.file g).fdPos < 2 ^ 32)) :
    ∃ tbl' gs, fds.foldlM releaseFd (tbl, pr) = .ok (tbl', pr) ∧
      Drops tbl (leadsTo pr · fds) tbl' gs ∧
      releaseFrees (tbl, pr) fds = .ok (gs.map fun g => (tbl.file g).fdInode) := by
  induction fds generalizing tbl with
  | nil =>
    exact ⟨tbl, [], rfl, ⟨fun g => rfl, List.nodup_nil,
      fun g => iff_of_false List.not_mem_nil fun h => Nat.lt_irrefl 0 h.1⟩, rfl⟩
  | cons fd fds ih =>
    obtain ⟨hfd, hfds⟩ := List.forall_mem_cons.mp hfds
    obtain ⟨first, rest⟩ := List.forall_mem_cons.mp on
    rw [List.foldlM_cons]
    unfold releaseFrees
    rcases first with free | ⟨k, lead⟩
    · -- a free entry
      have other (g : Nat) : leadsTo pr g (fd :: fds) = leadsTo pr g fds :=
        leadsTo_cons_other (by rw [free]; omega)
      have nothing : Fs.releaseFd (tbl, pr) fd = .ok (tbl, pr) := by
        unfold Fs.releaseFd
        dsimp only
        rw [if_neg (not_not.mpr free)]
        rfl
      obtain ⟨tbl', gs, hloop, drops, hfrees⟩ := ih hfds rest fun g => other g ▸ enough g
      refine ⟨tbl', gs, ?_, ?_, ?_⟩
      · rw [nothing]
        exact hloop
      · simp only [other]
        exact drops
      · rw [if_neg (not_not.mpr free), nothing]
        show (do let rest ← releaseFrees (tbl, pr) fds; pure ([] ++ rest)) = _
        rw [hfrees]
        rfl
    · -- slot `k` loses a descriptor
      have one : leadsTo pr k (fd :: fds) = leadsTo pr k fds + 1 := leadsTo_cons_of lead.1
      have other (g : Nat) (h : g ≠ k) : leadsTo pr g (fd :: fds) = leadsTo pr g fds :=
        leadsTo_cons_other (by rw [lead.1]; omega)
      obtain ⟨hle, hlt⟩ := enough k
      rw [one] at hle hlt
      have hpos : 0 < (tbl.file k).fdPos := by omega
      have hlt := hlt (Nat.succ_pos _)
      have kept (g : Nat) (h : g ≠ k) : (tbl.setFile k (File.drop (tbl.file k) 1)).file g =
          tbl.file g := by
        rw [setFile_file, if_neg h]
      have lost : (tbl.setFile k (File.drop (tbl.file k) 1)).file k = File.drop (tbl.file k) 1 := by
        rw [setFile_file, if_pos rfl]
      have flags (g : Nat) : ((tbl.setFile k (File.drop (tbl.file k) 1)).file g).fdFlag =
          (tbl.file g).fdFlag := by
        by_cases h : g = k
        · rw [h, lost, drop_fdFlag]
        · rw [kept g h]
      have rest : OnPipes (tbl.setFile k (File.drop (tbl.file k) 1)) pr fds := by
        intro e he
        exact (rest e he).imp_right fun ⟨g, leads, hg, flag⟩ => ⟨g, leads, hg, (flags g).trans flag⟩
      have enough' :
          ∀ g, leadsTo pr g fds ≤ ((tbl.setFile k (File.drop (tbl.file k) 1)).file g).fdPos ∧
          (0 < leadsTo pr g fds → ((tbl.setFile k (File.drop (tbl.file k) 1)).file g).fdPos <
            2 ^ 32) := by
        intro g
        by_cases h : g = k
        · have pos : (File.drop (tbl.file k) 1).fdPos = (tbl.file k).fdPos - 1 := rfl
          rw [h, lost, pos]
          omega
        · rw [kept g h, ← other g h]
          exact enough g
      obtain ⟨tbl', gs, hloop, drops, hfrees⟩ := ih hfds rest enough'
      have all := drops.cons one other hle
      refine ⟨tbl', _, ?_, all, ?_⟩
      · rw [lead.releaseFd, pipeClose_eq hpos hlt]
        exact hloop
      · have hne : pr.fdTable fd ≠ -1 := by
          rw [lead.1]
          omega
        rw [if_pos hne, lead.closeFrees hfd, ok_bind]
        dsimp only
        rw [lead.releaseFd, ok_bind, pipeClose_eq hpos hlt, hfrees, ok_bind, freesPage_eq hpos hlt]
        -- the pages are the ones that were there before
        have pages : ∀ g ∈ gs, ((tbl.setFile k (File.drop (tbl.file k) 1)).file g).fdInode =
            (tbl.file g).fdInode := by
          intro g hg
          by_cases h : g = k
          · subst h
            have later := (drops.last g).mp hg
            rw [lost] at later ⊢
            have pos : (File.drop (tbl.file g) 1).fdPos = (tbl.file g).fdPos - 1 := rfl
            have more : ¬ (tbl.file g).fdPos - 1 = 0 := by omega
            exact if_neg more
          · rw [kept g h]
        rw [List.map_congr_left pages]
        split
        next => rfl
        next => rfl

/-- THE LOOP OF `update_inode_open_cnts`. Each slot gets the descriptors that lead to it once more.
-/
theorem updateInodeOpenCnts_adds (on : OnPipes tbl pr fds)
    (room : ∀ g, 0 < leadsTo pr g fds → (tbl.file g).fdPos + leadsTo pr g fds < 2 ^ 32) :
    ∃ tbl', fds.foldlM (fun tbl fd => updateInodeOpenCnt tbl pr fd) tbl = .ok tbl' ∧
      ∀ g, tbl'.file g = { tbl.file g with fdPos := (tbl.file g).fdPos + leadsTo pr g fds } := by
  induction fds generalizing tbl with
  | nil => exact ⟨tbl, rfl, fun g => rfl⟩
  | cons fd fds ih =>
    obtain ⟨first, rest⟩ := List.forall_mem_cons.mp on
    rw [List.foldlM_cons]
    rcases first with free | ⟨k, lead⟩
    · -- a free entry
      have other (g : Nat) : leadsTo pr g (fd :: fds) = leadsTo pr g fds :=
        leadsTo_cons_other (by rw [free]; omega)
      have nothing : updateInodeOpenCnt tbl pr fd = .ok tbl := by
        unfold updateInodeOpenCnt
        rw [free]
        rfl
      obtain ⟨tbl', hloop, files⟩ := ih rest fun g => other g ▸ room g
      refine ⟨tbl', ?_, fun g => ?_⟩
      · rw [nothing]
        exact hloop
      · rw [other]
        exact files g
    · -- a descriptor of slot `k`
      have one : leadsTo pr k (fd :: fds) = leadsTo pr k fds + 1 := leadsTo_cons_of lead.1
      have other (g : Nat) (h : g ≠ k) : leadsTo pr g (fd :: fds) = leadsTo pr g fds :=
        leadsTo_cons_other (by rw [lead.1]; omega)
      have fits := room k
      rw [one] at fits
      have next : u32 (((tbl.file k).fdPos : Int) + 1) = (tbl.file k).fdPos + 1 :=
        u32_of_lt (n := (tbl.file k).fdPos + 1) (by omega)
      have step : updateInodeOpenCnt tbl pr fd =
          .ok (tbl.setFile k { tbl.file k with fdPos := (tbl.file k).fdPos + 1 }) := by
        have range : pr.fdTable fd < maxFilesOpen := by
          rw [lead.1]
          exact Int.ofNat_lt.mpr lead.2.1
        have hne : pr.fdTable fd ≠ -1 := by
          rw [lead.1]
          omega
        unfold updateInodeOpenCnt
        dsimp only
        rw [assertThat_of range, ok_bind, if_pos hne, lead.isPipe, ok_bind, if_pos rfl, lead.1,
          Int.toNat_natCast, next]
        rfl
      have now (g : Nat) :
          (tbl.setFile k { tbl.file k with fdPos := (tbl.file k).fdPos + 1 }).file g =
          { tbl.file g with fdPos := (tbl.file g).fdPos + if g = k then 1 else 0 } := by
        rw [setFile_file]
        by_cases h : g = k
        · rw [if_pos h, if_pos h, h]
        · rw [if_neg h, if_neg h]
          rfl
      have rest :
          OnPipes (tbl.setFile k { tbl.file k with fdPos := (tbl.file k).fdPos + 1 }) pr fds := by
        intro e he
        refine (rest e he).imp_right fun ⟨g, leads, hg, flag⟩ => ⟨g, leads, hg, ?_⟩
        rw [now]
        exact flag
      obtain ⟨tbl', hloop, files⟩ := ih rest fun g hg => by
        rw [now]
        by_cases h : g = k
        · subst h
          rw [if_pos rfl]
          dsimp only
          omega
        · rw [if_neg h, ← other g h]
          exact room g (other g h ▸ hg)
      refine ⟨tbl', ?_, fun g => ?_⟩
      · rw [step]
        exact hloop
      · rw [files, now]
        by_cases h : g = k
        · rw [if_pos h, h, one, Nat.add_assoc, Nat.add_comm 1]
        · rw [if_neg h, other g h]
          rfl

/-! ## The invariant -/

/-- What holds in every state: the open slots are pipes, and `fd_pos` counts their descriptors. -/
structure Exact (s : Files) : Prop where
  living : ∀ p pr, s.procs p = some pr → p ∈ pids
  fds : ∀ p pr, s.procs p = some pr → ∀ fd ∈ localFds, pr.fdTable fd = -1 ∨ ∃ g : Nat, g < 32 ∧
    pr.fdTable fd = g
  used : ∀ g page, (s.tbl.file g).fdInode = some page →
    (s.tbl.file g).fdFlag = pipeFlag ∧ (s.tbl.file g).fdPos = descriptors s g ∧ 0 < descriptors s g
  free : ∀ g, (s.tbl.file g).fdInode = none → descriptors s g = 0
  pages : ∀ g g' page, (s.tbl.file g).fdInode = some page →
    (s.tbl.file g').fdInode = some page → g = g'

/-- A slot that a descriptor leads to is open. -/
theorem Exact.linked (inv : Exact s) (hp : s.procs p = some pr) (h : 0 < leadsTo pr g localFds) :
    (s.tbl.file g).fdFlag = pipeFlag ∧ (s.tbl.file g).fdPos = descriptors s g ∧
    leadsTo pr g localFds ≤ descriptors s g := by
  have le := ends_le_descriptors (s := s) (inv.living p pr hp) g
  rw [hp] at le
  cases hpage : (s.tbl.file g).fdInode with
  | none =>
    have zero := inv.free g hpage
    exact absurd (Nat.lt_of_lt_of_le h le) (by omega)
  | some page =>
    obtain ⟨flag, pos, -⟩ := inv.used g page hpage
    exact ⟨flag, pos, le⟩

theorem Exact.onPipes (inv : Exact s) (hp : s.procs p = some pr) : OnPipes s.tbl pr localFds := by
  intro fd hfd
  refine (inv.fds p pr hp fd hfd).imp_right fun ⟨g, hg, leads⟩ => ⟨g, leads, hg, ?_⟩
  exact (inv.linked hp (leadsTo_pos.mpr ⟨fd, hfd, leads⟩)).1

/-! ## The steps -/

theorem localFds_nodup : localFds.Nodup := List.nodup_range'

theorem mem_localFds : fd ∈ localFds ↔ 3 ≤ fd ∧ fd < 8 := List.mem_range'_1

/-- A process gets another table, the slots stay. -/
theorem descriptors_put (hp : s.procs p = some pr) (mem : p ∈ pids) (tbl : Table)
    (pr' : Proc) (g : Nat) :
    descriptors (s.put p tbl pr') g + leadsTo pr g localFds =
      descriptors s g + leadsTo pr' g localFds := by
  have moved := descriptors_update (s := s) mem (some pr') tbl g
  rw [hp] at moved
  exact moved

theorem pcbFdInstall_free (pr : Proc) (free : 0 < localFds.countP fun fd => pr.fdTable fd == -1)
    (g object : Nat) :
    ∃ fd ∈ localFds, pr.fdTable fd = -1 ∧
      pcbFdInstall pr g object = (pr.set fd g (some object), (fd : Int)) := by
  obtain ⟨e, he, hfree⟩ := List.countP_pos_iff.mp free
  unfold pcbFdInstall
  cases h : freeFd pr with
  | none =>
    have none := List.find?_eq_none.mp h e he
    exact absurd hfree none
  | some fd =>
    obtain ⟨hlow, hhigh, hfd⟩ := freeFd_some h
    exact ⟨fd, mem_localFds.mpr ⟨hlow, hhigh⟩, hfd, rfl⟩

/-- `sys_pipe` with a free slot and two free entries makes two descriptors. -/
theorem sysPipe_eq (slot : getFreeSlot tbl = some g)
    (free : 2 ≤ localFds.countP fun fd => pr.fdTable fd == -1) (page : Nat) :
    ∃ pr', sysPipe tbl pr (some page) = .ok (tbl.setFile g ⟨2, pipeFlag, some page⟩, pr', 0) ∧
      (∀ fd, pr'.fdTable fd = pr.fdTable fd ∨ pr'.fdTable fd = g) ∧
      ∀ k, leadsTo pr' k localFds = leadsTo pr k localFds + if k = g then 2 else 0 := by
  obtain ⟨fd₁, hfd₁, was₁, first⟩ := pcbFdInstall_free pr (by omega) g page
  have left := countP_set pr localFds_nodup hfd₁ g (some page) (-1)
  rw [if_pos was₁, if_neg (by omega)] at left
  obtain ⟨fd₂, hfd₂, was₂, second⟩ := pcbFdInstall_free (pr.set fd₁ g (some page)) (by omega) g page
  refine ⟨(pr.set fd₁ g (some page)).set fd₂ g (some page), ?_, fun fd => ?_, fun k => ?_⟩
  · unfold sysPipe
    rw [slot]
    dsimp only
    rw [first, second]
  · simp only [set_fdTable]
    split
    next => exact .inr rfl
    next =>
      split
      next => exact .inr rfl
      next => exact .inl rfl
  · have one := leadsTo_set pr localFds_nodup hfd₁ g (some page) k
    have two := leadsTo_set (pr.set fd₁ g (some page)) localFds_nodup hfd₂ g (some page) k
    rw [was₁, if_neg (by omega)] at one
    rw [was₂, if_neg (by omega)] at two
    by_cases h : k = g
    · rw [if_pos h]
      rw [if_pos (by rw [h])] at one two
      omega
    · rw [if_neg h]
      rw [if_neg (by omega)] at one two
      omega

/-- The pages that a step frees: those of the slots that lose their last descriptor, each once. -/
def FreesLast (s s' : Files) (freed : List (Option Nat)) : Prop :=
  freed.Nodup ∧ ∀ o, o ∈ freed ↔ ∃ g page, o = some page ∧ (s.tbl.file g).fdInode = some page ∧
    descriptors s' g = 0

/-- Nothing is freed where no slot loses its last descriptor. -/
theorem Exact.frees_nothing (inv : Exact s) (grow : ∀ g, descriptors s g ≤ descriptors s' g) :
    FreesLast s s' [] := by
  refine ⟨List.nodup_nil, fun o => iff_of_false List.not_mem_nil ?_⟩
  rintro ⟨g, page, -, hpage, zero⟩
  obtain ⟨-, -, pos⟩ := inv.used g page hpage
  have := grow g
  omega

/-- Some slots lose descriptors, and those that lose their last one are emptied. -/
theorem Exact.dropped {tbl' : Table} {n : Nat → Nat} {gs : List Nat} (inv : Exact s)
    (drops : Drops s.tbl n tbl' gs) (tbl_eq : s'.tbl = tbl')
    (less : ∀ g, descriptors s' g + n g = descriptors s g) (living : ∀ p pr, s'.procs p = some pr →
      p ∈ pids) (fds : ∀ p pr, s'.procs p = some pr → ∀ fd ∈ localFds, pr.fdTable fd = -1 ∨
      ∃ g : Nat, g < 32 ∧ pr.fdTable fd = g) :
    Exact s' ∧ FreesLast s s' (gs.map fun g => (s.tbl.file g).fdInode) := by
  subst tbl_eq
  -- a slot that loses a descriptor is open
  have opened (g : Nat) (h : 0 < n g) : ∃ page, (s.tbl.file g).fdInode = some page := by
    cases hpage : (s.tbl.file g).fdInode with
    | none =>
      have zero := inv.free g hpage
      have := less g
      omega
    | some page => exact ⟨page, rfl⟩
  have after (g : Nat) (page : Nat) (hpage : (s'.tbl.file g).fdInode = some page) :
      (s.tbl.file g).fdInode = some page ∧ descriptors s' g ≠ 0 ∧
        (s'.tbl.file g).fdPos = (s.tbl.file g).fdPos - n g := by
    rw [drops.files] at hpage ⊢
    unfold File.drop at hpage ⊢
    by_cases h : n g = 0
    · rw [if_pos h] at hpage ⊢
      obtain ⟨-, -, pos⟩ := inv.used g page hpage
      have := less g
      exact ⟨hpage, by omega, by omega⟩
    · rw [if_neg h] at hpage ⊢
      dsimp only at hpage ⊢
      split at hpage
      next => cases hpage
      next more =>
        obtain ⟨-, pos, -⟩ := inv.used g page hpage
        have := less g
        exact ⟨hpage, by omega, rfl⟩
  refine ⟨⟨living, fds, fun g page hpage => ?_, fun g hpage => ?_, fun g g' page hg hg' => ?_⟩,
    ?_, fun o => ?_⟩
  · obtain ⟨before, more, pos⟩ := after g page hpage
    obtain ⟨flag, was, -⟩ := inv.used g page before
    have := less g
    refine ⟨?_, by omega, Nat.pos_of_ne_zero more⟩
    rw [drops.files, drop_fdFlag]
    exact flag
  · rw [drops.files] at hpage
    unfold File.drop at hpage
    have := less g
    split at hpage
    next h =>
      have zero := inv.free g hpage
      omega
    next h =>
      obtain ⟨page, before⟩ := opened g (Nat.pos_of_ne_zero h)
      obtain ⟨-, was, -⟩ := inv.used g page before
      dsimp only at hpage
      split at hpage
      next last => omega
      next =>
        rw [before] at hpage
        cases hpage
  · exact inv.pages g g' page (after g page hg).1 (after g' page hg').1
  · rw [List.nodup_map_iff_inj_on drops.nodup]
    intro g hg g' hg' same
    obtain ⟨page, hpage⟩ := opened g ((drops.last g).mp hg).1
    exact inv.pages g g' page hpage (same ▸ hpage)
  · rw [List.mem_map]
    constructor
    · rintro ⟨g, hg, rfl⟩
      obtain ⟨some, last⟩ := (drops.last g).mp hg
      obtain ⟨page, hpage⟩ := opened g some
      obtain ⟨-, was, -⟩ := inv.used g page hpage
      have := less g
      exact ⟨g, page, hpage, hpage, by omega⟩
    · rintro ⟨g, page, rfl, hpage, zero⟩
      obtain ⟨-, was, pos⟩ := inv.used g page hpage
      have := less g
      exact ⟨g, (drops.last g).mpr ⟨by omega, by omega⟩, hpage⟩

/-- The entries of a living process are free or lead to slots. -/
def Leads (pr : Proc) : Prop := ∀ fd ∈ localFds, pr.fdTable fd = -1 ∨ ∃ g : Nat, g < 32 ∧
  pr.fdTable fd = g

theorem put_procs {q : Nat} {pr' : Proc} (h : (s.put p tbl pr).procs q = some pr') :
    q = p ∧ pr' = pr ∨ s.procs q = some pr' := by
  by_cases hq : q = p
  · subst hq
    rw [show (s.put q tbl pr).procs q = some pr from Function.update_self ..] at h
    exact .inl ⟨rfl, (Option.some.inj h).symm⟩
  · rw [show (s.put p tbl pr).procs q = s.procs q from Function.update_of_ne hq ..] at h
    exact .inr h

theorem Exact.put_living (inv : Exact s) (mem : p ∈ pids) :
    ∀ q pr', (s.put p tbl pr).procs q = some pr' → q ∈ Shell.pids := by
  intro q pr' h
  rcases put_procs h with ⟨rfl, -⟩ | h
  · exact mem
  · exact inv.living q pr' h

theorem Exact.put_fds (inv : Exact s) (leads : Leads pr) :
    ∀ q pr', (s.put p tbl pr).procs q = some pr' → Leads pr' := by
  intro q pr' h
  rcases put_procs h with ⟨-, rfl⟩ | h
  · exact leads
  · exact inv.fds q pr' h

/-- The slots stay as they are, and as many descriptors lead to them. -/
theorem Exact.same (inv : Exact s) (files : ∀ g, s'.tbl.file g = s.tbl.file g)
    (same : ∀ g, descriptors s' g = descriptors s g) (living : ∀ p pr, s'.procs p = some pr →
      p ∈ pids) (fds : ∀ p pr, s'.procs p = some pr → Leads pr) : Exact s' ∧ FreesLast s s' [] := by
  refine ⟨⟨living, fds, fun g page h => ?_, fun g h => ?_, fun g g' page h h' => ?_⟩,
    inv.frees_nothing fun g => (same g).ge⟩
  · rw [files] at h ⊢
    rw [same]
    exact inv.used g page h
  · rw [files] at h
    rw [same]
    exact inv.free g h
  · rw [files] at h h'
    exact inv.pages g g' page h h'

theorem Exact.put_self (inv : Exact s) (hp : s.procs p = some pr) :
    Exact (s.put p s.tbl pr) ∧ FreesLast s (s.put p s.tbl pr) [] := by
  have mem := inv.living p pr hp
  refine inv.same (fun _ => rfl) (fun g => ?_) (inv.put_living mem) (inv.put_fds (inv.fds p pr hp))
  have moved := descriptors_put hp mem s.tbl pr g
  omega

/-- A step of a living process. -/
theorem run_eq (hp : s.procs p = some pr) (f : Proc → Except Fault (Files × List (Option Nat))) :
    pipeStep.run s p f = f pr := by
  unfold pipeStep.run
  rw [hp]

/-- `sys_pipe` -/
theorem sysPipe_exact {page : Option Nat} (inv : Exact s) (en : pipeEnabled s (.sysPipe p page)) :
    ∃ s' freed, pipeStep s (.sysPipe p page) = .ok (s', freed) ∧ Exact s' ∧
      FreesLast s s' freed := by
  obtain ⟨pr, hp, slot, free, fresh⟩ := en
  obtain ⟨g, slot⟩ := Option.ne_none_iff_exists'.mp slot
  obtain ⟨hlow, hhigh, empty⟩ := getFreeSlot_some slot
  have mem := inv.living p pr hp
  have step {tbl' : Table} {pr' : Proc} {ret : Int}
      (h : sysPipe s.tbl pr page = .ok (tbl', pr', ret)) :
      pipeStep s (.sysPipe p page) = .ok (s.put p tbl' pr', []) := by
    show pipeStep.run s p _ = _
    rw [run_eq hp, h]
    rfl
  cases page with
  | none =>
    -- no page: the slot stays free
    have failed : sysPipe s.tbl pr none =
        .ok (s.tbl.setFile g { s.tbl.file g with fdInode := none }, pr, -1) := by
      unfold sysPipe
      rw [slot]
    refine ⟨_, _, step failed, ?_⟩
    refine inv.same (fun k => ?_) (fun k => ?_) (inv.put_living mem) (inv.put_fds (inv.fds p pr hp))
    · show (s.tbl.setFile g _).file k = _
      rw [setFile_file]
      split
      next h =>
        subst h
        rw [← empty]
      next => rfl
    · have moved :=
        descriptors_put hp mem (s.tbl.setFile g { s.tbl.file g with fdInode := none }) pr k
      omega
  | some page =>
    obtain ⟨pr', made, entries, more⟩ := sysPipe_eq slot free page
    refine ⟨_, _, step made, ?_⟩
    have zero := inv.free g empty
    have count (k : Nat) : descriptors (s.put p (s.tbl.setFile g ⟨2, pipeFlag, some page⟩) pr') k =
        descriptors s k + if k = g then 2 else 0 := by
      have moved := descriptors_put hp mem (s.tbl.setFile g ⟨2, pipeFlag, some page⟩) pr' k
      have := more k
      omega
    have slots (k : Nat) : (s.put p (s.tbl.setFile g ⟨2, pipeFlag, some page⟩) pr').tbl.file k =
        if k = g then ⟨2, pipeFlag, some page⟩ else s.tbl.file k := setFile_file _ _
    have leads : Leads pr' := by
      intro fd hfd
      rcases entries fd with old | new
      · rw [old]
        exact inv.fds p pr hp fd hfd
      · exact .inr ⟨g, hhigh, new⟩
    refine ⟨⟨inv.put_living mem, inv.put_fds leads, fun k o h => ?_, fun k h => ?_,
      fun k k' o h h' => ?_⟩,
      inv.frees_nothing fun k => by rw [count]; exact Nat.le_add_right _ _⟩
    · rw [slots] at h ⊢
      rw [count]
      by_cases hk : k = g
      · rw [if_pos hk, if_pos hk, hk, zero]
        exact ⟨rfl, rfl, by decide⟩
      · rw [if_neg hk] at h ⊢
        rw [if_neg hk]
        exact inv.used k o h
    · rw [slots] at h
      rw [count]
      by_cases hk : k = g
      · rw [if_pos hk] at h
        cases h
      · rw [if_neg hk] at h
        rw [if_neg hk]
        exact inv.free k h
    · rw [slots] at h h'
      have other {k : Nat} (held : (s.tbl.file k).fdInode = some o) : o ≠ page := by
        rintro rfl
        exact fresh k (Option.some_ne_none _) held
      by_cases hk : k = g <;> by_cases hk' : k' = g
      · rw [hk, hk']
      · rw [if_pos hk] at h
        rw [if_neg hk'] at h'
        exact absurd (Option.some.inj h).symm (other h')
      · rw [if_neg hk] at h
        rw [if_pos hk'] at h'
        exact absurd (Option.some.inj h').symm (other h)
      · rw [if_neg hk] at h
        rw [if_neg hk'] at h'
        exact inv.pages k k' o h h'

/-- `sys_fork` -/
theorem sysFork_exact {child : Option Nat} (inv : Exact s) (en : pipeEnabled s (.sysFork p child)) :
    ∃ s' freed, pipeStep s (.sysFork p child) = .ok (s', freed) ∧ Exact s' ∧
      FreesLast s s' freed := by
  obtain ⟨alive, new⟩ := en
  obtain ⟨pr, hp⟩ := Option.isSome_iff_exists.mp alive
  show ∃ s' freed, pipeStep.run s p _ = _ ∧ _
  rw [run_eq hp]
  cases child with
  | none => exact ⟨s, [], rfl, inv, inv.frees_nothing fun _ => Nat.le_refl _⟩
  | some c =>
    obtain ⟨absent, mem⟩ := new c rfl
    have room : ∀ g, 0 < leadsTo pr g localFds →
        (s.tbl.file g).fdPos + leadsTo pr g localFds < 2 ^ 32 := by
      intro g h
      obtain ⟨-, pos, le⟩ := inv.linked hp h
      have := descriptors_le s g
      omega
    obtain ⟨tbl', loop, files⟩ := updateInodeOpenCnts_adds (inv.onPipes hp) room
    have loop : updateInodeOpenCnts s.tbl pr = .ok tbl' := loop
    dsimp only
    rw [loop]
    refine ⟨_, _, rfl, ?_⟩
    have count (g : Nat) : descriptors (s.put c tbl' pr) g =
        descriptors s g + leadsTo pr g localFds := by
      have moved := descriptors_update (s := s) mem (some pr) tbl' g
      rw [absent] at moved
      exact moved
    have used (g page : Nat) (h : ((s.put c tbl' pr).tbl.file g).fdInode = some page) :
        (s.tbl.file g).fdInode = some page := by
      change (tbl'.file g).fdInode = some page at h
      rw [files] at h
      exact h
    refine ⟨⟨inv.put_living mem, inv.put_fds (inv.fds p pr hp), fun g page h => ?_, fun g h => ?_,
      fun g g' page h h' => ?_⟩,
      inv.frees_nothing fun g => by rw [count]; exact Nat.le_add_right _ _⟩
    · obtain ⟨flag, pos, some⟩ := inv.used g page (used g page h)
      have now : (s.put c tbl' pr).tbl.file g = _ := files g
      rw [now, count]
      exact ⟨flag, congrArg (· + leadsTo pr g localFds) pos, Nat.add_pos_left some _⟩
    · change (tbl'.file g).fdInode = none at h
      rw [files] at h
      have zero := inv.free g h
      rw [count, zero, Nat.zero_add]
      by_contra some
      obtain ⟨-, -, le⟩ := inv.linked hp (Nat.pos_of_ne_zero some)
      omega
    · exact inv.pages g g' page (used g page h) (used g' page h')

/-- `sys_close` -/
theorem sysClose_exact {fd : Int} (inv : Exact s) (en : pipeEnabled s (.sysClose p fd)) :
    ∃ s' freed, pipeStep s (.sysClose p fd) = .ok (s', freed) ∧ Exact s' ∧
      FreesLast s s' freed := by
  obtain ⟨pr, hp, isOpen⟩ := en
  show ∃ s' freed, pipeStep.run s p _ = _ ∧ _
  rw [run_eq hp]
  by_cases hfd : fd > 2
  · obtain ⟨hlt, opened⟩ := isOpen.resolve_left (by omega)
    obtain ⟨n, rfl⟩ : ∃ n : Nat, fd = n := ⟨fd.toNat, by omega⟩
    rw [Int.toNat_natCast] at opened
    have hn : 2 < n := by omega
    have mem := inv.living p pr hp
    have local' : n ∈ localFds := mem_localFds.mpr ⟨hn, by omega⟩
    obtain ⟨k, lead⟩ := (inv.onPipes hp n local').resolve_left opened
    obtain ⟨-, pos, le⟩ := inv.linked hp (leadsTo_pos.mpr ⟨n, local', lead.1⟩)
    have some := leadsTo_pos.mpr ⟨n, local', lead.1⟩
    have bound := descriptors_le s k
    have hpos : 0 < (s.tbl.file k).fdPos := by omega
    have hsmall : (s.tbl.file k).fdPos < 2 ^ 32 := by omega
    rw [lead.closeFrees hn, ok_bind, lead.sysClose hn, ok_bind, pipeClose_eq hpos hsmall,
      freesPage_eq hpos hsmall]
    have none : Drops (s.tbl.setFile k (File.drop (s.tbl.file k) 1)) (fun _ => 0)
        (s.tbl.setFile k (File.drop (s.tbl.file k) 1)) [] :=
      ⟨fun _ => rfl, List.nodup_nil, fun g => iff_of_false List.not_mem_nil fun h =>
        Nat.lt_irrefl 0 h.1⟩
    have drops : Drops s.tbl (fun g => if g = k then 1 else 0) _ _ :=
      none.cons (if_pos rfl) (fun g h => if_neg h) hpos
    have count (g : Nat) :
        descriptors (s.put p (s.tbl.setFile k (File.drop (s.tbl.file k) 1))
          (pr.set n (-1) Option.none)) g +
        (if g = k then 1 else 0) = descriptors s g := by
      have moved :=
        descriptors_put hp mem (s.tbl.setFile k (File.drop (s.tbl.file k) 1))
          (pr.set n (-1) Option.none) g
      have one := leadsTo_set pr localFds_nodup local' (-1) Option.none g
      rw [lead.1, if_neg (show ¬ (-1 : Int) = g by omega)] at one
      by_cases h : g = k
      · rw [if_pos h]
        rw [if_pos (by rw [h])] at one
        omega
      · rw [if_neg h]
        rw [if_neg (by omega)] at one
        omega
    have leads : Leads (pr.set n (-1) Option.none) := by
      intro e he
      rw [set_fdTable]
      split
      next => exact .inl rfl
      next => exact inv.fds p pr hp e he
    refine ⟨_, _, rfl, ?_⟩
    have after := inv.dropped drops rfl count (inv.put_living mem) (inv.put_fds leads)
    have freed : (if (s.tbl.file k).fdPos = 1 then [(s.tbl.file k).fdInode] else []) =
        (if (s.tbl.file k).fdPos = 1 then k :: [] else []).map fun g => (s.tbl.file g).fdInode := by
      split
      next => rfl
      next => rfl
    rw [freed]
    exact after
  · have nothing : closeFrees s.tbl pr fd = .ok [] := if_neg hfd
    have refused : sysClose s.tbl pr fd = .ok (s.tbl, pr, -1) := if_neg hfd
    rw [nothing, refused]
    exact ⟨_, _, rfl, inv.put_self hp⟩

/-- `sys_exit` -/
theorem sysExit_exact (inv : Exact s) (en : pipeEnabled s (.sysExit p)) :
    ∃ s' freed, pipeStep s (.sysExit p) = .ok (s', freed) ∧ Exact s' ∧ FreesLast s s' freed := by
  obtain ⟨pr, hp⟩ := Option.isSome_iff_exists.mp en
  have mem := inv.living p pr hp
  have enough : ∀ g, leadsTo pr g localFds ≤ (s.tbl.file g).fdPos ∧
      (0 < leadsTo pr g localFds → (s.tbl.file g).fdPos < 2 ^ 32) := by
    intro g
    rcases Nat.eq_zero_or_pos (leadsTo pr g localFds) with zero | some
    · omega
    · obtain ⟨-, pos, le⟩ := inv.linked hp some
      have := descriptors_le s g
      omega
  obtain ⟨tbl', gs, loop, drops, freed⟩ :=
    releaseFds_drops (fun fd h => (mem_localFds.mp h).1) (inv.onPipes hp) enough
  have loop : releaseFds s.tbl pr = .ok (tbl', pr) := loop
  show ∃ s' freed, pipeStep.run s p _ = _ ∧ _
  rw [run_eq hp]
  rw [freed, ok_bind, loop]
  refine ⟨_, _, rfl, inv.dropped drops rfl (fun g => ?_) (fun q pr' h => ?_) fun q pr' h => ?_⟩
  · have moved := descriptors_update (s := s) mem none tbl' g
    rw [hp] at moved
    exact moved
  · by_cases hq : q = p
    · rw [hq]
      exact mem
    · exact inv.living q pr' ((Function.update_of_ne hq ..).symm.trans h)
  · by_cases hq : q = p
    · rw [hq] at h
      cases (Function.update_self ..).symm.trans h
    · exact inv.fds q pr' ((Function.update_of_ne hq ..).symm.trans h)

/-- `sys_fd_redirect` of a descriptor from 0 to 2 -/
theorem sysFdRedirect_exact {oldFd newFd : Nat} (inv : Exact s)
    (en : pipeEnabled s (.sysFdRedirect p oldFd newFd)) :
    ∃ s' freed, pipeStep s (.sysFdRedirect p oldFd newFd) = .ok (s', freed) ∧ Exact s' ∧
      FreesLast s s' freed := by
  obtain ⟨alive, std⟩ := en
  obtain ⟨pr, hp⟩ := Option.isSome_iff_exists.mp alive
  have mem := inv.living p pr hp
  have notLocal : oldFd ∉ localFds := fun h => by
    have := mem_localFds.mp h
    omega
  obtain ⟨v, o, made⟩ : ∃ v o, sysFdRedirect pr oldFd newFd = pr.set oldFd v o := by
    unfold sysFdRedirect
    split
    next => exact ⟨_, _, rfl⟩
    next => exact ⟨_, _, rfl⟩
  have leads : Leads (pr.set oldFd v o) := by
    intro e he
    have other : e ≠ oldFd := fun h => notLocal (h ▸ he)
    rw [set_fdTable, if_neg other]
    exact inv.fds p pr hp e he
  show ∃ s' freed, pipeStep.run s p _ = _ ∧ _
  rw [run_eq hp]
  rw [made]
  refine ⟨_, _, rfl, inv.same (fun _ => rfl) (fun g => ?_) (inv.put_living mem) (inv.put_fds leads)⟩
  have moved := descriptors_put hp mem s.tbl (pr.set oldFd v o) g
  rw [leadsTo_set_other notLocal] at moved
  omega

/-- THE STEP. It does not fail, the counts stay exact, and it frees what it should. -/
theorem pipeStep_exact {e : PipeEvent} (inv : Exact s) (en : pipeMachine.enabled s e) :
    ∃ s' freed, pipeMachine.step s e = .ok (s', freed) ∧ Exact s' ∧ FreesLast s s' freed := by
  cases e with
  | sysPipe p page => exact sysPipe_exact inv en
  | sysFork p child => exact sysFork_exact inv en
  | sysClose p fd => exact sysClose_exact inv en
  | sysExit p => exact sysExit_exact inv en
  | sysFdRedirect p oldFd newFd => exact sysFdRedirect_exact inv en

theorem pipeStep_inv {e : PipeEvent} {freed : List (Option Nat)} (inv : Exact s)
    (en : pipeMachine.enabled s e) (st : pipeMachine.step s e = .ok (s', freed)) :
    Exact s' ∧ FreesLast s s' freed := by
  obtain ⟨s₁, freed₁, st₁, inv₁, frees⟩ := pipeStep_exact inv en
  rw [st₁] at st
  cases st
  exact ⟨inv₁, frees⟩

theorem fdStart_exact {live : Nat → Bool} (known : ∀ p, live p = true → p ∈ pids) :
    Exact (fdStart live) where
  living p pr h := by
    change (if live p then some initProc else none) = some pr at h
    split at h
    next alive => exact known p alive
    next => cases h
  fds p pr h fd hfd := by
    change (if live p then some initProc else none) = some pr at h
    split at h
    next =>
      cases h
      exact .inl (if_neg (by have := mem_localFds.mp hfd; omega))
    next => cases h
  used g page h := by cases h
  free g _ := by
    apply Finset.sum_eq_zero
    intro p _
    show ends (if live p then some initProc else none) g = 0
    split
    next =>
      apply List.countP_eq_zero.mpr
      intro fd hfd
      have free : initProc.fdTable fd = -1 := if_neg (by have := mem_localFds.mp hfd; omega)
      rw [free]
      simp
    next => rfl
  pages g g' page h := by cases h

/-- `fd_pos` of every open slot is the number of its descriptors, and a slot is free when it has
none. -/
structure CountsExact (s : Files) : Prop where
  pos : ∀ g page, (s.tbl.file g).fdInode = some page → (s.tbl.file g).fdPos = descriptors s g
  free : ∀ g, (s.tbl.file g).fdInode = none ↔ descriptors s g = 0

theorem Exact.counts (inv : Exact s) : CountsExact s where
  pos g page h := (inv.used g page h).2.1
  free g := by
    refine ⟨inv.free g, fun zero => ?_⟩
    cases hpage : (s.tbl.file g).fdInode with
    | none => rfl
    | some page =>
      obtain ⟨-, -, some⟩ := inv.used g page hpage
      omega

/-- Every call has freed the pages of the slots that lost their last descriptor in it, once each,
and no others. -/
def FreedInTime (tr : List (Entry Files PipeEvent (List (Option Nat)))) : Prop :=
  ∀ entry ∈ tr, ∃ s', pipeMachine.step entry.pre entry.event = .ok (s', entry.out) ∧
    FreesLast entry.pre s' entry.out

/-- PIPE COUNTS ARE EXACT, in every state of every run, where no call fails, and pages are freed in
time and not twice. -/
theorem pipe_counts_exact (live : Nat → Bool) (known : ∀ p, live p = true → p ∈ pids) (s : Files)
    (tr : List (Entry Files PipeEvent (List (Option Nat))))
    (path : pipeMachine.Path (fdStart live) tr s) :
    CountsExact s ∧ (∀ e, pipeMachine.enabled s e → ∃ o, pipeMachine.step s e = .ok o) ∧
    FreedInTime tr := by
  have keep {s s' : Files} {e : PipeEvent} {o : List (Option Nat)} (inv : Exact s)
      (en : pipeMachine.enabled s e)
      (st : pipeMachine.step s e = .ok (s', o)) : Exact s' := (pipeStep_inv inv en st).1
  have inv := (path.invariant (fdStart_exact known) keep).1
  refine ⟨inv.counts, fun e en => ?_, ?_⟩
  · obtain ⟨s', freed, st, -⟩ := pipeStep_exact inv en
    exact ⟨_, st⟩
  · exact path.each (fdStart_exact known) keep fun inv en st => ⟨_, st, (pipeStep_inv inv en st).2⟩

/-- The theorem after a pipe was made, inherited, and given up by the child. -/
theorem pipe_counts_exact_child :
    ∃ (s : Files) (tr : List (Entry Files PipeEvent (List (Option Nat)))),
    tr.map (·.event) = [.sysPipe 1 (some 5), .sysFork 1 (some 2), .sysExit 2] ∧
      CountsExact s ∧ (∀ e, pipeMachine.enabled s e → ∃ o, pipeMachine.step s e = .ok o) ∧
      FreedInTime tr := by
  have known : ∀ p, (fun p => p == 1) p = true → p ∈ pids := by
    intro p h
    rw [beq_iff_eq.mp h]
    unfold pids
    decide
  have child : 2 ∈ pids := by
    unfold pids
    decide
  have piped : pipeMachine.enabled (fdStart fun p => p == 1) (.sysPipe 1 (some 5)) :=
    ⟨initProc, rfl, by decide, by decide, fun _ _ => nofun⟩
  have path := Machine.Path.start.step piped rfl
  have forks {s : Files} (alive : (s.procs 1).isSome = true) (absent : s.procs 2 = none) :
      pipeMachine.enabled s (.sysFork 1 (some 2)) :=
    ⟨alive, fun _ h => Option.some.inj h ▸ ⟨absent, child⟩⟩
  have exits {s : Files} (alive : (s.procs 2).isSome = true) : pipeMachine.enabled s (.sysExit 2) :=
    alive
  have path := path.step (forks rfl rfl) rfl
  have path := path.step (exits rfl) rfl
  exact ⟨_, _, rfl, pipe_counts_exact _ known _ _ path⟩

end SeekingOs.Shell
