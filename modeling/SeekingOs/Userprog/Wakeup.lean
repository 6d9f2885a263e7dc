import SeekingOs.Userprog.Runs

/-!
# Exit and wait

`sys_exit` wakes its own parent. It also hands the children of the exiting
process to `init`, and those of them that have exited before are work for `init`
at once; but if `init` sleeps in `sys_wait` nobody wakes it for them. `sys_wait`
itself goes to sleep only when no child has exited, so this is the one way in
which a wakeup is lost.
-/

namespace SeekingOs.Thread

open Lib

/-- No task sleeps in `sys_wait` while it has an exited child. -/
def NoLostWakeup (s : Sched) : Prop :=
  ∀ t ∈ s.allList, (s.tasks t).status = .waiting →
    ∀ u ∈ s.allList, (s.tasks u).parentPid = (s.tasks t).pid → (s.tasks u).status ≠ .hanging

instance (s : Sched) : Decidable (NoLostWakeup s) := by unfold NoLostWakeup; exact inferInstance

/-- The current task is in no system call: it runs its own code with interrupts on. -/
def Quiescent (s : Sched) : Prop := (s.tasks s.cur).resume = .run ∧ s.intr = true

instance (s : Sched) : Decidable (Quiescent s) := inferInstanceAs (Decidable (_ ∧ _))

/-- The condition on a `sys_exit`: the exiting process is a child of `init`, or `init` does not
sleep in `sys_wait`, or there is no exited child to hand over. -/
def HandsOverSafely (s : Sched) (e : Event) : Prop :=
  match e with
  | .sysExit _ => (s.tasks s.cur).parentPid = 1 ∨
    (∀ i ∈ s.allList, (s.tasks i).pid = 1 → (s.tasks i).status ≠ .waiting) ∨
    ∀ u ∈ s.allList, (s.tasks u).parentPid = (s.tasks s.cur).pid → (s.tasks u).status ≠ .hanging
  | _ => True

instance (s : Sched) : (e : Event) → Decidable (HandsOverSafely s e)
  | .sysExit _ => inferInstanceAs (Decidable (_ ∨ _ ∨ _))
  | .tick | .yield | .intrEnable | .intrDisable | .goOn | .semaDown _ | .semaUp
      _ | .ioqWait _ | .wakeup _
  | .sysWait | .sysFork _ | .sysExecv _ | .threadStart _ _ _ | .mainExit | .idleBlock =>
    .isTrue trivial

variable {s s' : Sched}

theorem NoLostWakeup.congr (h : NoLostWakeup s) (same : SameTree s s') : NoLostWakeup s' := by
  intro t ht hw u hu
  rw [same.allList] at ht hu
  rw [same.parentPid, same.pid, ne_eq, same.hanging u hu]
  exact h t ht ((same.waiting t ht).mp hw) u hu

theorem SameTree.symm (same : SameTree s s') : SameTree s' s where
  allList := same.allList.symm
  mainThread := same.mainThread.symm
  idleThread := same.idleThread.symm
  pidBitmap := same.pidBitmap.symm
  nextSerial := same.nextSerial.symm
  pid t := (same.pid t).symm
  parentPid t := (same.parentPid t).symm
  hasPgdir t := (same.hasPgdir t).symm
  exitStatus t := (same.exitStatus t).symm
  serial t := (same.serial t).symm
  hanging t h := (same.hanging t (same.allList ▸ h)).symm
  waiting t h := (same.waiting t (same.allList ▸ h)).symm

theorem noLostWakeup_congr (same : SameTree s s') : NoLostWakeup s' ↔ NoLostWakeup s :=
  ⟨fun h => h.congr same.symm, fun h => h.congr same⟩

/-! ## Step by step -/

theorem NoLostWakeup.enter (h : NoLostWakeup s) {t : Addr} {task : Task} {i : Nat}
    (ht : t ∉ s.allList) (hst : task.status = .ready) : NoLostWakeup (s.enter t task i) := by
  have ne {u : Addr} (hu : u ∈ s.allList) : u ≠ t := fun e => ht (e ▸ hu)
  intro p hp hw u hu
  rcases mem_enter.mp hu with hu | rfl
  · rcases mem_enter.mp hp with hp | rfl
    · rw [enter_other (ne hp)] at hw ⊢
      rw [enter_other (ne hu)]
      exact h p hp hw u hu
    · rw [enter_self, hst] at hw
      cases hw
  · rw [enter_self, hst]
    exact fun _ => by decide

theorem NoLostWakeup.threadExit (h : NoLostWakeup s) (hnd : s.allList.Nodup) (t : Addr) :
    NoLostWakeup (threadExit s t) := by
  intro p hp hw u hu
  obtain ⟨hpt, hp⟩ := (mem_threadExit hnd).mp hp
  obtain ⟨hut, hu⟩ := (mem_threadExit hnd).mp hu
  rw [threadExit_other hpt] at hw ⊢
  rw [threadExit_other hut]
  exact h p hp hw u hu

theorem NoLostWakeup.waits (h : NoLostWakeup s)
    (none : ∀ t ∈ s.allList, (s.tasks t).parentPid = (s.tasks s.cur).pid →
      (s.tasks t).status ≠ .hanging) : NoLostWakeup s.waits := by
  have other {u : Addr} (hu : u ≠ s.cur) : s.waits.tasks u = s.tasks u := by
    simp only [Sched.waits, setTask_tasks, hu, ↓reduceIte]
  have self : (s.waits.tasks s.cur).pid = (s.tasks s.cur).pid := by simp [Sched.waits]
  intro p hp hw u hu
  by_cases e : u = s.cur
  · subst e
    simp [Sched.waits]
  · rw [other e]
    by_cases ep : p = s.cur
    · subst ep
      rw [self]
      exact none u hu
    · rw [other ep] at hw ⊢
      exact h p hp hw u hu

/-- THE EXIT. After a `sys_exit` no wakeup is lost exactly when the exited children of the
process were handed over safely. -/
theorem Inv.noLostWakeup_exits (inv : Inv s) (h : NoLostWakeup s) {status : Int} {p : Addr}
    (hpar : (s.tasks s.cur).parentPid ≠ -1) (hmem : p ∈ s.allList)
    (hpid : (s.tasks p).pid = (s.tasks s.cur).parentPid) :
    NoLostWakeup (s.exits status p) ↔ HandsOverSafely s (.sysExit status) := by
  have tree := inv.tree
  have hcur := inv.queues.curMem
  have hrun := inv.queues.cur_status
  have hne := tree.parent_ne_cur hcur hpar hmem hpid
  have hall := (exits_lists s status p).1
  have fields (u : Addr) := exits_fields status u hne
  -- who waits after the exit waited before, and is not the parent
  have waiting {t : Addr} (hw : ((s.exits status p).tasks t).status = .waiting) :
      (s.tasks t).status = .waiting ∧ t ≠ p := by
    rw [(fields t).2.2.2.2] at hw
    split at hw
    · cases hw
    split at hw
    · cases hw
    next hnp => exact ⟨hw, fun e => hnp ⟨e, e ▸ hw⟩⟩
  have hanging {u : Addr} (hu : ((s.exits status p).tasks u).status = .hanging) (huc : u ≠ s.cur) :
      (s.tasks u).status = .hanging := by
    rw [(fields u).2.2.2.2, if_neg huc] at hu
    split at hu
    · cases hu
    · exact hu
  constructor
  · intro h'
    by_contra hbad
    simp only [HandsOverSafely, not_or, not_forall, ne_eq, not_not] at hbad
    obtain ⟨hone, ⟨i, hi, hipid, hiw⟩, u, hu, hupar, hust⟩ := hbad
    have hic : i ≠ s.cur := fun e => by
      rw [e, hrun] at hiw
      cases hiw
    have hip : i ≠ p := fun e => hone (by rw [← hpid, ← e, hipid])
    have huc : u ≠ s.cur := fun e => by
      rw [e, hrun] at hust
      cases hust
    have hup : u ≠ p := fun e => by
      obtain ⟨p', hp', _, hpp, hst, _⟩ := tree.parent s.cur hcur hpar
      rw [tree.pidInj p' hp' p hmem (hpp.trans hpid.symm), ← e] at hst
      exact hst hust
    refine h' i (hall ▸ hi) ?_ u (hall ▸ hu) ?_ ?_
    · rw [(fields i).2.2.2.2, if_neg hic, if_neg fun hi => hip hi.1]
      exact hiw
    · rw [(fields u).2.2.2.1, if_pos ⟨hu, hupar⟩, (fields i).1, hipid]
    · rw [(fields u).2.2.2.2, if_neg huc, if_neg fun hu => hup hu.1]
      exact hust
  · intro hsafe t ht hw u hu hkin hu'
    rw [hall] at ht hu
    obtain ⟨hw, htp⟩ := waiting hw
    rw [(fields u).2.2.2.1, (fields t).1] at hkin
    by_cases ha : u ∈ s.allList ∧ (s.tasks u).parentPid = (s.tasks s.cur).pid
    · -- an orphan: `t` is `init`
      rw [if_pos ha] at hkin
      have huc : u ≠ s.cur := fun e => by
        refine hne (tree.pidInj p hmem s.cur hcur ?_)
        rw [hpid, ← ha.2, e]
      rcases hsafe with hone | hawake | hnone
      · exact htp (tree.pidInj t ht p hmem (by rw [← hkin, hpid, hone]))
      · exact hawake t ht hkin.symm hw
      · exact hnone u hu ha.2 (hanging hu' huc)
    · rw [if_neg ha] at hkin
      by_cases huc : u = s.cur
      · exact htp (tree.pidInj t ht p hmem (by rw [← hkin, hpid, huc]))
      · exact h t ht hw u hu hkin (hanging hu' huc)

theorem Inv.noLostWakeup_step (inv : Inv s) (h : NoLostWakeup s) {e : Event} {o : Out}
    (en : enabled s e) (st : step s e = .ok (s', o)) : NoLostWakeup s' ↔ HandsOverSafely s e := by
  have hnd := inv.queues.allNodup
  obtain ⟨_, eff⟩ := (inv.step_does en).of_ok st
  have safe {e : Event} (he : ∀ status, e ≠ .sysExit status) (h' : NoLostWakeup s') :
      NoLostWakeup s' ↔ HandsOverSafely s e := by
    refine ⟨fun _ => ?_, fun _ => h'⟩
    cases e with
    | sysExit status => exact absurd rfl (he status)
    | _ => trivial
  have waiting {e : Event} (he : e = .sysWait ∨ e = .goOn ∧ (s.tasks s.cur).resume = .wait) :
      ∀ status, e ≠ .sysExit status := by
    rcases he with rfl | ⟨rfl, _⟩ <;> nofun
  cases eff with
  | quiet he _ same => exact safe he (h.congr same)
  | started fresh _ _ same => exact safe nofun ((h.enter fresh.1 rfl).congr same)
  | forked fresh _ _ _ same => exact safe nofun ((h.enter fresh.1 rfl).congr same)
  | reaped he _ _ _ same => exact safe (waiting he) ((h.threadExit hnd _).congr same)
  | waits he none same => exact safe (waiting he) ((h.waits none).congr same)
  | exits hpar hmem hpid same =>
    exact (noLostWakeup_congr same).trans (inv.noLostWakeup_exits h hpar hmem hpid)
  | mainEnds _ same => exact safe nofun ((h.threadExit hnd _).congr same)

/-! ## Every run -/

/-- NO LOST WAKEUP, EXACTLY. In a run of any forks, exits and waits no state between two steps has
a lost wakeup if and only if every `sys_exit` of the run hands over safely. -/
theorem no_lost_wakeup_iff {pcb₁ pcb₃ : Addr} {value : Nat → Nat} (apart : Apart pcb₁ pcb₃)
    {tr : List (Entry Sched Event Out)} (path : machine.Path (boot pcb₁ pcb₃ value) tr s) :
    Machine.Always NoLostWakeup tr s ↔ Machine.Meets HandsOverSafely tr := by
  refine path.always_iff (boot_inv apart) (fun t ht hw => ?_) (fun inv en st => inv.next en st)
    fun inv h en st => inv.noLostWakeup_step h en st
  obtain ⟨t₁, t₃, tm⟩ := boot_tasks value apart
  rcases mem_boot.mp ht with rfl | rfl | rfl
  · rw [t₁] at hw; cases hw
  · rw [tm] at hw; cases hw
  · rw [t₃] at hw; cases hw

/-- A run in which no wakeup is lost: P exits while its child Q still lives, which goes to `init`
(asleep in `sys_wait`), and R is woken and reaps P. -/
def handedOverRun : List Event :=
  -- `main` lets `init` run, which forks R and waits
  [.yield, .goOn, .intrDisable, .sysFork 0xc0103000, .sysWait,
   -- `idle`, then `main`, then R, which forks P and waits
   .goOn, .idleBlock, .goOn, .yield, .goOn, .intrDisable, .sysFork 0xc0104000, .sysWait,
   -- `main`, then P, which forks Q and exits, then R
   .goOn, .yield, .goOn, .intrDisable, .sysExecv ['/', 's', 'h'], .sysFork 0xc0105000, .sysExit 0,
   .goOn, .intrEnable]

/-- In every state of that run the exact condition is met, and so no wakeup is lost; at its end
`init` sleeps, and Q is its child. -/
theorem no_lost_wakeup_iff_handed_over : ∃ tr s,
    machine.Path (boot 0xc0101000 0xc0102000 fun _ => 1) tr s ∧ tr.map (·.event) = handedOverRun ∧
      Machine.Always NoLostWakeup tr s ∧ (s.tasks 0xc0101000).status = .waiting ∧
        0xc0105000 ∈ s.allList ∧ (s.tasks 0xc0105000).parentPid = 1 := by
  obtain ⟨tr, s, path, events, meets, last⟩ := Machine.replay_path machine HandsOverSafely
    (boot 0xc0101000 0xc0102000 fun _ => 1) handedOverRun
    (fun _ s => (s.tasks 0xc0101000).status = .waiting ∧ 0xc0105000 ∈ s.allList ∧
      (s.tasks 0xc0105000).parentPid = 1) (by decide +kernel)
  exact ⟨tr, s, path, events, (no_lost_wakeup_iff (by decide) path).mpr meets, last⟩

/-- A run that loses a wakeup. `init` (pid 1) forks R and waits for it; R forks P and waits for
it; P takes a shorter name, forks Q and lets it run. Q exits, then P exits: Q goes to
`init`, which sleeps on, and R is woken and reaps P. -/
def lostRun : List Event :=
  -- `main` lets `init` run, which forks R and waits
  [.yield, .goOn, .intrDisable, .sysFork 0xc0103000, .sysWait,
   -- `idle`, then `main`, then R, which forks P and waits
   .goOn, .idleBlock, .goOn, .yield, .goOn, .intrDisable, .sysFork 0xc0104000, .sysWait,
   -- `main`, then P, which forks Q and yields
   .goOn, .yield, .goOn, .intrDisable, .sysExecv ['/', 's', 'h'], .sysFork 0xc0105000, .yield,
   -- `main`, then Q, which exits, then P, which exits, then R
   .goOn, .yield, .goOn, .intrDisable, .sysExit 0, .goOn, .sysExit 0, .goOn, .intrEnable]

/-- After it `init` sleeps in `sys_wait` with an exited child, and no other system call is in
progress. -/
theorem wakeup_lost :
    ¬ ∀ tr s, machine.Path (boot 0xc0101000 0xc0102000 fun _ => 1) tr s → Quiescent s →
      NoLostWakeup s := by
  intro h
  have run : ((machine.exec (boot 0xc0101000 0xc0102000 fun _ => 1) lostRun).map fun s =>
      decide (Quiescent s ∧ ¬ NoLostWakeup s)) = some true := by
    decide +kernel
  obtain ⟨s, hs, hbad⟩ := Option.map_eq_some_iff.mp run
  obtain ⟨tr, path⟩ := Machine.exec_path _ hs
  obtain ⟨quiet, lost⟩ := of_decide_eq_true hbad
  exact lost (h tr s path quiet)

end SeekingOs.Thread
