import SeekingOs.Userprog.ProcessTree

/-!
# Every run of the scheduler

The two invariants together hold after `thread_init` and are kept by every
step, and no step ends with a fault other than those of `otherStops`.
-/

namespace SeekingOs.Thread

open Lib

/-- The queues and the process tree are consistent. -/
structure Inv (s : Sched) : Prop where
  queues : Queues s
  tree : Tree s

variable {s s' : Sched} {t : Addr}

/-! ## One step -/

theorem pid2thread_adopted (status pid : Int) :
    pid2thread (s.adopted status) pid = pid2thread s pid := by
  unfold pid2thread
  have same : (fun t => ((s.adopted status).tasks t).pid == pid) = fun t =>
      (s.tasks t).pid == pid :=
    funext fun t => by rw [(adopted_fields s status t).1]
  rw [same]
  rfl

theorem Inv.sysExit_does (inv : Inv s) {status : Int} (hidle : s.cur ≠ s.idleThread) :
    Does s (.sysExit status) (do return (← sysExit s status, .none)) := by
  have hcur := inv.queues.curMem
  unfold sysExit
  dsimp only
  rw [setTask_self]
  split
  next => simp [Does, otherStops]
  next hpar =>
    obtain ⟨p, hmem, hne, hpid, _⟩ := inv.tree.parent s.cur hcur hpar
    have hself : (s.tasks s.cur).parentPid ≠ (s.tasks s.cur).pid := fun e =>
      hne (inv.tree.pidInj p hmem s.cur hcur (hpid.trans e))
    have hadopt : initAdoptChildren (s.setTask s.cur ({ · with exitStatus := toSigned 8 status }))
        (s.tasks s.cur).pid = s.adopted status := rfl
    obtain ⟨_, _, _, hppid, _⟩ := adopted_fields s status s.cur
    rw [hadopt, hppid, if_neg fun h => hself h.2, pid2thread_adopted,
      inv.tree.pid2thread_eq hmem hpid]
    have hst : ((s.adopted status).tasks p).status = (s.tasks p).status :=
      (adopted_fields s status p).2.2.2.2
    have adopted := inv.queues.adopted status
    have woken : wakeParent (s.adopted status) p =
        .ok (if (s.tasks p).status = .waiting then (s.adopted status).wake p
          else s.adopted status) := by
      unfold wakeParent
      rw [hst]
      split
      next hw => exact threadUnblock_eq adopted.toLinks (.inr (hst.trans hw))
      next => rfl
    dsimp only
    rw [woken, ok_bind]
    have between : Between (s.exits status p) := inv.queues.exits hmem hidle
    have hcurs : (s.exits status p).cur = s.cur := by unfold Sched.exits; dsimp only; split <;> rfl
    have last : ((s.exits status p).tasks (s.exits status p).cur).status ≠ .running := by
      rw [hcurs]
      simp [Sched.exits]
    obtain ⟨s', hs', hq, htree⟩ := between.schedule last
    have block : threadBlock (if (s.tasks p).status = .waiting then (s.adopted status).wake p
        else s.adopted status) .hanging .exited = schedule (s.exits status p) := by
      unfold threadBlock
      rw [assertThat_of (.inr (.inl rfl)), ok_bind]
      unfold Sched.exits
      dsimp only
      split <;> rfl
    rw [block, hs']
    exact ⟨hq, .exits hpar hmem hpid htree⟩

theorem Inv.mainExit_does (inv : Inv s) (hmain : s.cur = s.mainThread) :
    Does s .mainExit (step s .mainExit) := by
  have hidle : s.idleThread ≠ s.cur := fun e => inv.tree.apart (hmain ▸ e.symm)
  have links := inv.queues.toLinks.threadExit inv.queues.cur_unqueued hidle
  have gone : s.cur ∉ (threadExit s s.cur).allList :=
    fun h => ((mem_threadExit inv.queues.allNodup).mp h).1 rfl
  have left : Between ((threadExit s s.cur).setTask s.cur ({ · with resume := .over })) := by
    refine ⟨links.move (links.unqueued_of_not_mem gone) links.readyNodup (fun _ _ => Iff.rfl) ?_
      (fun h => absurd h gone) fun e => absurd e.symm hidle, fun u hu hst => ?_⟩
    · simp only [gone, false_and, iff_false]
      exact fun h => gone ((links.ready _).mp h).1
    · obtain ⟨hne, hu⟩ := (mem_threadExit inv.queues.allNodup).mp hu
      rw [setTask_tasks, if_neg hne, threadExit_other hne] at hst
      exact hne ((inv.queues.running u hu).mp hst)
  have stopped :
      (((threadExit s s.cur).setTask s.cur ({ · with resume := .over })).tasks s.cur).status ≠
        .running := by
    simp [threadExit, releasePid]
  obtain ⟨s', hs', hq, htree⟩ := left.schedule stopped
  show Does s .mainExit (do return (← schedule _, .none))
  rw [hs']
  refine ⟨hq, .mainEnds hmain (SameTree.trans ?_ htree)⟩
  exact sameTree_setTask rfl rfl rfl rfl rfl rfl ⟨rfl, rfl, rfl, rfl, rfl, Iff.rfl⟩ Iff.rfl

/-- A task that was switched to goes on. -/
theorem Inv.goOn_does (inv : Inv s) : Does s .goOn (goOn s) := by
  have q := inv.queues
  have hidle {r : Resume} (hr : (s.tasks s.cur).resume = r) (h : ¬ IdleResume r) :
      s.cur ≠ s.idleThread := fun e =>
    h (by rw [← hr, e]; exact q.idle)
  have run (intr : Bool) :
      Does s .goOn (.ok ({ s with intr }.setTask s.cur ({ · with resume := .run }), .none)) :=
    have ⟨hq, htree⟩ := keeps_run q intr
    ⟨hq, .quiet nofun (.inl rfl) htree⟩
  unfold goOn
  dsimp only
  split
  next => exact ⟨q, .quiet nofun (.inl rfl) (.refl s)⟩
  next => exact run true
  next old _ => exact run old
  next k old hr => exact (semaDownLoop_keeps q (hidle hr id) k old).does nofun
  next => exact run false
  next hr => exact q.sysWait_does (.inr ⟨rfl, hr⟩) (hidle hr id)
  next => exact run false
  next hr => exact absurd hr q.cur_resume.2

/-- THE STEP LEMMA. An enabled step of a consistent state keeps the queues and does one of
the things of `Effect`, or it ends with one of `otherStops`. -/
theorem Inv.step_does (inv : Inv s) {e : Event} (en : enabled s e) : Does s e (step s e) := by
  have q := inv.queues
  have quiet {s' : Sched} {e : Event} (he : ∀ status, e ≠ .sysExit status) (hq : Queues s')
      (h : SameTree s s') :
      Does s e (.ok (s', .none)) := ⟨hq, .quiet he (.inl rfl) h⟩
  have flag (intr : Bool) : SameTree s { s with intr } :=
    .of_tasks rfl rfl rfl rfl rfl rfl
  cases e with
  | tick => exact (intrTimerHandler_keeps q).does nofun
  | yield => exact (threadYield_keeps q en.2).does nofun
  | intrEnable => exact quiet nofun (q.setIntr true) (flag true)
  | intrDisable => exact quiet nofun (q.setIntr false) (flag false)
  | goOn => exact inv.goOn_does
  | semaDown k => exact (semaDownLoop_keeps q en.2 k s.intr).does nofun
  | semaUp k => exact (semaUp_keeps q k).does nofun
  | ioqWait w => exact (ioqWait_keeps q en.2.2 w).does nofun
  | wakeup w => exact (wakeup_keeps q w).does nofun
  | sysWait => exact q.sysWait_does (.inl rfl) en.2.2
  | sysExit status => exact inv.sysExit_does en.2.2
  | sysFork t => exact q.sysFork_does en.2.2.2
  | sysExecv path =>
    refine quiet nofun (q.setCur q.cur_status q.cur_resume.2 q.cur_resume.1 fun e => e ▸ q.idle) ?_
    exact sameTree_setTask rfl rfl rfl rfl rfl rfl ⟨rfl, rfl, rfl, rfl, rfl, Iff.rfl⟩ Iff.rfl
  | threadStart t name prio => exact q.threadStart_does en.2.2.2
  | mainExit => exact inv.mainExit_does en.2
  | idleBlock => exact (idleBlock_keeps q).does nofun

/-- Every effect keeps the tree well formed. -/
theorem Effect.tree {e : Event} {o : Out} (inv : Inv s) (eff : Effect s e o s') : Tree s' := by
  have tree := inv.tree
  have hcur := inv.queues.curMem
  cases eff with
  | quiet _ _ same => exact tree.congr same.toSameKin
  | started fresh hi hf same =>
    exact (tree.enter fresh hi hf rfl rfl rfl fun h => absurd rfl h).congr same.toSameKin
  | forked fresh hi hf hpg same =>
    refine (tree.enter fresh hi hf rfl rfl rfl fun _ => ⟨s.cur, hcur, rfl, ?_, hpg⟩).congr
      same.toSameKin
    rw [inv.queues.cur_status]
    decide
  | reaped _ hmem _ hst same =>
    exact (tree.threadExit inv.queues.allNodup hmem (.inr hst)).congr same.toSameKin
  | waits _ _ same =>
    refine (tree.congr (sameKin_setTask rfl rfl rfl rfl rfl rfl
      ⟨rfl, rfl, rfl, rfl, rfl, ?_⟩)).congr same.toSameKin
    simp [inv.queues.cur_status]
  | exits hpar hmem hpid same => exact (tree.exits hcur hpar hmem hpid).congr same.toSameKin
  | mainEnds hmain same =>
    exact (tree.threadExit inv.queues.allNodup hcur (.inl (by rw [hmain]; exact tree.main))).congr
      same.toSameKin

theorem Inv.next (inv : Inv s) {e : Event} {o : Out} (en : enabled s e)
    (st : step s e = .ok (s', o)) : Inv s' :=
  have ⟨hq, eff⟩ := (inv.step_does en).of_ok st
  ⟨hq, eff.tree inv⟩

/-! ## Every run -/

section Boot

variable {pcb₁ pcb₃ : Addr} {value : Nat → Nat}

/-- The PCBs of the three tasks that `thread_init` makes are different pages. -/
def Apart (pcb₁ pcb₃ : Addr) : Prop := pcb₁ ≠ pcb₃ ∧ pcb₁ ≠ mainPcb ∧ pcb₃ ≠ mainPcb

instance : Decidable (Apart pcb₁ pcb₃) := inferInstanceAs (Decidable (_ ∧ _))

theorem boot_tasks (value : Nat → Nat) (apart : Apart pcb₁ pcb₃) :
    (boot pcb₁ pcb₃ value).tasks pcb₁ = bootTask 1 ['i', 'n', 'i', 't'] 30 0 .ready true .fresh ∧
    (boot pcb₁ pcb₃ value).tasks pcb₃ = bootTask 3 ['i', 'd', 'l', 'e'] 10 2 .ready false .fresh ∧
    (boot pcb₁ pcb₃ value).tasks mainPcb =
      bootTask 2 ['m', 'a', 'i', 'n'] 30 1 .running false .run := by
  obtain ⟨h13, h1m, h3m⟩ := apart
  simp [boot, h13.symm, h1m.symm, h3m.symm]

theorem mem_boot {t : Addr} : t ∈ (boot pcb₁ pcb₃ value).allList ↔ t = pcb₁ ∨ t = mainPcb ∨
    t = pcb₃ := by
  simp [boot]

theorem boot_queues (apart : Apart pcb₁ pcb₃) : Queues (boot pcb₁ pcb₃ value) := by
  obtain ⟨t₁, t₃, tm⟩ := boot_tasks value apart
  obtain ⟨h13, h1m, h3m⟩ := apart
  refine ⟨⟨by simp [boot, h13, h1m, h3m.symm], by simp [boot, h13],
    fun k => List.nodup_nil, fun t => ?_,
    fun k t h => absurd h List.not_mem_nil, fun w t h => (by cases h), fun t h => ?_,
    by simp [boot], ?_⟩,
    by simp [boot], fun t h => ?_⟩
  · rw [mem_boot]
    show t ∈ [pcb₁, pcb₃] ↔ _
    constructor
    · intro h
      rcases List.mem_pair.mp h with rfl | rfl
      · exact ⟨.inl rfl, by rw [t₁]; rfl⟩
      · exact ⟨.inr (.inr rfl), by rw [t₃]; rfl⟩
    · rintro ⟨rfl | rfl | rfl, hst⟩
      · simp
      · rw [tm] at hst
        cases hst
      · simp
  · rcases mem_boot.mp h with rfl | rfl | rfl
    · rw [t₁]; exact .awake (.inl rfl) (by decide) (by decide)
    · rw [tm]; exact .awake (.inr rfl) (by decide) (by decide)
    · rw [t₃]; exact .awake (.inl rfl) (by decide) (by decide)
  · show IdleResume ((boot pcb₁ pcb₃ value).tasks pcb₃).resume
    rw [t₃]
    trivial
  · show _ ↔ t = mainPcb
    rcases mem_boot.mp h with rfl | rfl | rfl
    · simp [t₁, h1m, bootTask]
    · simp [tm, bootTask]
    · simp [t₃, h3m, bootTask]

theorem boot_tree (apart : Apart pcb₁ pcb₃) : Tree (boot pcb₁ pcb₃ value) := by
  obtain ⟨t₁, t₃, tm⟩ := boot_tasks value apart
  obtain ⟨h13, h1m, h3m⟩ := apart
  have parent : ∀ t ∈ (boot pcb₁ pcb₃ value).allList, ((boot pcb₁ pcb₃ value).tasks t).parentPid =
      -1 := by
    intro t h
    rcases mem_boot.mp h with rfl | rfl | rfl
    · rw [t₁]; rfl
    · rw [tm]; rfl
    · rw [t₃]; rfl
  have bits : (boot pcb₁ pcb₃ value).pidBitmap = ⟨7 :: List.replicate 127 0⟩ := rfl
  refine ⟨by rw [bits]; simp [Bitmap.size], fun t h => ?_, fun t h u hu => ?_,
    ⟨pcb₁, by simp [boot], by rw [t₁]; decide⟩,
    fun t h _ => ?_, fun t h hp => absurd (parent t h) hp, ?_, h3m.symm, fun t h => ?_,
    fun t h u hu => ?_⟩
  · rw [bits]
    rcases mem_boot.mp h with rfl | rfl | rfl
    · exact ⟨0, by decide, by rw [t₁]; rfl, by decide⟩
    · exact ⟨1, by decide, by rw [tm]; rfl, by decide⟩
    · exact ⟨2, by decide, by rw [t₃]; rfl, by decide⟩
  · rcases mem_boot.mp h with rfl | rfl | rfl <;> rcases mem_boot.mp hu with rfl | rfl | rfl <;>
      simp [t₁, t₃, tm, bootTask]
  · rcases mem_boot.mp h with rfl | rfl | rfl
    · rw [t₁]; decide
    · rw [tm]; decide
    · rw [t₃]; decide
  · show ((boot pcb₁ pcb₃ value).tasks mainPcb).hasPgdir = false
    rw [tm]; rfl
  · show _ < 3
    rcases mem_boot.mp h with rfl | rfl | rfl
    · rw [t₁]; decide
    · rw [tm]; decide
    · rw [t₃]; decide
  · rcases mem_boot.mp h with rfl | rfl | rfl <;> rcases mem_boot.mp hu with rfl | rfl | rfl <;>
      simp [t₁, t₃, tm, bootTask]

theorem boot_inv (apart : Apart pcb₁ pcb₃) : Inv (boot pcb₁ pcb₃ value) :=
  ⟨boot_queues apart, boot_tree apart⟩

end Boot

end SeekingOs.Thread
