import SeekingOs.Thread.Queues

/-!
# What each function of the scheduler keeps

One lemma for each function: called in a state where the queues are consistent
it leaves them consistent and the process tree as it was, or it stops with one
of the faults of `otherStops`. None of those is an assertion about a queue.
-/

namespace SeekingOs.Thread

open Lib

/-- The faults that a run of the scheduler can end with: a semaphore or an I/O queue used
against its protocol, a `sys_exit` by a task that has no parent, a `fork` by a kernel thread
or by a process with a long name, and pids or memory used up. -/
def otherStops : List Fault :=
  [.assert "sema_up" "psem->value == 0", .assert "sema_down" "psem->value == 0",
   .assert "ioq_wait" "*waiter == NULL && waiter != NULL", .assert "wakeup" "*waiter != NULL",
   .panic "sys_exit" "sys_exit: child_thread->parent_pid is −1\n",
   .assert "sys_fork" "INTR_OFF == intr_get_status() && parent_thread->pgdir != NULL",
   .assert "copy_pcb_vaddrbitmap_stack0" "strlen(child_thread->name) < 11",
   .assert "bitmap_scan" "idx_byte < btmp->btmp_bytes_len"]

/-- The function keeps the queues and does not touch the process tree. -/
def Keeps (s : Sched) (r : Except Fault Sched) : Prop :=
  Ensures (· ∈ otherStops) (fun s' => Queues s' ∧ SameTree s s') r

variable {s : Sched} {t : Addr}

/-! ## Semaphores and waiter variables -/

theorem Links.setSema (l : Links s) {k : Nat} {g : Semaphore → Semaphore}
    (nodup : (g (s.semaphores k)).waiters.Nodup)
    (mem : ∀ t ∈ (g (s.semaphores k)).waiters,
      t ∈ s.allList ∧ (s.tasks t).status = .blocked ∧ ∃ old, (s.tasks t).resume = .semaDown k old) :
    Links (s.setSema k g) where
  allNodup := l.allNodup
  readyNodup := l.readyNodup
  waitersNodup j := by
    rw [setSema_semaphores]
    split
    · exact nodup
    · exact l.waitersNodup j
  ready := l.ready
  waiters j t h := by
    rw [setSema_semaphores] at h
    split at h
    next e => subst e; exact mem t h
    next => exact l.waiters j t h
  waiter := l.waiter
  fits := l.fits
  idleMem := l.idleMem
  idle := l.idle

theorem Links.setWaiter (l : Links s) {w : Nat} {o : Option Addr}
    (h : ∀ t, o = some t →
      t ∈ s.allList ∧ (s.tasks t).status = .blocked ∧ (s.tasks t).resume = .ioqWait w) :
    Links (s.setWaiter w o) where
  allNodup := l.allNodup
  readyNodup := l.readyNodup
  waitersNodup := l.waitersNodup
  ready := l.ready
  waiters := l.waiters
  waiter v t hv := by
    rw [setWaiter_waiter] at hv
    split at hv
    next e => subst e; exact h t hv
    next => exact l.waiter v t hv
  fits := l.fits
  idleMem := l.idleMem
  idle := l.idle

theorem Queues.setSema (q : Queues s) {k : Nat} {g : Semaphore → Semaphore}
    (sub : (g (s.semaphores k)).waiters.Sublist (s.semaphores k).waiters) :
    Queues (s.setSema k g) where
  toLinks :=
    q.toLinks.setSema ((q.waitersNodup k).sublist sub) fun t h => q.waiters k t (sub.subset h)
  curMem := q.curMem
  running := q.running

/-- The current task runs on, with another continuation. -/
theorem Queues.setCur (q : Queues s) {f : Task → Task} (hst : (f (s.tasks s.cur)).status = .running)
    (hover : (f (s.tasks s.cur)).resume ≠ .over) (hexit : (f (s.tasks s.cur)).resume ≠ .exited)
    (idle : s.cur = s.idleThread → IdleResume (f (s.tasks s.cur)).resume) :
    Queues (s.setTask s.cur f) where
  toLinks := q.toLinks.move q.cur_unqueued q.readyNodup (fun _ _ => Iff.rfl)
    (by simp [q.cur_not_ready, hst]) (fun _ => .awake (.inr hst) hover hexit) idle
  curMem := q.curMem
  running u hu := by
    rw [setTask_tasks]
    split
    next e => subst e; simp [hst]
    next e => exact q.running u hu

theorem Queues.setIntr (q : Queues s) (intr : Bool) : Queues { s with intr } :=
  q.congr rfl rfl rfl (fun _ => rfl) rfl rfl fun _ => ⟨rfl, rfl⟩

/-- A task other than the idle thread may go on anywhere. -/
theorem not_idle {k : Resume} (h : s.cur ≠ s.idleThread) : s.cur = s.idleThread → IdleResume k :=
  fun e => absurd e h

/-! ## The functions -/

/-- The current task goes on without blocking: it takes the interrupt status `intr`. -/
theorem keeps_run (q : Queues s) (intr : Bool) :
    Queues ({ s with intr }.setTask s.cur ({ · with resume := .run })) ∧
      SameTree s ({ s with intr }.setTask s.cur ({ · with resume := .run })) := by
  refine ⟨(q.setIntr intr).setCur q.cur_status (by simp) (by simp) fun _ => trivial, ?_⟩
  exact sameTree_setTask rfl rfl rfl rfl rfl rfl ⟨rfl, rfl, rfl, rfl, rfl, Iff.rfl⟩ Iff.rfl

theorem intrTimerHandler_keeps (q : Queues s) : Keeps s (intrTimerHandler s) := by
  have counted :
      Queues (s.setTask s.cur fun t => { t with elapsedTicks := (t.elapsedTicks + 1) % 2 ^ 32 }) :=
    q.setCur q.cur_status q.cur_resume.2 q.cur_resume.1 fun e => e ▸ q.idle
  have htree :
      SameTree s (s.setTask s.cur fun t =>
        { t with elapsedTicks := (t.elapsedTicks + 1) % 2 ^ 32 }) :=
    sameTree_setTask rfl rfl rfl rfl rfl rfl ⟨rfl, rfl, rfl, rfl, rfl, Iff.rfl⟩ Iff.rfl
  unfold intrTimerHandler
  generalize s.setTask s.cur _ = s₁ at counted htree
  simp only
  split
  · have ready : Queues (s₁.setTask s₁.cur ({ · with resume := .ret true })) :=
      counted.setCur counted.cur_status (by simp) (by simp) fun _ => trivial
    obtain ⟨s', hs', hq, ht⟩ := ready.schedule
    rw [hs']
    refine ⟨hq, htree.trans (SameTree.trans ?_ ht)⟩
    exact sameTree_setTask rfl rfl rfl rfl rfl rfl ⟨rfl, rfl, rfl, rfl, rfl, Iff.rfl⟩ Iff.rfl
  · refine ⟨counted.setCur counted.cur_status counted.cur_resume.2 counted.cur_resume.1 fun e =>
      e ▸ counted.idle, ?_⟩
    exact htree.trans (sameTree_setTask rfl rfl rfl rfl rfl rfl
      ⟨rfl, rfl, rfl, rfl, rfl, Iff.rfl⟩ Iff.rfl)

theorem threadYield_keeps (q : Queues s) (hidle : s.cur ≠ s.idleThread) :
    Keeps s (threadYield s) := by
  unfold threadYield
  rw [assertThat_of q.cur_not_ready, ok_bind]
  have left :=
    q.requeue (f := fun t => { t with status := .ready, resume := .ret s.intr }) rfl
      (by simp) (by simp)
    (not_idle hidle)
  obtain ⟨s', hs', hq, ht⟩ := left.schedule (by simp)
  rw [hs']
  refine ⟨hq, SameTree.trans ?_ ht⟩
  exact sameTree_setTask rfl rfl rfl rfl rfl rfl ⟨rfl, rfl, rfl, rfl, rfl, by simp [q.cur_status]⟩
    (by simp [q.cur_status])

/-- The current task blocks itself, in the wait queue it was put on. -/
theorem Between.blocks {s₁ : Sched} {resume : Resume}
    (left : Between (s₁.setTask s₁.cur ({ · with status := .blocked, resume })))
    (htree : SameTree s (s₁.setTask s₁.cur ({ · with status := .blocked, resume }))) :
    ∃ s', Thread.threadBlock s₁ .blocked resume = .ok s' ∧ Queues s' ∧ SameTree s s' := by
  obtain ⟨s', hs', hq, ht⟩ := left.schedule (by simp)
  refine ⟨s', ?_, hq, htree.trans ht⟩
  unfold Thread.threadBlock
  rw [assertThat_of (.inl rfl), ok_bind, hs']

theorem Between.blocked {s₁ : Sched} {resume : Resume}
    (left : Between (s₁.setTask s₁.cur ({ · with status := .blocked, resume })))
    (htree : SameTree s (s₁.setTask s₁.cur ({ · with status := .blocked, resume }))) :
    Keeps s (Thread.threadBlock s₁ .blocked resume) := by
  obtain ⟨s', hs', hq, ht⟩ := left.blocks htree
  rw [hs']
  exact ⟨hq, ht⟩

/-- What the tree sees of the current task's blocking. -/
theorem Queues.sameTree_block (q : Queues s) {s₁ : Sched} {resume : Resume}
    (hall : s₁.allList = s.allList) (hmain : s₁.mainThread = s.mainThread)
    (hidle : s₁.idleThread = s.idleThread) (hpid : s₁.pidBitmap = s.pidBitmap)
    (hser : s₁.nextSerial = s.nextSerial) (htasks : s₁.tasks = s.tasks) :
    SameTree s (s₁.setTask s.cur ({ · with status := .blocked, resume })) :=
  sameTree_setTask hall hmain hidle hpid hser htasks
    ⟨rfl, rfl, rfl, rfl, rfl, by simp [q.cur_status]⟩ (by simp [q.cur_status])

/-- Blocking fits every continuation but the two ends of a life. -/
theorem fits_blocked {old : Task} {resume : Resume} (hexit : resume ≠ .exited)
    (hover : resume ≠ .over) :
    TaskFits { old with status := .blocked, resume } where
  notOver := ⟨by simp, hover⟩
  waiting h := by cases h
  hanging := ⟨fun h => (by cases h), fun h => absurd h hexit⟩

/-- The current task joins the waiters of a semaphore. -/
theorem Queues.queueUp (q : Queues s) (hidle : s.cur ≠ s.idleThread) (k : Nat) (old : Bool) :
    ∃ s', Thread.threadBlock (s.setSema k fun sem => { sem with waiters := sem.waiters ++ [s.cur] })
      .blocked (.semaDown k old) =
      .ok s' ∧ Queues s' ∧ SameTree s s' := by
  have hnot : s.cur ∉ (s.semaphores k).waiters := q.cur_unqueued.waiters k
  -- first the status and the continuation, then the wait queue: together they fit
  have left :
      Between (s.setTask s.cur ({ · with status := .blocked, resume := .semaDown k old })) :=
    q.leave q.readyNodup (fun _ _ => Iff.rfl) (by simp [q.cur_not_ready]) (by simp)
      (fits_blocked (by simp) (by simp)) (not_idle hidle)
  have linked :
      Links ((s.setTask s.cur ({ · with status := .blocked, resume := .semaDown k old })).setSema k
      fun sem => { sem with waiters := sem.waiters ++ [s.cur] }) := by
    refine left.toLinks.setSema (nodup_snoc (q.waitersNodup k) hnot) fun t ht => ?_
    rcases List.mem_append.mp ht with ht | ht
    · exact left.waiters k t ht
    · rw [List.mem_singleton.mp ht]
      exact ⟨q.curMem, by simp, old, by simp⟩
  have between :
      Between ((s.setSema k fun sem => { sem with waiters := sem.waiters ++ [s.cur] }).setTask s.cur
      ({ · with status := .blocked, resume := .semaDown k old })) := ⟨linked, left.nobody⟩
  exact between.blocks (q.sameTree_block rfl rfl rfl rfl rfl rfl)

theorem semaDownLoop_keeps (q : Queues s) (hidle : s.cur ≠ s.idleThread) (k : Nat) (old : Bool) :
    Keeps s (semaDownLoop s k old) := by
  have hnot : s.cur ∉ (s.semaphores k).waiters := q.cur_unqueued.waiters k
  unfold semaDownLoop
  split
  next hv =>
    rw [assertThat_of hnot, ok_bind]
    obtain ⟨s', hs', hq, ht⟩ := q.queueUp hidle k old
    rw [hs']
    exact ⟨hq, ht⟩
  next hv =>
    refine Ensures.bind (P := fun _ => True)
      (ensures_assertThat (fun _ => by simp [otherStops]) fun _ => trivial) fun _ _ => ?_
    have lowered : Queues (s.setSema k fun sem => { sem with value := sem.value - 1 }) :=
      q.setSema (List.Sublist.refl _)
    obtain ⟨hq, ht⟩ := keeps_run lowered old
    exact ⟨hq, (sameTree_setSema k _).trans ht⟩

/-- A task popped from the waiters of `k` is in no other wait queue. -/
theorem Queues.unqueued_popped (q : Queues s) {k : Nat} {rest : List Addr}
    (h : (s.semaphores k).waiters = t :: rest) :
    Unqueued (s.setSema k ({ · with waiters := rest })) t := by
  obtain ⟨_, _, old, hres⟩ := q.waiters k t (by rw [h]; exact List.mem_cons_self)
  have hnd := q.waitersNodup k
  rw [h] at hnd
  refine ⟨fun j hj => ?_, fun w hw => ?_⟩
  · rw [setSema_semaphores] at hj
    split at hj
    next e => exact (List.nodup_cons.mp hnd).1 hj
    next e =>
      obtain ⟨_, _, old', hres'⟩ := q.waiters j t hj
      rw [hres] at hres'
      exact e (Resume.semaDown.inj hres').1.symm
  · have hio := (q.waiter w t hw).2.2
    rw [hres] at hio
    cases hio

theorem wake_semaphores : (s.wake t).semaphores = s.semaphores := rfl

/-- The first of the waiters is popped and woken. -/
theorem Queues.semaPop (q : Queues s) (k : Nat) :
    ∃ s', Thread.semaPop s k = .ok s' ∧ Queues s' ∧ SameTree s s' ∧ s'.cur = s.cur ∧
      (∀ t, (s'.tasks t).resume = (s.tasks t).resume) ∧
      s'.semaphores k = { s.semaphores k with waiters := (s.semaphores k).waiters.tail } := by
  unfold Thread.semaPop
  split
  next h => exact ⟨s, rfl, q, .refl s, rfl, fun _ => rfl, by rw [h, List.tail_nil, ← h]⟩
  next t rest h =>
    obtain ⟨hmem, hst, _⟩ := q.waiters k t (by rw [h]; exact List.mem_cons_self)
    have popped : Queues (s.setSema k ({ · with waiters := rest })) :=
      q.setSema (by rw [h]; exact List.sublist_cons_self t rest)
    have free := q.unqueued_popped h
    rw [threadUnblock_eq popped.toLinks (.inl hst)]
    refine ⟨_, rfl, popped.wake hmem free (.inl hst),
      (sameTree_setSema k _).trans (sameTree_wake hst), rfl, fun u => ?_, ?_⟩
    · show ((Sched.setTask _ t _).tasks u).resume = _
      rw [setTask_tasks]
      split
      next e => rw [e]; rfl
      next => rfl
    · rw [wake_semaphores, setSema_semaphores, if_pos rfl, h, List.tail_cons]

theorem semaUp_keeps (q : Queues s) (k : Nat) : Keeps s (semaUp s k) := by
  unfold semaUp
  refine Ensures.bind (P := fun _ => (s.semaphores k).value = 0)
    (ensures_assertThat (fun _ => by simp [otherStops]) id) fun _ hv => ?_
  obtain ⟨s₁, hpop, hq, htree, _, _, hsema⟩ := q.semaPop k
  have hone : ((s₁.setSema k fun sem => { sem with value := sem.value + 1 }).semaphores k).value =
      1 := by
    simp only [setSema_semaphores, ↓reduceIte, hsema, hv]
  rw [hpop, ok_bind]
  dsimp only
  rw [assertThat_of hone, ok_bind]
  exact ⟨hq.setSema (List.Sublist.refl _), htree.trans (sameTree_setSema k _)⟩

theorem ioqWait_keeps (q : Queues s) (hidle : s.cur ≠ s.idleThread) (w : Nat) :
    Keeps s (ioqWait s w) := by
  unfold ioqWait
  refine Ensures.bind (P := fun _ => True)
    (ensures_assertThat (fun _ => by simp [otherStops]) fun _ => trivial) fun _ _ => ?_
  have left : Between (s.setTask s.cur ({ · with status := .blocked, resume := .ioqWait w })) :=
    q.leave q.readyNodup (fun _ _ => Iff.rfl) (by simp [q.cur_not_ready]) (by simp)
      (fits_blocked (by simp) (by simp)) (not_idle hidle)
  have linked :
      Links ((s.setTask s.cur ({ · with status := .blocked, resume := .ioqWait w })).setWaiter w
      (some s.cur)) := by
    refine left.toLinks.setWaiter fun t ht => ?_
    cases ht
    exact ⟨q.curMem, by simp, by simp⟩
  exact Between.blocked ⟨linked, left.nobody⟩ (q.sameTree_block rfl rfl rfl rfl rfl rfl)

theorem wakeup_keeps (q : Queues s) (w : Nat) : Keeps s (wakeup s w) := by
  unfold wakeup
  split
  next => simp [Keeps, otherStops]
  next t h =>
    obtain ⟨hmem, hst, hres⟩ := q.waiter w t h
    rw [threadUnblock_eq q.toLinks (.inl hst), ok_bind]
    -- emptying the variable first gives the same state, and then nobody refers to `t`
    have emptied : Queues (s.setWaiter w none) :=
      ⟨q.toLinks.setWaiter fun _ h => (by cases h), q.curMem, q.running⟩
    have free : Unqueued (s.setWaiter w none) t := by
      refine ⟨fun k hk => ?_, fun v hv => ?_⟩
      · obtain ⟨_, _, old, hsem⟩ := q.waiters k t hk
        rw [hres] at hsem
        cases hsem
      · rw [setWaiter_waiter] at hv
        split at hv
        next => cases hv
        next e =>
          have hio := (q.waiter v t hv).2.2
          rw [hres] at hio
          exact e (Resume.ioqWait.inj hio).symm
    exact ⟨emptied.wake hmem free (.inl hst), (sameTree_wake hst).trans (sameTree_setWaiter w none)⟩

theorem idleBlock_keeps (q : Queues s) :
    Keeps s (threadBlock s .blocked (.ret true)) := by
  have left : Between (s.setTask s.cur ({ · with status := .blocked, resume := .ret true })) :=
    q.leave q.readyNodup (fun _ _ => Iff.rfl) (by simp [q.cur_not_ready]) (by simp)
      (fits_blocked (by simp) (by simp)) fun _ => trivial
  exact Between.blocked left (q.sameTree_block rfl rfl rfl rfl rfl rfl)

end SeekingOs.Thread
