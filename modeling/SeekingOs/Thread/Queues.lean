import Mathlib.Data.List.Nodup
import SeekingOs.Thread.Machine

/-!
# The queues are consistent

One list node per task serves the ready list and every wait queue, and status
and membership are changed apart. The invariant that keeps them together says
what the saved continuation of a task has to do with where the task is linked:
a task in the `waiters` of semaphore `k` is blocked *in the loop of `sema_down`
on `k`*. So it is in no other queue, and the idle thread, which never calls
`sema_down`, is in none.

`Links` is the invariant without the current task. It holds also between the
moment a task gives the processor away and the moment `switch_to` has chosen the
next one (`Between`); with a current task it is `Queues`, the invariant of the
machine.
-/

namespace SeekingOs.Thread

open Lib

/-- The status of a task and its continuation agree. -/
structure TaskFits (t : Task) : Prop where
  notOver : t.status ≠ .over ∧ t.resume ≠ .over
  waiting : t.status = .waiting → t.resume = .wait
  hanging : t.status = .hanging ↔ t.resume = .exited

/-- A ready or running task may go on anywhere but at the end of its life. -/
theorem TaskFits.awake {t : Task} (hst : t.status = .ready ∨ t.status = .running)
    (hover : t.resume ≠ .over) (hexit : t.resume ≠ .exited) : TaskFits t where
  notOver := ⟨by rcases hst with h | h <;> rw [h] <;> decide, hover⟩
  waiting h := by rcases hst with h' | h' <;> rw [h'] at h <;> cases h
  hanging := by
    refine ⟨fun h => ?_, fun h => absurd h hexit⟩
    rcases hst with h' | h' <;> rw [h'] at h <;> cases h

/-- What the idle thread may go on with. -/
def IdleResume : Resume → Prop
  | .run | .fresh | .ret _ => True
  | _ => False

/-- Lists, statuses and continuations agree. -/
structure Links (s : Sched) : Prop where
  allNodup : s.allList.Nodup
  readyNodup : s.readyList.Nodup
  waitersNodup : ∀ k, (s.semaphores k).waiters.Nodup
  ready : ∀ t, t ∈ s.readyList ↔ t ∈ s.allList ∧ (s.tasks t).status = .ready
  waiters : ∀ k t, t ∈ (s.semaphores k).waiters →
    t ∈ s.allList ∧ (s.tasks t).status = .blocked ∧ ∃ old, (s.tasks t).resume = .semaDown k old
  waiter : ∀ w t, s.waiter w = some t →
    t ∈ s.allList ∧ (s.tasks t).status = .blocked ∧ (s.tasks t).resume = .ioqWait w
  fits : ∀ t ∈ s.allList, TaskFits (s.tasks t)
  idleMem : s.idleThread ∈ s.allList
  idle : IdleResume (s.tasks s.idleThread).resume

/-- The invariant of the machine: one task runs, and it is the current one. -/
structure Queues (s : Sched) : Prop extends Links s where
  curMem : s.cur ∈ s.allList
  running : ∀ t ∈ s.allList, (s.tasks t).status = .running ↔ t = s.cur

/-- Inside `schedule`: the processor has been given away and nobody runs. -/
structure Between (s : Sched) : Prop extends Links s where
  nobody : ∀ t ∈ s.allList, (s.tasks t).status ≠ .running

/-- A task in no wait queue. -/
structure Unqueued (s : Sched) (t : Addr) : Prop where
  waiters : ∀ k, t ∉ (s.semaphores k).waiters
  waiter : ∀ w, s.waiter w ≠ some t

variable {s s' : Sched} {t : Addr}

theorem nodup_snoc {l : List Addr} (h : l.Nodup) (ht : t ∉ l) : (l ++ [t]).Nodup :=
  List.nodup_append.mpr ⟨h, List.nodup_singleton t, fun a ha b hb e => ht (by
    rw [← List.mem_singleton.mp hb, ← e]; exact ha)⟩

/-! ## Who is in no wait queue -/

theorem Links.unqueued_of_status (l : Links s) (h : (s.tasks t).status ≠ .blocked) : Unqueued s t :=
  ⟨fun k hk => h (l.waiters k t hk).2.1, fun w hw => h (l.waiter w t hw).2.1⟩

theorem Links.unqueued_of_not_mem (l : Links s) (h : t ∉ s.allList) : Unqueued s t :=
  ⟨fun k hk => h (l.waiters k t hk).1, fun w hw => h (l.waiter w t hw).1⟩

theorem Links.idle_unqueued (l : Links s) : Unqueued s s.idleThread := by
  have hidle := l.idle
  refine ⟨fun k hk => ?_, fun w hw => ?_⟩
  · obtain ⟨_, _, old, hold⟩ := l.waiters k _ hk
    rw [hold] at hidle
    exact hidle
  · rw [(l.waiter w _ hw).2.2] at hidle
    exact hidle

theorem Queues.cur_status (q : Queues s) : (s.tasks s.cur).status = .running :=
  (q.running s.cur q.curMem).mpr rfl

theorem Queues.cur_unqueued (q : Queues s) : Unqueued s s.cur :=
  q.unqueued_of_status (by rw [q.cur_status]; decide)

theorem Queues.cur_not_ready (q : Queues s) : s.cur ∉ s.readyList := fun h => by
  have := ((q.ready _).mp h).2
  rw [q.cur_status] at this
  cases this

/-- The current task has not ended. -/
theorem Queues.cur_resume (q : Queues s) :
    (s.tasks s.cur).resume ≠ .exited ∧ (s.tasks s.cur).resume ≠ .over := by
  have fit := q.fits _ q.curMem
  refine ⟨fun h => ?_, fit.notOver.2⟩
  have := fit.hanging.mpr h
  rw [q.cur_status] at this
  cases this

/-! ## What does not touch the links -/

/-- The links see of a state only the lists, the statuses and the continuations. -/
theorem Links.congr (l : Links s) (hall : s'.allList = s.allList)
    (hready : s'.readyList = s.readyList)
    (hsema : ∀ k, (s'.semaphores k).waiters = (s.semaphores k).waiters)
    (hwaiter : s'.waiter = s.waiter) (hidle : s'.idleThread = s.idleThread)
    (htask : ∀ t, (s'.tasks t).status = (s.tasks t).status ∧
      (s'.tasks t).resume = (s.tasks t).resume) :
    Links s' where
  allNodup := by rw [hall]; exact l.allNodup
  readyNodup := by rw [hready]; exact l.readyNodup
  waitersNodup k := by rw [hsema]; exact l.waitersNodup k
  ready t := by rw [hready, hall, (htask t).1]; exact l.ready t
  waiters k t h := by
    rw [hsema] at h
    rw [hall, (htask t).1, (htask t).2]
    exact l.waiters k t h
  waiter w t h := by
    rw [hwaiter] at h
    rw [hall, (htask t).1, (htask t).2]
    exact l.waiter w t h
  fits t h := by
    rw [hall] at h
    have fit := l.fits t h
    exact ⟨by rw [(htask t).1, (htask t).2]; exact fit.notOver,
      by rw [(htask t).1, (htask t).2]; exact fit.waiting,
      by rw [(htask t).1, (htask t).2]; exact fit.hanging⟩
  idleMem := by rw [hidle, hall]; exact l.idleMem
  idle := by rw [hidle, (htask _).2]; exact l.idle

theorem Queues.congr (q : Queues s) (hcur : s'.cur = s.cur) (hall : s'.allList = s.allList)
    (hready : s'.readyList = s.readyList)
    (hsema : ∀ k, (s'.semaphores k).waiters = (s.semaphores k).waiters)
    (hwaiter : s'.waiter = s.waiter) (hidle : s'.idleThread = s.idleThread)
    (htask : ∀ t, (s'.tasks t).status = (s.tasks t).status ∧
      (s'.tasks t).resume = (s.tasks t).resume) :
    Queues s' where
  toLinks := q.toLinks.congr hall hready hsema hwaiter hidle htask
  curMem := by rw [hcur, hall]; exact q.curMem
  running t h := by
    rw [hall] at h
    rw [(htask t).1, hcur]
    exact q.running t h

/-! ## One task moves -/

/-- THE MOVE. A task in no wait queue changes its status and goes to or from the
ready list with it; nobody else moves. -/
theorem Links.move (l : Links s) {f : Task → Task} {ready' : List Addr} (free : Unqueued s t)
    (nodup : ready'.Nodup) (others : ∀ u, u ≠ t → (u ∈ ready' ↔ u ∈ s.readyList))
    (self : t ∈ ready' ↔ t ∈ s.allList ∧ (f (s.tasks t)).status = .ready)
    (fit : t ∈ s.allList → TaskFits (f (s.tasks t)))
    (idle : t = s.idleThread → IdleResume (f (s.tasks t)).resume) :
    Links ({ s with readyList := ready' }.setTask t f) where
  allNodup := l.allNodup
  readyNodup := nodup
  waitersNodup := l.waitersNodup
  ready u := by
    rw [setTask_tasks]
    by_cases h : u = t
    · subst h; simpa using self
    · simpa [h] using (others u h).trans (l.ready u)
  waiters k u h := by
    have hne : u ≠ t := fun e => free.waiters k (e ▸ h)
    rw [setTask_tasks, if_neg hne]
    exact l.waiters k u h
  waiter w u h := by
    have hne : u ≠ t := fun e => free.waiter w (e ▸ h)
    rw [setTask_tasks, if_neg hne]
    exact l.waiter w u h
  fits u h := by
    rw [setTask_tasks]
    split
    next e => subst e; exact fit h
    next => exact l.fits u h
  idleMem := l.idleMem
  idle := by
    rw [setTask_tasks]
    split
    next e => exact idle e.symm
    next => exact l.idle

/-- `thread_unblock`, once its assertions have passed. -/
def Sched.wake (s : Sched) (t : Addr) : Sched :=
  { s with readyList := t :: s.readyList }.setTask t ({ · with status := .ready })

/-- A blocked or waiting task is woken without a failing assertion. -/
theorem threadUnblock_eq (l : Links s)
    (hst : (s.tasks t).status = .blocked ∨ (s.tasks t).status = .waiting) :
    threadUnblock s t = .ok (s.wake t) := by
  have hready : t ∉ s.readyList := fun h => by
    have := ((l.ready t).mp h).2
    rcases hst with h | h <;> rw [h] at this <;> cases this
  have hok : (s.tasks t).status = .blocked ∨ (s.tasks t).status = .hanging ∨
      (s.tasks t).status = .waiting := by
    rcases hst with h | h
    · exact .inl h
    · exact .inr (.inr h)
  have hne : (s.tasks t).status ≠ .ready := by
    rcases hst with h | h <;> rw [h] <;> decide
  unfold threadUnblock
  simp only [assertThat_of hok, assertThat_of hready, ok_bind, hne, ne_eq,
    not_false_eq_true, ↓reduceIte]
  rfl

theorem Links.wake (l : Links s) (hmem : t ∈ s.allList) (free : Unqueued s t)
    (hst : (s.tasks t).status = .blocked ∨ (s.tasks t).status = .waiting) : Links (s.wake t) := by
  have hready : t ∉ s.readyList := fun h => by
    have := ((l.ready t).mp h).2
    rcases hst with h | h <;> rw [h] at this <;> cases this
  have fit := l.fits t hmem
  have hexit : (s.tasks t).resume ≠ .exited := fun h => by
    have := fit.hanging.mpr h
    rcases hst with h | h <;> rw [h] at this <;> cases this
  refine l.move free (List.nodup_cons.mpr ⟨hready, l.readyNodup⟩) (fun u hu => ?_) ?_
    (fun _ => .awake (.inl rfl) fit.notOver.2 hexit) fun e => ?_
  · simp [hu]
  · simp [hmem]
  · exact e ▸ l.idle

/-- A task is woken by another one. -/
theorem Queues.wake (q : Queues s) (hmem : t ∈ s.allList) (free : Unqueued s t)
    (hst : (s.tasks t).status = .blocked ∨ (s.tasks t).status = .waiting) : Queues (s.wake t) where
  toLinks := q.toLinks.wake hmem free hst
  curMem := q.curMem
  running u hu := by
    have hcur : t ≠ s.cur := fun e => by
      rw [e, q.cur_status] at hst
      rcases hst with h | h <;> cases h
    show ((Sched.setTask _ t _).tasks u).status = .running ↔ u = s.cur
    rw [setTask_tasks]
    split
    next e => subst e; simp [hcur]
    next => exact q.running u hu

/-! ## The processor changes hands -/

/-- The current task gives the processor away: by `thread_block`, `thread_yield` or `schedule`
itself, with a status and a continuation that fit. -/
theorem Queues.leave (q : Queues s) {f : Task → Task} {ready' : List Addr} (nodup : ready'.Nodup)
    (others : ∀ u, u ≠ s.cur → (u ∈ ready' ↔ u ∈ s.readyList))
    (self : s.cur ∈ ready' ↔ (f (s.tasks s.cur)).status = .ready)
    (hrun : (f (s.tasks s.cur)).status ≠ .running) (fit : TaskFits (f (s.tasks s.cur)))
    (idle : s.cur = s.idleThread → IdleResume (f (s.tasks s.cur)).resume) :
    Between ({ s with readyList := ready' }.setTask s.cur f) where
  toLinks :=
    q.toLinks.move q.cur_unqueued nodup others (by simp [self, q.curMem]) (fun _ => fit) idle
  nobody u hu := by
    rw [setTask_tasks]
    split
    next e => exact hrun
    next e => exact fun h => e ((q.running u hu).mp h)

/-- `schedule` from the list on: `next` gets the processor. -/
def Sched.dispatch (s : Sched) (next : Addr) (rest : List Addr) : Sched :=
  { s with readyList := rest, cur := next, intr := false }.setTask
    next ({ · with status := .running })

theorem Between.dispatch (b : Between s) {rest : List Addr} (h : s.readyList = t :: rest) :
    Queues (s.dispatch t rest) := by
  obtain ⟨hmem, hst⟩ := (b.ready t).mp (by rw [h]; exact List.mem_cons_self)
  have hnd := b.readyNodup
  rw [h] at hnd
  have hnot : t ∉ rest := (List.nodup_cons.mp hnd).1
  have fit := b.fits t hmem
  have free : Unqueued s t := b.unqueued_of_status (by rw [hst]; decide)
  have hexit : (s.tasks t).resume ≠ .exited := fun he => by
    have := fit.hanging.mpr he
    rw [hst] at this
    cases this
  have moved : Links ({ s with readyList := rest }.setTask t ({ · with status := .running })) := by
    exact b.toLinks.move free (List.nodup_cons.mp hnd).2 (fun u hu => by simp [h, hu])
      (by simp [hnot])
      (fun _ => .awake (.inr rfl) fit.notOver.2 hexit) fun e => e ▸ b.idle
  refine ⟨moved.congr rfl rfl (fun _ => rfl) rfl rfl (fun _ => ⟨rfl, rfl⟩), hmem, fun u hu => ?_⟩
  show ((Sched.setTask _ t _).tasks u).status = .running ↔ u = t
  rw [setTask_tasks]
  split
  next e => simp [e]
  next e => simp only [e, iff_false]; exact b.nobody u hu

/-! ## What the process tree sees of it -/

/-- The same tasks with the same pids and parents, and the same of them exited. -/
structure SameKin (s s' : Sched) : Prop where
  allList : s'.allList = s.allList
  mainThread : s'.mainThread = s.mainThread
  idleThread : s'.idleThread = s.idleThread
  pidBitmap : s'.pidBitmap = s.pidBitmap
  nextSerial : s'.nextSerial = s.nextSerial
  pid : ∀ t, (s'.tasks t).pid = (s.tasks t).pid
  parentPid : ∀ t, (s'.tasks t).parentPid = (s.tasks t).parentPid
  hasPgdir : ∀ t, (s'.tasks t).hasPgdir = (s.tasks t).hasPgdir
  exitStatus : ∀ t, (s'.tasks t).exitStatus = (s.tasks t).exitStatus
  serial : ∀ t, (s'.tasks t).serial = (s.tasks t).serial
  hanging : ∀ t ∈ s.allList, (s'.tasks t).status = .hanging ↔ (s.tasks t).status = .hanging

/-- Two states with the same process tree: also the same tasks wait for a child. -/
structure SameTree (s s' : Sched) : Prop extends SameKin s s' where
  waiting : ∀ t ∈ s.allList, (s'.tasks t).status = .waiting ↔ (s.tasks t).status = .waiting

theorem SameTree.of_tasks (hall : s'.allList = s.allList) (hmain : s'.mainThread = s.mainThread)
    (hidle : s'.idleThread = s.idleThread) (hpid : s'.pidBitmap = s.pidBitmap)
    (hser : s'.nextSerial = s.nextSerial) (htasks : s'.tasks = s.tasks) : SameTree s s' where
  allList := hall
  mainThread := hmain
  idleThread := hidle
  pidBitmap := hpid
  nextSerial := hser
  pid _ := by rw [htasks]
  parentPid _ := by rw [htasks]
  hasPgdir _ := by rw [htasks]
  exitStatus _ := by rw [htasks]
  serial _ := by rw [htasks]
  hanging _ _ := by rw [htasks]
  waiting _ _ := by rw [htasks]

theorem SameTree.refl (s : Sched) : SameTree s s := .of_tasks rfl rfl rfl rfl rfl rfl

theorem SameTree.trans {s₁ s₂ s₃ : Sched} (a : SameTree s₁ s₂) (b : SameTree s₂ s₃) :
    SameTree s₁ s₃ where
  allList := b.allList.trans a.allList
  mainThread := b.mainThread.trans a.mainThread
  idleThread := b.idleThread.trans a.idleThread
  pidBitmap := b.pidBitmap.trans a.pidBitmap
  nextSerial := b.nextSerial.trans a.nextSerial
  pid t := (b.pid t).trans (a.pid t)
  parentPid t := (b.parentPid t).trans (a.parentPid t)
  hasPgdir t := (b.hasPgdir t).trans (a.hasPgdir t)
  exitStatus t := (b.exitStatus t).trans (a.exitStatus t)
  serial t := (b.serial t).trans (a.serial t)
  hanging t h := (b.hanging t (a.allList ▸ h)).trans (a.hanging t h)
  waiting t h := (b.waiting t (a.allList ▸ h)).trans (a.waiting t h)

/-- Semaphores and waiter variables are no part of the tree. -/
theorem sameTree_setSema (k : Nat) (g : Semaphore → Semaphore) : SameTree s (s.setSema k g) :=
  .of_tasks rfl rfl rfl rfl rfl rfl

theorem sameTree_setWaiter (w : Nat) (o : Option Addr) : SameTree s (s.setWaiter w o) :=
  .of_tasks rfl rfl rfl rfl rfl rfl

/-- A task changes its scheduling fields alone: status, ticks, continuation, and it
exits by none of them. -/
structure Relabels (f : Task → Task) (old : Task) : Prop where
  pid : (f old).pid = old.pid
  parentPid : (f old).parentPid = old.parentPid
  hasPgdir : (f old).hasPgdir = old.hasPgdir
  exitStatus : (f old).exitStatus = old.exitStatus
  serial : (f old).serial = old.serial
  hanging : (f old).status = .hanging ↔ old.status = .hanging

theorem sameKin_setTask {f : Task → Task} (hall : s'.allList = s.allList)
    (hmain : s'.mainThread = s.mainThread) (hidle : s'.idleThread = s.idleThread)
    (hpid : s'.pidBitmap = s.pidBitmap) (hser : s'.nextSerial = s.nextSerial)
    (htasks : s'.tasks = s.tasks) (r : Relabels f (s.tasks t)) : SameKin s (s'.setTask t f) := by
  have field {β : Type} (g : Task → β) (h : g (f (s.tasks t)) = g (s.tasks t)) (u : Addr) :
      g ((s'.setTask t f).tasks u) = g (s.tasks u) := by
    rw [setTask_tasks, htasks]
    split
    next e => rw [e]; exact h
    next => rfl
  refine ⟨hall, hmain, hidle, hpid, hser, field _ r.pid, field _ r.parentPid, field _ r.hasPgdir,
    field _ r.exitStatus,
    field _ r.serial, fun u _ => ?_⟩
  rw [setTask_tasks, htasks]
  split
  next e => rw [e]; exact r.hanging
  next => exact Iff.rfl

theorem sameTree_setTask {f : Task → Task} (hall : s'.allList = s.allList)
    (hmain : s'.mainThread = s.mainThread) (hidle : s'.idleThread = s.idleThread)
    (hpid : s'.pidBitmap = s.pidBitmap) (hser : s'.nextSerial = s.nextSerial)
    (htasks : s'.tasks = s.tasks) (r : Relabels f (s.tasks t))
    (waiting : (f (s.tasks t)).status = .waiting ↔ (s.tasks t).status = .waiting) :
    SameTree s (s'.setTask t f) := by
  refine ⟨sameKin_setTask hall hmain hidle hpid hser htasks r, fun u _ => ?_⟩
  rw [setTask_tasks, htasks]
  split
  next e => rw [e]; exact waiting
  next => exact Iff.rfl

/-- A blocked task is woken. -/
theorem sameTree_wake (h : (s.tasks t).status = .blocked) : SameTree s (s.wake t) :=
  sameTree_setTask rfl rfl rfl rfl rfl rfl ⟨rfl, rfl, rfl, rfl, rfl, by simp [h]⟩ (by simp [h])

theorem Between.sameTree_dispatch (b : Between s) {rest : List Addr} (h : s.readyList = t :: rest) :
    SameTree s (s.dispatch t rest) := by
  have hst := ((b.ready t).mp (by rw [h]; exact List.mem_cons_self)).2
  exact sameTree_setTask rfl rfl rfl rfl rfl rfl
    ⟨rfl, rfl, rfl, rfl, rfl, by simp [hst]⟩ (by simp [hst])

/-! ## `schedule` -/

/-- The second half of `schedule` passes its assertions: nobody runs, so an idle
thread that is not on the ready list is blocked, and can be woken. -/
theorem Between.next (b : Between s) :
    ∃ s', scheduleNext s = .ok s' ∧ Queues s' ∧ SameTree s s' := by
  unfold scheduleNext runNext
  cases hr : s.readyList with
  | cons next rest =>
    refine ⟨s.dispatch next rest, ?_, b.dispatch hr, b.sameTree_dispatch hr⟩
    simp only [hr, List.cons_ne_nil, ↓reduceIte, pure_bind, ne_eq, not_false_eq_true,
      assertThat_of, ok_bind]
    rfl
  | nil =>
    have fit := b.fits _ b.idleMem
    have hst : (s.tasks s.idleThread).status = .blocked := by
      have hnr : (s.tasks s.idleThread).status ≠ .ready := fun h => by
        have := (b.ready s.idleThread).mpr ⟨b.idleMem, h⟩
        rw [hr] at this
        cases this
      have hidle := b.idle
      cases h : (s.tasks s.idleThread).status with
      | blocked => rfl
      | running => exact absurd h (b.nobody _ b.idleMem)
      | ready => exact absurd h hnr
      | «over» => exact absurd h fit.notOver.1
      | waiting => rw [fit.waiting h] at hidle; exact hidle.elim
      | hanging => rw [fit.hanging.mp h] at hidle; exact hidle.elim
    have hwake := threadUnblock_eq b.toLinks (.inl hst)
    have hlist : (s.wake s.idleThread).readyList = [s.idleThread] := by
      show s.idleThread :: s.readyList = _
      rw [hr]
    have woken : Between (s.wake s.idleThread) := by
      refine ⟨b.toLinks.wake b.idleMem b.idle_unqueued (.inl hst), fun u hu => ?_⟩
      show ((Sched.setTask _ _ _).tasks u).status ≠ .running
      rw [setTask_tasks]
      split
      · simp
      · exact b.nobody u hu
    refine ⟨(s.wake s.idleThread).dispatch s.idleThread [], ?_, woken.dispatch hlist,
      (sameTree_wake hst).trans (woken.sameTree_dispatch hlist)⟩
    simp only [↓reduceIte, hwake, ok_bind, hlist, ne_eq, List.cons_ne_nil, not_false_eq_true,
      assertThat_of]
    rfl

/-- `schedule` after the current task has given the processor away. -/
theorem Between.schedule (b : Between s) (hst : (s.tasks s.cur).status ≠ .running) :
    ∃ s', schedule s = .ok s' ∧ Queues s' ∧ SameTree s s' := by
  unfold Thread.schedule scheduleRequeue
  simp only [hst, ↓reduceIte, pure_bind]
  exact b.next

/-- The current task goes to the end of the ready list. -/
theorem Queues.requeue (q : Queues s) {f : Task → Task} (hst : (f (s.tasks s.cur)).status = .ready)
    (hover : (f (s.tasks s.cur)).resume ≠ .over) (hexit : (f (s.tasks s.cur)).resume ≠ .exited)
    (idle : s.cur = s.idleThread → IdleResume (f (s.tasks s.cur)).resume) :
    Between ({ s with readyList := s.readyList ++ [s.cur] }.setTask s.cur f) :=
  q.leave (nodup_snoc q.readyNodup q.cur_not_ready) (fun u hu => by simp [hu]) (by simp [hst])
    (by rw [hst]; decide) (.awake (.inl hst) hover hexit) idle

/-- `schedule` of a task whose time slice is over. -/
theorem Queues.schedule (q : Queues s) : ∃ s', schedule s = .ok s' ∧ Queues s' ∧ SameTree s s' := by
  have fit := q.fits _ q.curMem
  have left :=
    q.requeue (f := fun t => { t with ticks := t.priority, status := .ready }) rfl fit.notOver.2
    q.cur_resume.1 fun e => e ▸ q.idle
  obtain ⟨s', hs', hq, htree⟩ := left.next
  refine ⟨s', ?_, hq, SameTree.trans ?_ htree⟩
  · unfold Thread.schedule scheduleRequeue
    simp only [q.cur_status, ↓reduceIte, assertThat_of q.cur_not_ready, ok_bind]
    exact hs'
  · exact sameTree_setTask rfl rfl rfl rfl rfl rfl
      ⟨rfl, rfl, rfl, rfl, rfl, by simp [q.cur_status]⟩ (by simp [q.cur_status])

/-- `thread_block`: the current task gives the processor away for good reason. -/
theorem Queues.threadBlock (q : Queues s) {statu : TaskStatus} {resume : Resume}
    (hst : statu = .blocked ∨ statu = .hanging ∨ statu = .waiting)
    (fit : TaskFits { s.tasks s.cur with status := statu, resume := resume })
    (idle : s.cur = s.idleThread → IdleResume resume) :
    ∃ s', threadBlock s statu resume = .ok s' ∧ Queues s' ∧
      SameTree (s.setTask s.cur ({ · with status := statu, resume := resume })) s' := by
  have hne : statu ≠ .ready ∧ statu ≠ .running := by
    rcases hst with rfl | rfl | rfl <;> exact ⟨by decide, by decide⟩
  have left : Between (s.setTask s.cur ({ · with status := statu, resume := resume })) :=
    q.leave q.readyNodup (fun _ _ => Iff.rfl) (by simp [q.cur_not_ready, hne.1]) hne.2 fit idle
  unfold Thread.threadBlock
  rw [assertThat_of hst, ok_bind]
  exact left.schedule (by simp [hne.2])

end SeekingOs.Thread
