import SeekingOs.Thread.Starting

/-!
# The queues of the scheduler, in every reachable state

A task has one `general_tag`, by which it is on the ready list or among the waiters of a semaphore,
and its status is changed apart from that. In every state with interrupts on the two fit together,
as long as `thread_start` is called with interrupts off, as `thread_init` calls it. Where it is
called with interrupts on they need not: a tick between its two `list_append`s makes a thread run
that is not on `thread_all_list`.
-/

namespace SeekingOs.Thread

open Lib

/-- The lists that a task is on by its `general_tag`. -/
inductive Queue where
  | ready
  | waiters (k : Nat)
  deriving DecidableEq, Repr

/-- The tasks on a queue. -/
def Sched.queue (s : Sched) : Queue → List Addr
  | .ready => s.readyList
  | .waiters k => (s.semaphores k).waiters

/-- The assertions about list membership and about a ready list that is not empty. -/
def queueAsserts : List Fault :=
  [.assert "schedule" "!elem_find(&thread_ready_list, &cur->general_tag)",
   .assert "schedule" "!list_empty(&thread_ready_list)",
   .assert "thread_yield" "!elem_find(&thread_ready_list, &cur->general_tag)",
   .assert "thread_unblock" "!elem_find(&thread_ready_list, &pthread->general_tag)",
   .assert "thread_unblock"
    "pthread->status == TASK_BLOCKED || pthread->status == TASK_HANGING || pthread->status == TASK_WAITING",
   .assert "sema_down" "!elem_find(&psem->waiters, &running_thread()->general_tag)",
   .assert "thread_start" "!elem_find(&thread_ready_list, &thread->general_tag)",
   .assert "thread_start" "!elem_find(&thread_all_list, &thread->all_list_tag)",
   .assert "sys_fork" "!elem_find(&thread_ready_list, &child_thread->general_tag)",
   .assert "sys_fork" "!elem_find(&thread_all_list, &child_thread->all_list_tag)"]

/-- None of them is a fault that a run can end with. -/
theorem queueAsserts_disjoint : ∀ f ∈ otherStops, f ∉ queueAsserts := by decide

variable {s : Sched} {t : Addr}

/-- One queue at most: a task on the ready list is ready, one among the waiters of `k` is
blocked in the loop of `sema_down` on `k`. -/
theorem Links.queue_unique (l : Links s) {a b : Queue} (ha : t ∈ s.queue a) (hb : t ∈ s.queue b) :
    a = b := by
  have apart {k : Nat} (hr : t ∈ s.readyList) (hk : t ∈ (s.semaphores k).waiters) : False := by
    have h₁ := ((l.ready t).mp hr).2
    rw [(l.waiters k t hk).2.1] at h₁
    cases h₁
  cases a with
  | ready =>
    cases b with
    | ready => rfl
    | waiters k => exact (apart ha hb).elim
  | waiters j =>
    cases b with
    | ready => exact (apart hb ha).elim
    | waiters k =>
      obtain ⟨_, _, old, h₁⟩ := l.waiters j t ha
      obtain ⟨_, _, old', h₂⟩ := l.waiters k t hb
      rw [h₁] at h₂
      rw [(Resume.semaDown.inj h₂).1]

theorem Links.queue_nodup (l : Links s) (a : Queue) : (s.queue a).Nodup := by
  cases a with
  | ready => exact l.readyNodup
  | waiters k => exact l.waitersNodup k

theorem Queues.cur_unlinked (q : Queues s) (a : Queue) : s.cur ∉ s.queue a := by
  cases a with
  | ready => exact q.cur_not_ready
  | waiters k => exact q.cur_unqueued.waiters k

/-- The lists and the statuses fit together. -/
structure Consistent (s : Sched) : Prop where
  /-- One task runs, the current one. -/
  running : s.cur ∈ s.allList ∧ ∀ t ∈ s.allList, (s.tasks t).status = .running ↔ t = s.cur
  /-- It is on no queue. -/
  unlinked : ∀ a, s.cur ∉ s.queue a
  /-- The ready list holds the ready tasks, -/
  ready : ∀ t ∈ s.allList, t ∈ s.readyList ↔ (s.tasks t).status = .ready
  /-- each once. -/
  once : ∀ t ∈ s.allList, (s.tasks t).status = .ready → s.readyList.count t = 1
  nodup : ∀ a, (s.queue a).Nodup
  /-- A task is on one queue at most. -/
  unique : ∀ t a b, t ∈ s.queue a → t ∈ s.queue b → a = b

theorem Queues.consistent (q : Queues s) : Consistent s := by
  have mem {t : Addr} (ht : t ∈ s.allList) : t ∈ s.readyList ↔ (s.tasks t).status = .ready := by
    simp [q.ready t, ht]
  exact ⟨⟨q.curMem, q.running⟩, q.cur_unlinked, fun t ht => mem ht,
    fun t ht h => List.count_eq_one_of_mem q.readyNodup ((mem ht).mpr h), q.queue_nodup,
    fun t a b => q.queue_unique⟩

/-- THE QUEUES ARE CONSISTENT, in every state of a run with interrupts on, and in every one with
nobody in `thread_start`; and no step from any state fails an assertion about the queues. -/
theorem scheduler_queues_consistent {pcb₁ pcb₃ : Addr} {value : Nat → Nat} (apart : Apart pcb₁ pcb₃)
    {tr : List (Entry Starts StartEvent Out)} {u : Starts}
    (path : startMachine.Path ⟨boot pcb₁ pcb₃ value, []⟩ tr u) (off : Machine.Meets StartsOff tr) :
    (u.sched.intr = true ∨ u.starting = [] → Consistent u.sched) ∧
    ∀ e f, startEnabled u e → StartsOff u e → startStep u e = .error f → f ∉ queueAsserts := by
  have inv := start_inv apart path off
  constructor
  · intro h
    cases inv with
    | whole _ inv => exact inv.queues.consistent
    | inside inv en ready starting =>
      rcases h with on | none
      · exact absurd (on.symm.trans (startEnabled_inside inv en ready starting).1) (by decide)
      · rw [starting] at none
        cases none
  · intro e f en hoff fault
    exact queueAsserts_disjoint f ((inv.step_does en hoff).of_error fault)

/-- `main` starts a thread, turns interrupts on and waits on a semaphore; `init` wakes it; `idle`
blocks itself, and the new thread runs. -/
def wokenRun : List StartEvent :=
  [.start 0xc0103000 ['k'] 20, .started, .sched .intrEnable, .sched .tick, .sched (.semaDown 0),
   -- `init`, then `main`, then `idle`, then the new thread
   .sched .goOn, .sched (.semaUp 0), .sched .yield, .sched .goOn, .sched .yield, .sched .goOn,
   .sched .idleBlock, .sched .goOn, .sched .tick]

/-- At its end `main`, which had been among the waiters, is on the ready list, once. -/
theorem scheduler_queues_consistent_woken : ∃ tr u,
    startMachine.Path ⟨boot 0xc0101000 0xc0102000 fun _ => 0, []⟩ tr u ∧
    tr.map (·.event) = wokenRun ∧
      u.sched.cur = 0xc0103000 ∧ Consistent u.sched := by
  obtain ⟨tr, u, path, events, off, on, cur⟩ := Machine.replay_path startMachine StartsOff
    ⟨boot 0xc0101000 0xc0102000 fun _ => 0, []⟩ wokenRun
    (fun _ u => u.sched.intr = true ∧ u.sched.cur = 0xc0103000) (by decide +kernel)
  exact ⟨tr, u, path, events, cur, (scheduler_queues_consistent (by decide) path off).1 (.inl on)⟩

/-- `main` calls `thread_start` with interrupts on. Its quantum ends between the two `list_append`s,
and the new thread gets the processor before `main` does again. -/
def tornRun : List StartEvent :=
  [.sched .intrEnable, .start 0xc0103000 ['k'] 20] ++ List.replicate 31 (.sched .tick) ++
  [.sched .goOn, .sched .yield, .sched .goOn, .sched .idleBlock, .sched .goOn]

/-- Interrupts are on, and the current thread is not on `thread_all_list`. -/
theorem started_torn :
    ¬ ∀ tr u, startMachine.Path ⟨boot 0xc0101000 0xc0102000 fun _ => 0, []⟩ tr u →
    u.sched.intr = true → Consistent u.sched := by
  intro h
  obtain ⟨tr, u, path, -, -, on, cur⟩ := Machine.replay_path startMachine (fun _ _ => True)
    ⟨boot 0xc0101000 0xc0102000 fun _ => 0, []⟩ tornRun
    (fun _ u => u.sched.intr = true ∧ u.sched.cur ∉ u.sched.allList) (by decide +kernel)
  exact cur (h tr u path on).running.1

end SeekingOs.Thread
