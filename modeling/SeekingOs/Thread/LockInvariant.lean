import SeekingOs.Thread.Lock
import SeekingOs.Thread.Steps

/-!
# The lock excludes

The value of the semaphore is 0 exactly when some thread is somewhere between the end of its
`sema_down` and its `sema_up`. That thread owns the lock, and what `holder` and `holder_repeat_nr`
are depends only on where it is.

A thread that was popped from `waiters` is still in the loop of `sema_down` and in no wait queue. As
long as it is, a free lock with waiters is not forgotten.
-/

namespace SeekingOs.Thread

open Lib

/-! ## What the steps of the scheduler leave alone -/

/-- The semaphores stay, and each thread goes on where it would have. -/
structure SameResumes (s s' : Sched) : Prop where
  semaphores : s'.semaphores = s.semaphores
  resume : ∀ t, (s'.tasks t).resume = (s.tasks t).resume

variable {s s' : Sched}

theorem SameResumes.refl (s : Sched) : SameResumes s s := ⟨rfl, fun _ => rfl⟩

theorem SameResumes.trans {s'' : Sched} (h : SameResumes s s') (h' : SameResumes s' s'') :
    SameResumes s s'' :=
  ⟨h'.semaphores.trans h.semaphores, fun t => (h'.resume t).trans (h.resume t)⟩

/-- A task changes anything but its continuation. -/
theorem sameResumes_setTask {t : Addr} {f : Task → Task} (hsema : s'.semaphores = s.semaphores)
    (htasks : s'.tasks = s.tasks) (hf : (f (s.tasks t)).resume = (s.tasks t).resume) :
    SameResumes s (s'.setTask t f) := by
  refine ⟨hsema, fun u => ?_⟩
  rw [setTask_tasks, htasks]
  split
  next e => rw [e, hf]
  next => rfl

/-- No assertion of `sync.c` fails, and an answer has `Q`. -/
abbrev SyncPasses (Q : Sched → Prop) (r : Except Fault Sched) : Prop :=
  Ensures (· ∉ syncAsserts) Q r

theorem syncPasses_assertThat {cond : Prop} [Decidable cond] {func condition : String}
    (hfunc : Fault.assert func condition ∉ syncAsserts) :
    Ensures (· ∉ syncAsserts) (fun _ => True) (assertThat false cond func condition) :=
  ensures_assertThat (fun _ => hfunc) fun _ => trivial

theorem threadUnblock_same (s : Sched) (t : Addr) :
    SyncPasses (SameResumes s) (threadUnblock s t) := by
  unfold threadUnblock
  refine Ensures.bind (syncPasses_assertThat (by simp [syncAsserts])) fun _ _ => ?_
  split
  · refine Ensures.bind (syncPasses_assertThat (by simp [syncAsserts])) fun _ _ => ?_
    exact sameResumes_setTask rfl rfl rfl
  · exact .refl s

theorem scheduleRequeue_same (s : Sched) : SyncPasses (SameResumes s) (scheduleRequeue s) := by
  unfold scheduleRequeue
  split
  · refine Ensures.bind (syncPasses_assertThat (by simp [syncAsserts])) fun _ _ => ?_
    exact sameResumes_setTask rfl rfl rfl
  · exact .refl s

theorem scheduleNext_same (s : Sched) : SyncPasses (SameResumes s) (scheduleNext s) := by
  -- what comes after the idle thread has been woken
  have next (s₁ : Sched) : SyncPasses (SameResumes s₁) (runNext s₁) := by
    refine Ensures.bind (syncPasses_assertThat (by simp [syncAsserts])) fun _ _ => ?_
    split
    · simp [syncAsserts]
    · exact sameResumes_setTask rfl rfl rfl
  rw [scheduleNext_eq]
  split
  · refine Ensures.bind (threadUnblock_same s s.idleThread) fun s₁ h₁ => ?_
    exact (next s₁).mono fun _ => h₁.trans
  · exact next s

theorem schedule_same (s : Sched) : SyncPasses (SameResumes s) (schedule s) := by
  refine Ensures.bind (scheduleRequeue_same s) fun s₁ h₁ => ?_
  exact (scheduleNext_same s₁).mono fun _ => h₁.trans

/-- The semaphores stay, and so do the continuations of the threads that are not `c`; `c` gets `r`.
-/
structure Leaves (s : Sched) (c : Addr) (r : Resume) (s' : Sched) : Prop where
  semaphores : s'.semaphores = s.semaphores
  self : (s'.tasks c).resume = r
  others : ∀ t, t ≠ c → (s'.tasks t).resume = (s.tasks t).resume

theorem Leaves.then {s'' : Sched} {c : Addr} {r : Resume} (h : Leaves s c r s')
    (h' : SameResumes s' s'') : Leaves s c r s'' :=
  ⟨h'.semaphores.trans h.semaphores, (h'.resume c).trans h.self,
    fun t ht => (h'.resume t).trans (h.others t ht)⟩

theorem leaves_setTask {c : Addr} {r : Resume} {f : Task → Task}
    (hsema : s'.semaphores = s.semaphores) (htasks : s'.tasks = s.tasks)
    (hf : (f (s.tasks c)).resume = r) : Leaves s c r (s'.setTask c f) := by
  refine ⟨hsema, by rw [setTask_self, htasks, hf], fun t ht => ?_⟩
  rw [setTask_tasks, if_neg ht, htasks]

theorem threadBlock_leaves (s : Sched) (statu : TaskStatus) (r : Resume) :
    SyncPasses (Leaves s s.cur r) (threadBlock s statu r) := by
  unfold threadBlock
  refine Ensures.bind (syncPasses_assertThat (by simp [syncAsserts])) fun _ _ => ?_
  exact (schedule_same _).mono fun _ => Leaves.then (leaves_setTask rfl rfl rfl)

theorem threadYield_leaves (s : Sched) :
    SyncPasses (Leaves s s.cur (.ret s.intr)) (threadYield s) := by
  unfold threadYield
  refine Ensures.bind (syncPasses_assertThat (by simp [syncAsserts])) fun _ _ => ?_
  exact (schedule_same _).mono fun _ => Leaves.then (leaves_setTask rfl rfl rfl)

theorem ioqWait_leaves (s : Sched) (w : Nat) :
    SyncPasses (Leaves s s.cur (.ioqWait w)) (ioqWait s w) := by
  unfold ioqWait
  refine Ensures.bind (syncPasses_assertThat (by simp [syncAsserts])) fun _ _ => ?_
  exact (threadBlock_leaves (s.setWaiter w (some s.cur)) .blocked (.ioqWait w)).mono fun _ h =>
    ⟨h.semaphores, h.self, h.others⟩

/-- The timer leaves the task where it was, or takes the processor from it. -/
theorem intrTimerHandler_leaves (s : Sched) :
    SyncPasses (fun s' => Leaves s s.cur (s.tasks s.cur).resume s' ∨ Leaves s s.cur (.ret true) s')
      (intrTimerHandler s) := by
  unfold intrTimerHandler
  simp only
  split
  · refine (schedule_same _).mono fun _ h => .inr (Leaves.then ?_ h)
    refine ⟨rfl, by simp, fun t ht => ?_⟩
    simp only [setTask_cur, setTask_tasks, if_neg ht]
  · refine .inl ⟨rfl, by simp, fun t ht => ?_⟩
    simp only [setTask_cur, setTask_tasks, if_neg ht]

theorem wakeup_same (s : Sched) (w : Nat) : SyncPasses (SameResumes s) (wakeup s w) := by
  unfold wakeup
  split
  · simp [syncAsserts]
  · exact Ensures.bind (threadUnblock_same s _) fun s₁ h₁ => ⟨h₁.semaphores, h₁.resume⟩

/-! ## `sema_down` and `sema_up` on the lock's semaphore -/

/-- THE TWO WAYS OF `sema_down`. The current task joins the waiters and gives the processor away, or
takes the value. -/
theorem Queues.semaDownLoop (q : Queues s) (hidle : s.cur ≠ s.idleThread) (k : Nat) (old : Bool)
    (hvalue : (s.semaphores k).value ≤ 1) :
    ∃ s', Thread.semaDownLoop s k old = .ok s' ∧ Queues s' ∧ SameTree s s' ∧
      (∀ t ≠ s.cur, (s'.tasks t).resume = (s.tasks t).resume) ∧
      (s'.semaphores k).value = 0 ∧
      (((s.semaphores k).value = 0 ∧
        (s'.semaphores k).waiters = (s.semaphores k).waiters ++ [s.cur] ∧
          (s'.tasks s.cur).resume = .semaDown k old) ∨
        ((s.semaphores k).value = 1 ∧ (s'.semaphores k).waiters = (s.semaphores k).waiters ∧
        (s'.tasks s.cur).resume = .run)) := by
  have hnot : s.cur ∉ (s.semaphores k).waiters := q.cur_unqueued.waiters k
  unfold Thread.semaDownLoop
  by_cases h0 : (s.semaphores k).value = 0
  · rw [if_pos h0, assertThat_of hnot, ok_bind]
    obtain ⟨s', hs', hq, htree⟩ := q.queueUp hidle k old
    have left := (threadBlock_leaves _ _ _).of_ok hs'
    refine ⟨s', hs', hq, htree, left.others, ?_, .inl ⟨h0, ?_, left.self⟩⟩
    · rw [left.semaphores, setSema_semaphores, if_pos rfl, h0]
    · rw [left.semaphores, setSema_semaphores, if_pos rfl]
  · have h1 : (s.semaphores k).value = 1 := by omega
    have lowered : Queues (s.setSema k fun sem => { sem with value := sem.value - 1 }) :=
      q.setSema (List.Sublist.refl _)
    have hsema : ((s.setSema k fun sem => { sem with value := sem.value - 1 }).semaphores k) =
        ⟨0, (s.semaphores k).waiters⟩ := by
      rw [setSema_semaphores, if_pos rfl, h1]
    rw [if_neg h0]
    dsimp only
    rw [assertThat_of (by rw [hsema]), ok_bind]
    obtain ⟨hq, htree⟩ := keeps_run lowered old
    refine ⟨_, rfl, hq, (sameTree_setSema k _).trans htree, fun t ht => ?_, ?_, .inr ⟨h1, ?_, ?_⟩⟩
    · rw [setTask_tasks]
      exact congrArg Task.resume (if_neg ht)
    · rw [setTask_semaphores, hsema]
    · rw [setTask_semaphores, hsema]
    · exact congrArg Task.resume (setTask_self _ _ _)

/-- WHAT `sema_up` DOES. The first of the waiters is popped; it goes on where it was. -/
theorem Queues.semaUp (q : Queues s) (k : Nat) (hvalue : (s.semaphores k).value = 0) :
    ∃ s', Thread.semaUp s k = .ok s' ∧ Queues s' ∧ SameTree s s' ∧ s'.cur = s.cur ∧
      (∀ t, (s'.tasks t).resume = (s.tasks t).resume) ∧
      (s'.semaphores k).value = 1 ∧ (s'.semaphores k).waiters = (s.semaphores k).waiters.tail := by
  obtain ⟨s₁, hpop, hq, htree, hcur, hresume, hsema⟩ := q.semaPop k
  have hone : ((s₁.setSema k fun sem => { sem with value := sem.value + 1 }).semaphores k) =
      ⟨1, (s.semaphores k).waiters.tail⟩ := by
    rw [setSema_semaphores, if_pos rfl, hsema, hvalue]
  unfold Thread.semaUp
  rw [assertThat_of hvalue, ok_bind, hpop, ok_bind]
  dsimp only
  rw [assertThat_of (by rw [hone]), ok_bind]
  exact ⟨_, rfl, hq.setSema (List.Sublist.refl _), htree.trans (sameTree_setSema k _), hcur,
    hresume, by rw [hone], by rw [hone]⟩

/-! ## Who owns the lock -/

/-- In the loop of `sema_down` on the lock's semaphore -/
def InSemaDown : Resume → Prop
  | .semaDown k _ => k = lockSema
  | _ => False

/-- From the end of `sema_down` to `sema_up`. -/
def Owning (p : LockPoint) (d : Nat) (r : Resume) : Prop :=
  match p with
  | .out => 0 < d
  | .down => False
  | .taking => ¬ InSemaDown r
  | _ => True

/-- From the write of `holder` to the next one. -/
def Holding (p : LockPoint) (d : Nat) : Prop :=
  match p with
  | .out => 0 < d
  | .down | .taking | .freed | .up => False
  | _ => True

/-- What `holder_repeat_nr` is while the owner is at `p`. -/
def repeatNr (p : LockPoint) (d : Nat) : Nat :=
  match p with
  | .down | .taking | .taken | .up => 0
  | .freeing | .freed => 1
  | _ => d

/-- Place and depth fit. A depth is a number that `holder_repeat_nr` can hold. -/
def DepthFits (p : LockPoint) (d : Nat) : Prop :=
  match p with
  | .out => d < 2 ^ 32
  | .again => 0 < d ∧ d + 1 < 2 ^ 32
  | .more n => 0 < d ∧ n = d + 1 ∧ n < 2 ^ 32
  | .fewer => 1 < d ∧ d < 2 ^ 32
  | .less n => 1 < d ∧ d = n + 1 ∧ d < 2 ^ 32
  | _ => d = 0

/-- THE INVARIANT. `owner` owns the lock, and everybody's place agrees with that. -/
structure Held (s : LockSched) (owner : Option Addr) : Prop where
  queues : Queues s.sched
  value : (s.sched.semaphores lockSema).value = if owner = none then 1 else 0
  owns : ∀ t, owner = some t ↔ Owning (s.point t) (s.depth t) (s.sched.tasks t).resume
  holds : ∀ t, s.holder = some t ↔ Holding (s.point t) (s.depth t)
  repeats : ∀ t, owner = some t → s.holderRepeatNr = repeatNr (s.point t) (s.depth t)
  free : owner = none → s.holderRepeatNr = 0
  waits : ∀ t, InSemaDown (s.sched.tasks t).resume → s.point t = .taking
  depth : ∀ t, DepthFits (s.point t) (s.depth t)
  idle : s.point s.sched.idleThread = .out ∧ s.depth s.sched.idleThread = 0
  pending : owner = none → (s.sched.semaphores lockSema).waiters ≠ [] →
    ∃ t ∈ s.sched.allList, t ∉ (s.sched.semaphores lockSema).waiters ∧
      InSemaDown (s.sched.tasks t).resume

/-- What a step of the current task leaves of all the others. -/
structure OthersStay (s s' : LockSched) : Prop where
  idleThread : s'.sched.idleThread = s.sched.idleThread
  allList : s'.sched.allList = s.sched.allList
  place : ∀ t, t ≠ s.sched.cur → s'.point t = s.point t ∧ s'.depth t = s.depth t
  resume : ∀ t, t ≠ s.sched.cur → (s'.sched.tasks t).resume = (s.sched.tasks t).resume
  holder : ∀ t, t ≠ s.sched.cur → (s'.holder = some t ↔ s.holder = some t)

variable {l l' : LockSched} {owner owner' : Option Addr}

/-- Only an owner is in the part of the code where `holder_repeat_nr` is used. -/
theorem Held.owner_of (h : Held l owner) {t : Addr}
    (own : Owning (l.point t) (l.depth t) (l.sched.tasks t).resume) : owner = some t :=
  (h.owns t).mpr own

/-- THE MOVE. The current task goes to another place, and everything about itself fits there; nobody
else moves. -/
theorem Held.move (h : Held l owner) (stay : OthersStay l l')
    (hidle : l.sched.cur ≠ l.sched.idleThread) (queues : Queues l'.sched)
    (value : (l'.sched.semaphores lockSema).value = if owner' = none then 1 else 0)
    (others : ∀ t, t ≠ l.sched.cur → (owner' = some t ↔ owner = some t))
    (self : owner' = some l.sched.cur ↔
      Owning (l'.point l.sched.cur) (l'.depth l.sched.cur) (l'.sched.tasks l.sched.cur).resume)
    (holds : l'.holder = some l.sched.cur ↔ Holding (l'.point l.sched.cur) (l'.depth l.sched.cur))
    (repeats : ∀ t, owner' = some t → l'.holderRepeatNr = repeatNr (l'.point t) (l'.depth t))
    (free : owner' = none → l'.holderRepeatNr = 0)
    (waits : InSemaDown (l'.sched.tasks l.sched.cur).resume → l'.point l.sched.cur = .taking)
    (depth : DepthFits (l'.point l.sched.cur) (l'.depth l.sched.cur))
    (pending : owner' = none → (l'.sched.semaphores lockSema).waiters ≠ [] →
      ∃ t ∈ l.sched.allList, t ∉ (l'.sched.semaphores lockSema).waiters ∧
      InSemaDown (l'.sched.tasks t).resume) :
    Held l' owner' where
  queues := queues
  value := value
  owns t := by
    by_cases e : t = l.sched.cur
    · rw [e]
      exact self
    · rw [others t e, (stay.place t e).1, (stay.place t e).2, stay.resume t e]
      exact h.owns t
  holds t := by
    by_cases e : t = l.sched.cur
    · rw [e]
      exact holds
    · rw [stay.holder t e, (stay.place t e).1, (stay.place t e).2]
      exact h.holds t
  repeats := repeats
  free := free
  waits t := by
    by_cases e : t = l.sched.cur
    · rw [e]
      exact waits
    · rw [(stay.place t e).1, stay.resume t e]
      exact h.waits t
  depth t := by
    by_cases e : t = l.sched.cur
    · rw [e]
      exact depth
    · rw [(stay.place t e).1, (stay.place t e).2]
      exact h.depth t
  idle := by
    have hne : l.sched.idleThread ≠ l.sched.cur := hidle.symm
    rw [stay.idleThread, (stay.place _ hne).1, (stay.place _ hne).2]
    exact h.idle
  pending hnone hne := by
    rw [stay.allList]
    exact pending hnone hne

/-- The current task moves inside the lock's code, and the scheduler does not notice: what it owned
before it owns after. -/
theorem Held.statement_move (h : Held l owner) (hidle : l.sched.cur ≠ l.sched.idleThread)
    (hsched : l'.sched = l.sched) (hplace : ∀ t, t ≠ l.sched.cur → l'.point t = l.point t ∧
      l'.depth t = l.depth t) (hholder : ∀ t, t ≠ l.sched.cur →
      (l'.holder = some t ↔ l.holder = some t))
    (hnot : ¬ InSemaDown (l.sched.tasks l.sched.cur).resume) (own : owner = some l.sched.cur ↔
      Owning (l'.point l.sched.cur) (l'.depth l.sched.cur) (l.sched.tasks l.sched.cur).resume)
    (holds : l'.holder = some l.sched.cur ↔ Holding (l'.point l.sched.cur) (l'.depth l.sched.cur))
    (repeats : (owner = some l.sched.cur →
      l'.holderRepeatNr = repeatNr (l'.point l.sched.cur) (l'.depth l.sched.cur)) ∧
      (owner ≠ some l.sched.cur → l'.holderRepeatNr = l.holderRepeatNr))
    (depth : DepthFits (l'.point l.sched.cur) (l'.depth l.sched.cur)) : Held l' owner := by
  have stay : OthersStay l l' := by
    refine ⟨by rw [hsched], by rw [hsched], hplace, fun t _ => by rw [hsched], hholder⟩
  refine h.move stay hidle (hsched ▸ h.queues) (by rw [hsched]; exact h.value) (fun _ _ => Iff.rfl)
    (by rw [hsched]; exact own) holds (fun t ht => ?_) (fun hnone => ?_) (fun hw => ?_) depth ?_
  · by_cases e : t = l.sched.cur
    · subst e
      exact repeats.1 ht
    · have hne : owner ≠ some l.sched.cur := fun e' => e (Option.some.inj (ht.symm.trans e'))
      rw [repeats.2 hne, (hplace t e).1, (hplace t e).2]
      exact h.repeats t ht
  · rw [repeats.2 (by rw [hnone]; exact nofun)]
    exact h.free hnone
  · rw [hsched] at hw
    exact absurd hw hnot
  · rw [hsched]
    exact h.pending

/-! ## The steps of the lock's code -/

/-- Acquisitions nest at most 2³² - 1 deep. -/
def Shallow (s : LockSched) : LockEvent → Prop
  | .lockAcquire => s.depth s.sched.cur < 2 ^ 32 - 1
  | _ => True

instance (s : LockSched) : (e : LockEvent) → Decidable (Shallow s e)
  | .lockAcquire => Nat.decLt _ _
  | .lockRelease | .statement | .sched _ => .isTrue trivial

theorem Holding.owning {p : LockPoint} {d : Nat} (h : Holding p d) (r : Resume) : Owning p d r := by
  cases p <;> first | exact h | exact trivial | exact h.elim

/-- Who holds the lock owns it. -/
theorem Held.owner_of_holder (h : Held l owner) {t : Addr} (ht : l.holder = some t) :
    owner = some t :=
  (h.owns t).mpr (((h.holds t).mp ht).owning _)

/-- A thread inside the lock's code, or with the lock, is not the idle thread. -/
theorem Held.not_idle (h : Held l owner) {t : Addr} (ht : l.point t ≠ .out ∨ l.depth t ≠ 0) :
    t ≠ l.sched.idleThread := by
  rintro rfl
  rcases ht with ht | ht
  · exact ht h.idle.1
  · exact ht h.idle.2

@[simp] theorem goTo_sched (p : LockPoint) : (l.goTo p).sched = l.sched := rfl
@[simp] theorem goTo_holder (p : LockPoint) : (l.goTo p).holder = l.holder := rfl
@[simp] theorem goTo_holderRepeatNr (p : LockPoint) :
    (l.goTo p).holderRepeatNr = l.holderRepeatNr := rfl
@[simp] theorem goTo_depth (p : LockPoint) : (l.goTo p).depth = l.depth := rfl
@[simp] theorem goTo_self (p : LockPoint) : (l.goTo p).point l.sched.cur = p :=
  Function.update_self ..
@[simp] theorem setDepth_sched (d : Nat) : (l.setDepth d).sched = l.sched := rfl
@[simp] theorem setDepth_holder (d : Nat) : (l.setDepth d).holder = l.holder := rfl
@[simp] theorem setDepth_holderRepeatNr (d : Nat) :
    (l.setDepth d).holderRepeatNr = l.holderRepeatNr := rfl
@[simp] theorem setDepth_point (d : Nat) : (l.setDepth d).point = l.point := rfl
@[simp] theorem setDepth_self (d : Nat) : (l.setDepth d).depth l.sched.cur = d :=
  Function.update_self ..

theorem goTo_other (p : LockPoint) {t : Addr} (ht : t ≠ l.sched.cur) :
    (l.goTo p).point t = l.point t :=
  Function.update_of_ne ht ..

theorem setDepth_other (d : Nat) {t : Addr} (ht : t ≠ l.sched.cur) :
    (l.setDepth d).depth t = l.depth t :=
  Function.update_of_ne ht ..

theorem lockAcquire_keeps (h : Held l owner) (en : lockEnabled l .lockAcquire)
    (hd : Shallow l .lockAcquire) : Held l.lockAcquire owner := by
  obtain ⟨hrun, hidle, hpoint⟩ := en
  have own := h.owns l.sched.cur
  have holds := h.holds l.sched.cur
  have depth := h.depth l.sched.cur
  rw [hpoint] at own holds depth
  unfold LockSched.lockAcquire
  split
  next hh =>
    have h0 : ¬ 0 < l.depth l.sched.cur := fun hpos => hh (holds.mpr hpos)
    refine h.statement_move hidle rfl (fun t ht => ⟨goTo_other _ ht, rfl⟩) (fun _ _ => Iff.rfl)
      (by rw [hrun]; exact id)
      ?_ ?_ ⟨fun ho => absurd (own.mp ho) h0, fun _ => rfl⟩ ?_
    · rw [goTo_self]
      exact ⟨fun ho => h0 (own.mp ho), False.elim⟩
    · rw [goTo_self]
      exact ⟨hh, False.elim⟩
    · rw [goTo_self]
      exact Nat.eq_zero_of_not_pos h0
  next hh =>
    have hh : l.holder = some l.sched.cur := Classical.not_not.mp hh
    have hpos : 0 < l.depth l.sched.cur := holds.mp hh
    refine h.statement_move hidle rfl (fun t ht => ⟨goTo_other _ ht, rfl⟩) (fun _ _ => Iff.rfl)
      (by rw [hrun]; exact id)
      ?_ ?_ ⟨fun ho => ?_, fun _ => rfl⟩ ?_
    · rw [goTo_self]
      exact ⟨fun _ => trivial, fun _ => own.mpr hpos⟩
    · rw [goTo_self]
      exact ⟨fun _ => trivial, fun _ => hh⟩
    · rw [goTo_self]
      exact (h.repeats _ ho).trans (by rw [hpoint]; rfl)
    · rw [goTo_self]
      refine ⟨hpos, ?_⟩
      have : l.depth l.sched.cur < 2 ^ 32 - 1 := hd
      simp only [goTo_depth]
      omega

theorem lockRelease_keeps (h : Held l owner) (en : lockEnabled l .lockRelease) :
    ∃ l', l.lockRelease = .ok l' ∧ Held l' owner := by
  obtain ⟨hrun, hpoint, hpos⟩ := en
  have hnot : ¬ InSemaDown (l.sched.tasks l.sched.cur).resume := by rw [hrun]; exact id
  have hidle := h.not_idle (.inr (Nat.pos_iff_ne_zero.mp hpos))
  have own := h.owns l.sched.cur
  have holds := h.holds l.sched.cur
  have depth := h.depth l.sched.cur
  rw [hpoint] at own holds depth
  have ho : owner = some l.sched.cur := own.mpr hpos
  have hh : l.holder = some l.sched.cur := holds.mpr hpos
  have nr : l.holderRepeatNr = l.depth l.sched.cur := (h.repeats _ ho).trans (by rw [hpoint]; rfl)
  unfold LockSched.lockRelease
  rw [assertThat_of hh, ok_bind]
  split
  next hmore =>
    refine ⟨_, rfl, h.statement_move hidle rfl (fun t ht => ⟨goTo_other _ ht, rfl⟩)
      (fun _ _ => Iff.rfl) hnot ?_ ?_
      ⟨fun _ => ?_, fun hne => absurd ho hne⟩ ?_⟩
    · rw [goTo_self]
      exact ⟨fun _ => trivial, fun _ => ho⟩
    · rw [goTo_self]
      exact ⟨fun _ => trivial, fun _ => hh⟩
    · rw [goTo_self]
      exact nr
    · rw [goTo_self]
      exact ⟨nr ▸ hmore, depth⟩
  next hmore =>
    have hone : l.holderRepeatNr = 1 := by omega
    rw [assertThat_of hone, ok_bind]
    refine ⟨_, rfl, h.statement_move hidle rfl (fun t ht => ⟨goTo_other _ ht, setDepth_other _ ht⟩)
      (fun _ _ => Iff.rfl) hnot
      ?_ ?_ ⟨fun _ => ?_, fun hne => absurd ho hne⟩ ?_⟩
    · rw [setDepth_point, goTo_self]
      exact ⟨fun _ => trivial, fun _ => ho⟩
    · rw [setDepth_point, goTo_self]
      exact ⟨fun _ => trivial, fun _ => hh⟩
    · rw [setDepth_point, goTo_self]
      exact hone
    · rw [setDepth_point, goTo_self]
      exact setDepth_self 0

/-- `sema_down` from its beginning or from the top of its loop: whoever finds the value 1 owns the
lock. -/
theorem Held.semaDown (h : Held l owner)
    (hcur : ¬ Owning (l.point l.sched.cur) (l.depth l.sched.cur) (l.sched.tasks l.sched.cur).resume)
    (hpoint : l.point l.sched.cur = .down ∨ l.point l.sched.cur = .taking) (old : Bool) :
    ∃ sched owner', semaDownLoop l.sched lockSema old = .ok sched ∧
      Held { l.goTo .taking with sched } owner' := by
  have hidle : l.sched.cur ≠ l.sched.idleThread :=
    h.not_idle (.inl (by rcases hpoint with e | e <;> rw [e] <;> exact nofun))
  have hdepth : l.depth l.sched.cur = 0 := by
    have := h.depth l.sched.cur
    rcases hpoint with e | e <;> rwa [e] at this
  have hnotHolder : ¬ l.holder = some l.sched.cur := fun e => hcur (((h.holds _).mp e).owning _)
  have hnotOwner : ¬ owner = some l.sched.cur := fun e => hcur ((h.owns _).mp e)
  have hvalue := h.value
  obtain ⟨sched, hs, hq, htree, hothers, hzero, hway⟩ :=
    h.queues.semaDownLoop hidle lockSema old (by rw [hvalue]; split <;> omega)
  have stay : OthersStay l { l.goTo .taking with sched } :=
    ⟨htree.idleThread, htree.allList, fun t ht => ⟨goTo_other _ ht, rfl⟩, hothers,
      fun _ _ => Iff.rfl⟩
  have hpoint' : (l.goTo .taking).point l.sched.cur = .taking := goTo_self _
  rcases hway with ⟨h0, -, hresume⟩ | ⟨h1, -, hresume⟩
  · -- the value is 0: someone else owns the lock
    have hne : owner ≠ none := fun e => by rw [h0, if_pos e] at hvalue; cases hvalue
    refine ⟨sched, owner, hs,
      h.move stay hidle hq (by rw [hzero, if_neg hne]) (fun _ _ => Iff.rfl) ?_ ?_ ?_
      (fun e => absurd e hne) (fun _ => hpoint') ?_ (fun e => absurd e hne)⟩
    · show owner = some l.sched.cur ↔
        Owning ((l.goTo .taking).point l.sched.cur) (l.depth l.sched.cur)
          (sched.tasks l.sched.cur).resume
      rw [hpoint', hresume]
      exact ⟨fun e => absurd e hnotOwner, fun e => absurd rfl e⟩
    · show l.holder = some l.sched.cur ↔
        Holding ((l.goTo .taking).point l.sched.cur) (l.depth l.sched.cur)
      rw [hpoint']
      exact ⟨hnotHolder, False.elim⟩
    · intro t ht
      have hne : t ≠ l.sched.cur := fun e => hnotOwner (e ▸ ht)
      show l.holderRepeatNr = repeatNr ((l.goTo .taking).point t) (l.depth t)
      rw [goTo_other _ hne]
      exact h.repeats t ht
    · show DepthFits ((l.goTo .taking).point l.sched.cur) (l.depth l.sched.cur)
      rw [hpoint']
      exact hdepth
  · -- the value is 1: nobody owned the lock
    have hnone : owner = none := by
      by_contra e
      rw [h1, if_neg e] at hvalue
      cases hvalue
    have hnot : ¬ InSemaDown (sched.tasks l.sched.cur).resume := by rw [hresume]; exact id
    refine ⟨sched, some l.sched.cur, hs,
      h.move stay hidle hq (by rw [hzero]; rfl) (fun t ht => ?_) ?_ ?_ ?_
      (fun e => by cases e) (fun e => absurd e hnot) ?_ (fun e => by cases e)⟩
    · rw [hnone]
      exact ⟨fun e => absurd (Option.some.inj e).symm ht, fun e => by cases e⟩
    · show some l.sched.cur = some l.sched.cur ↔
        Owning ((l.goTo .taking).point l.sched.cur) (l.depth l.sched.cur)
          (sched.tasks l.sched.cur).resume
      rw [hpoint']
      exact ⟨fun _ => hnot, fun _ => rfl⟩
    · show l.holder = some l.sched.cur ↔
        Holding ((l.goTo .taking).point l.sched.cur) (l.depth l.sched.cur)
      rw [hpoint']
      exact ⟨hnotHolder, False.elim⟩
    · intro t ht
      obtain rfl := Option.some.inj ht
      show l.holderRepeatNr = repeatNr ((l.goTo .taking).point l.sched.cur) (l.depth l.sched.cur)
      rw [hpoint']
      exact h.free hnone
    · show DepthFits ((l.goTo .taking).point l.sched.cur) (l.depth l.sched.cur)
      rw [hpoint']
      exact hdepth

/-- `sema_up` by the owner: nobody owns the lock then, and a thread that was waiting for it is
awake. -/
theorem Held.semaUp (h : Held l owner) (hpoint : l.point l.sched.cur = .up)
    (hrun : (l.sched.tasks l.sched.cur).resume = .run) :
    ∃ sched, Thread.semaUp l.sched lockSema = .ok sched ∧ Held { l.goTo .out with sched } none := by
  have hidle : l.sched.cur ≠ l.sched.idleThread := h.not_idle (.inl (by rw [hpoint]; exact nofun))
  have ho : owner = some l.sched.cur := h.owner_of (by rw [hpoint]; trivial)
  have hdepth : l.depth l.sched.cur = 0 := by
    have := h.depth l.sched.cur
    rwa [hpoint] at this
  have hnotHolder : ¬ l.holder = some l.sched.cur := by
    rw [h.holds, hpoint]
    exact id
  have hzero : (l.sched.semaphores lockSema).value = 0 := by
    rw [h.value, if_neg (by rw [ho]; exact nofun)]
  obtain ⟨sched, hs, hq, htree, hcur, hresume, hone, hwaiters⟩ := h.queues.semaUp lockSema hzero
  have hpoint' : (l.goTo .out).point l.sched.cur = .out := goTo_self _
  have stay : OthersStay l { l.goTo .out with sched } :=
    ⟨htree.idleThread, htree.allList, fun t ht => ⟨goTo_other _ ht, rfl⟩, fun t _ => hresume t,
      fun _ _ => Iff.rfl⟩
  refine ⟨sched, hs, h.move stay hidle hq (by rw [hone]; rfl) (fun t ht => ?_) ?_ ?_
    (fun t e => by cases e) (fun _ => ?_)
    (fun e => ?_) ?_ (fun _ hne => ?_)⟩
  · rw [ho]
    exact ⟨fun e => (by cases e), fun e => absurd (Option.some.inj e).symm ht⟩
  · show none = some l.sched.cur ↔
      Owning ((l.goTo .out).point l.sched.cur) (l.depth l.sched.cur)
        (sched.tasks l.sched.cur).resume
    rw [hpoint', hdepth]
    exact ⟨fun e => (by cases e), fun e => absurd e (Nat.lt_irrefl 0)⟩
  · show l.holder = some l.sched.cur ↔
      Holding ((l.goTo .out).point l.sched.cur) (l.depth l.sched.cur)
    rw [hpoint', hdepth]
    exact ⟨fun e => absurd e hnotHolder, fun e => absurd e (Nat.lt_irrefl 0)⟩
  · exact (h.repeats _ ho).trans (by rw [hpoint]; rfl)
  · rw [show (sched.tasks l.sched.cur).resume = .run from (hresume _).trans hrun] at e
    exact e.elim
  · show DepthFits ((l.goTo .out).point l.sched.cur) (l.depth l.sched.cur)
    rw [hpoint', hdepth]
    exact Nat.two_pow_pos 32
  · -- the first waiter was popped; it is still in the loop of `sema_down`
    show ∃ t ∈ l.sched.allList, t ∉ (sched.semaphores lockSema).waiters ∧
      InSemaDown (sched.tasks t).resume
    have hnodup := h.queues.waitersNodup lockSema
    rw [hwaiters]
    cases hw : (l.sched.semaphores lockSema).waiters with
    | nil =>
      rw [show (sched.semaphores lockSema).waiters = [] by rw [hwaiters, hw, List.tail_nil]] at hne
      exact absurd rfl hne
    | cons t rest =>
      rw [hw] at hnodup
      obtain ⟨hmem, _, old, hsema⟩ :=
        h.queues.waiters lockSema t (by rw [hw]; exact List.mem_cons_self)
      refine ⟨t, hmem, (List.nodup_cons.mp hnodup).1, ?_⟩
      rw [hresume, hsema]
      exact rfl

/-- The owner moves on inside the lock's code. -/
theorem Held.owner_move (h : Held l owner) (ho : owner = some l.sched.cur)
    (hout : l.point l.sched.cur ≠ .out) (hrun : (l.sched.tasks l.sched.cur).resume = .run)
    (hsched : l'.sched = l.sched) (hplace : ∀ t, t ≠ l.sched.cur → l'.point t = l.point t ∧
      l'.depth t = l.depth t) (hholder : ∀ t, t ≠ l.sched.cur →
      (l'.holder = some t ↔ l.holder = some t)) {p : LockPoint} {d : Nat}
    (hp : l'.point l.sched.cur = p) (hd : l'.depth l.sched.cur = d) (own : Owning p d .run)
    (holds : l'.holder = some l.sched.cur ↔ Holding p d)
    (repeats : l'.holderRepeatNr = repeatNr p d) (depth : DepthFits p d) : Held l' owner := by
  refine h.statement_move (h.not_idle (.inl hout)) hsched hplace hholder
    (by rw [hrun]; exact id) ?_ ?_
    ⟨fun _ => ?_, fun hne => absurd ho hne⟩ ?_
  · rw [hp, hd, hrun]
    exact ⟨fun _ => own, fun _ => ho⟩
  · rw [hp, hd]
    exact holds
  · rw [hp, hd]
    exact repeats
  · rw [hp, hd]
    exact depth

theorem statement_keeps (h : Held l owner) (en : lockEnabled l .statement) :
    ∃ l' owner', l.statement = .ok l' ∧ Held l' owner' := by
  obtain ⟨hrun, hout⟩ := en
  have others (p : LockPoint) (t : Addr) (ht : t ≠ l.sched.cur) : (l.goTo p).point t = l.point t ∧
      (l.goTo p).depth t = l.depth t :=
    ⟨goTo_other p ht, rfl⟩
  have others' (p : LockPoint) (d : Nat) (t : Addr) (ht : t ≠ l.sched.cur) :
      ((l.goTo p).setDepth d).point t = l.point t ∧ ((l.goTo p).setDepth d).depth t = l.depth t :=
    ⟨goTo_other p ht, setDepth_other (l := l.goTo p) d ht⟩
  have own := h.owns l.sched.cur
  have holds := h.holds l.sched.cur
  have depth := h.depth l.sched.cur
  have nr : owner = some l.sched.cur →
      l.holderRepeatNr = repeatNr (l.point l.sched.cur) (l.depth l.sched.cur) := h.repeats _
  unfold LockSched.statement
  rw [hrun] at own
  cases hpoint : l.point l.sched.cur <;> rw [hpoint] at own holds depth nr
  case out => exact absurd hpoint hout
  case down =>
    obtain ⟨sched, owner', hs, held⟩ :=
      h.semaDown (by rw [hpoint]; exact id) (.inl hpoint) l.sched.intr
    refine ⟨{ l.goTo .taking with sched }, owner', ?_, held⟩
    show (do return { l.goTo .taking with sched := ← semaDownLoop l.sched lockSema l.sched.intr }) =
      _
    rw [hs]
    rfl
  case taking =>
    have ho : owner = some l.sched.cur := own.mpr id
    refine ⟨_, owner, rfl, h.owner_move ho hout hrun rfl (others _) (fun t ht => ?_)
      (goTo_self _) depth trivial
      ⟨fun _ => trivial, fun _ => rfl⟩ (nr ho) (show 0 = 0 from rfl)⟩
    -- nobody else is the holder: it would own the lock too
    refine ⟨fun e => absurd (Option.some.inj e).symm ht, fun e => absurd ?_ ht⟩
    exact Option.some.inj ((h.owner_of_holder e).symm.trans ho)
  case taken =>
    have ho : owner = some l.sched.cur := own.mpr trivial
    have hzero : l.holderRepeatNr = 0 := nr ho
    dsimp only
    rw [assertThat_of hzero, ok_bind]
    exact ⟨_, owner, rfl, h.owner_move ho hout hrun rfl (others' _ _)
      (fun _ _ => Iff.rfl) (goTo_self _)
      (setDepth_self (l := l.goTo .out) 1) (show 0 < 1 from Nat.one_pos)
        ⟨fun _ => Nat.one_pos, fun _ => holds.mpr trivial⟩ rfl
      (show 1 < 2 ^ 32 by decide)⟩
  case again =>
    have ho : owner = some l.sched.cur := own.mpr trivial
    obtain ⟨hpos, hlt⟩ := depth
    have hnr : l.holderRepeatNr = l.depth l.sched.cur := nr ho
    have hu : u32 (l.holderRepeatNr + 1) = l.depth l.sched.cur + 1 := by
      rw [hnr]
      exact u32_of_lt hlt
    exact ⟨_, owner, rfl, h.owner_move ho hout hrun rfl (others _) (fun _ _ => Iff.rfl)
      (goTo_self _) rfl trivial
      ⟨fun _ => trivial, fun _ => holds.mpr trivial⟩ hnr ⟨hpos, hu, by rw [hu]; exact hlt⟩⟩
  case more n =>
    have ho : owner = some l.sched.cur := own.mpr trivial
    obtain ⟨hpos, rfl, hlt⟩ := depth
    exact ⟨_, owner, rfl, h.owner_move ho hout hrun rfl (others' _ _)
      (fun _ _ => Iff.rfl) (goTo_self _)
      (setDepth_self (l := l.goTo .out) _) (Nat.succ_pos _)
        ⟨fun _ => Nat.succ_pos _, fun _ => holds.mpr trivial⟩ rfl hlt⟩
  case fewer =>
    have ho : owner = some l.sched.cur := own.mpr trivial
    obtain ⟨hone, hlt⟩ := depth
    have hnr : l.holderRepeatNr = l.depth l.sched.cur := nr ho
    have hu : l.depth l.sched.cur = u32 (l.holderRepeatNr - 1) + 1 := by
      rw [hnr, show ((l.depth l.sched.cur : Int) - 1) =
        ((l.depth l.sched.cur - 1 : Nat) : Int) by omega, u32_of_lt (by omega)]
      omega
    exact ⟨_, owner, rfl, h.owner_move ho hout hrun rfl (others _) (fun _ _ => Iff.rfl)
      (goTo_self _) rfl trivial
      ⟨fun _ => trivial, fun _ => holds.mpr trivial⟩ hnr ⟨hone, hu, hlt⟩⟩
  case less n =>
    have ho : owner = some l.sched.cur := own.mpr trivial
    obtain ⟨hone, hn, hlt⟩ := depth
    have hd : l.depth l.sched.cur - 1 = n := by omega
    exact ⟨_, owner, rfl, h.owner_move ho hout hrun rfl (others' _ _)
      (fun _ _ => Iff.rfl) (goTo_self _)
      ((setDepth_self (l := l.goTo .out) _).trans hd) (show 0 < n by omega)
        ⟨fun _ => (show 0 < n by omega), fun _ => holds.mpr trivial⟩
      rfl (show n < 2 ^ 32 by omega)⟩
  case freeing =>
    have ho : owner = some l.sched.cur := own.mpr trivial
    have hh : l.holder = some l.sched.cur := holds.mpr trivial
    refine ⟨_, owner, rfl, h.owner_move ho hout hrun rfl (others _) (fun t ht => ?_)
      (goTo_self _) depth trivial
      ⟨fun e => (by cases e), False.elim⟩ (nr ho) (show 0 = 0 from rfl)⟩
    exact ⟨fun e => (by cases e), fun e => absurd (Option.some.inj (hh.symm.trans e)).symm ht⟩
  case freed =>
    have ho : owner = some l.sched.cur := own.mpr trivial
    exact ⟨_, owner, rfl, h.owner_move ho hout hrun rfl (others _) (fun _ _ => Iff.rfl)
      (goTo_self _) depth trivial holds rfl
      (show 0 = 0 from rfl)⟩
  case up =>
    obtain ⟨sched, hs, held⟩ := h.semaUp hpoint hrun
    refine ⟨{ l.goTo .out with sched }, none, ?_, held⟩
    rw [hs]
    rfl

/-! ## The steps beside it -/

/-- The semaphores stay; the current task goes on outside the loop of `sema_down`, and the others
where they would have. -/
structure Beside (s s' : Sched) : Prop where
  semaphores : s'.semaphores = s.semaphores
  self : ¬ InSemaDown (s'.tasks s.cur).resume
  others : ∀ t, t ≠ s.cur → (s'.tasks t).resume = (s.tasks t).resume

theorem Leaves.beside {r : Resume} (h : Leaves s s.cur r s') (hr : ¬ InSemaDown r) : Beside s s' :=
  ⟨h.semaphores, by rw [h.self]; exact hr, h.others⟩

theorem SameResumes.beside (h : SameResumes s s') (hr : ¬ InSemaDown (s.tasks s.cur).resume) :
    Beside s s' :=
  ⟨h.semaphores, by rw [h.resume]; exact hr, fun t _ => h.resume t⟩

theorem owning_congr {p : LockPoint} {d : Nat} {r r' : Resume} (h : InSemaDown r ↔ InSemaDown r') :
    Owning p d r ↔ Owning p d r' := by
  cases p <;> first | exact not_congr h | exact Iff.rfl

/-- The scheduler goes its way, and nobody moves in the lock's code. -/
theorem Held.beside (h : Held l owner) {sched : Sched} (queues : Queues sched)
    (tree : SameTree l.sched sched) (beside : Beside l.sched sched)
    (hcur : ¬ InSemaDown (l.sched.tasks l.sched.cur).resume) : Held { l with sched } owner := by
  have same (t : Addr) : InSemaDown (sched.tasks t).resume ↔
      InSemaDown (l.sched.tasks t).resume := by
    by_cases e : t = l.sched.cur
    · rw [e]
      exact iff_of_false beside.self hcur
    · rw [beside.others t e]
  refine ⟨queues, ?_, fun t => ?_, h.holds, h.repeats, h.free, fun t ht => ?_, h.depth, ?_,
    fun hnone hne => ?_⟩
  · rw [show sched.semaphores = l.sched.semaphores from beside.semaphores]
    exact h.value
  · exact (h.owns t).trans (owning_congr (same t).symm)
  · exact h.waits t ((same t).mp ht)
  · show l.point sched.idleThread = .out ∧ l.depth sched.idleThread = 0
    rw [tree.idleThread]
    exact h.idle
  · rw [beside.semaphores] at hne
    obtain ⟨t, hmem, hnot, hsema⟩ := h.pending hnone hne
    refine ⟨t, ?_, ?_, (same t).mpr hsema⟩
    · show t ∈ sched.allList
      rw [tree.allList]
      exact hmem
    · show t ∉ (sched.semaphores lockSema).waiters
      rw [beside.semaphores]
      exact hnot

/-- A step of the scheduler that keeps the queues and has no part in the lock. -/
theorem Held.keeps (h : Held l owner) {r : Except Fault Sched} (keeps : Keeps l.sched r)
    (beside : SyncPasses (Beside l.sched) r)
    (hcur : ¬ InSemaDown (l.sched.tasks l.sched.cur).resume) :
    Ensures (· ∉ syncAsserts) (fun sched => Held { l with sched } owner) r := by
  cases r with
  | error e => exact beside
  | ok sched => exact h.beside keeps.1 keeps.2 beside hcur

/-- What a step of the scheduler that answers nothing makes of the lock. -/
theorem sched_step {r : Except Fault Sched}
    (h : Ensures (· ∉ syncAsserts) (fun sched => Held { l with sched } owner) r) :
    Ensures (· ∉ syncAsserts) (fun p => ∃ owner', Held p.1 owner')
      (do let (sched, _) ← (do return (← r, Out.none)); return ({ l with sched }, ())) := by
  cases r with
  | error e => exact h
  | ok sched => exact ⟨owner, h⟩

theorem goOn_keeps (h : Held l owner) (hres : LockResume (l.sched.tasks l.sched.cur).resume) :
    Ensures (· ∉ syncAsserts) (fun p => ∃ owner', Held { l with sched := p.1 } owner')
      (goOn l.sched) := by
  have runs (intr : Bool) (hnot : ¬ InSemaDown (l.sched.tasks l.sched.cur).resume) :
      Held { l with sched := { l.sched with intr }.setTask l.sched.cur ({ · with resume := .run }) }
        owner := by
    obtain ⟨hq, htree⟩ := keeps_run h.queues intr
    refine h.beside hq htree (Leaves.beside (r := .run) (leaves_setTask rfl rfl rfl) id) hnot
  unfold goOn
  cases hr : (l.sched.tasks l.sched.cur).resume <;> rw [hr] at hres
  case run => exact ⟨owner, h⟩
  case fresh => exact ⟨owner, runs true (by rw [hr]; exact id)⟩
  case ret old => exact ⟨owner, runs old (by rw [hr]; exact id)⟩
  case ioqWait w => exact ⟨owner, runs false (by rw [hr]; exact id)⟩
  case semaDown k old =>
    obtain rfl : k = lockSema := hres
    have hpoint : l.point l.sched.cur = .taking := h.waits _ (by rw [hr]; exact rfl)
    have hnot : ¬ Owning (l.point l.sched.cur) (l.depth l.sched.cur)
        (l.sched.tasks l.sched.cur).resume := by
      rw [hpoint, hr]
      exact fun e => e rfl
    obtain ⟨sched, owner', hs, held⟩ := h.semaDown hnot (.inr hpoint) old
    dsimp only
    rw [hs]
    -- the thread was at `taking` already
    have hgo : l.goTo .taking = l := by
      unfold LockSched.goTo
      rw [← hpoint, Function.update_eq_self]
    rw [hgo] at held
    exact ⟨owner', held⟩
  case wait => exact hres.elim
  case exited => exact hres.elim
  case «over» => exact hres.elim

/-- ONE STEP. The invariant is kept, and no assertion of `sync.c` fails. -/
theorem lockStep_keeps (h : Held l owner) {e : LockEvent} (en : lockEnabled l e)
    (hd : Shallow l e) :
    Ensures (· ∉ syncAsserts) (fun p => ∃ owner', Held p.1 owner') (lockStep l e) := by
  unfold lockStep
  cases e with
  | lockAcquire => exact ⟨owner, lockAcquire_keeps h en hd⟩
  | lockRelease =>
    obtain ⟨l', hl', held⟩ := lockRelease_keeps h en
    dsimp only
    rw [hl']
    exact ⟨owner, held⟩
  | statement =>
    obtain ⟨l', owner', hl', held⟩ := statement_keeps h en
    dsimp only
    rw [hl']
    exact ⟨owner', held⟩
  | sched e =>
    obtain ⟨en, hbeside⟩ := en
    unfold step
    cases e with
    | goOn =>
      refine Ensures.bind (goOn_keeps h hbeside) ?_
      rintro ⟨sched, out⟩ held
      exact held
    | tick =>
      have hnot : ¬ InSemaDown (l.sched.tasks l.sched.cur).resume := by rw [en.1]; exact id
      refine sched_step (h.keeps (intrTimerHandler_keeps h.queues) ?_ hnot)
      refine (intrTimerHandler_leaves _).mono ?_
      rintro s' (left | left)
      · exact left.beside hnot
      · exact left.beside id
    | yield =>
      refine sched_step (h.keeps (threadYield_keeps h.queues en.2) ?_ (by rw [en.1]; exact id))
      exact (threadYield_leaves _).mono fun _ left => left.beside id
    | ioqWait w =>
      refine sched_step (h.keeps (ioqWait_keeps h.queues en.2.2 w) ?_ (by rw [en.1]; exact id))
      exact (ioqWait_leaves _ w).mono fun _ left => left.beside id
    | wakeup w =>
      have hnot : ¬ InSemaDown (l.sched.tasks l.sched.cur).resume := by rw [en.1]; exact id
      refine sched_step (h.keeps (wakeup_keeps h.queues w) ?_ hnot)
      exact (wakeup_same _ w).mono fun _ same => same.beside hnot
    | idleBlock =>
      refine sched_step (h.keeps (idleBlock_keeps h.queues) ?_ (by rw [en.1]; exact id))
      exact (threadBlock_leaves _ _ _).mono fun _ left => left.beside id
    | intrEnable =>
      have hnot : ¬ InSemaDown (l.sched.tasks l.sched.cur).resume := by rw [en.1]; exact id
      exact ⟨owner, h.beside (h.queues.setIntr true) (.of_tasks rfl rfl rfl rfl rfl rfl)
        ⟨rfl, hnot, fun _ _ => rfl⟩ hnot⟩
    | intrDisable =>
      have hnot : ¬ InSemaDown (l.sched.tasks l.sched.cur).resume := by rw [en.1]; exact id
      exact ⟨owner, h.beside (h.queues.setIntr false) (.of_tasks rfl rfl rfl rfl rfl rfl)
        ⟨rfl, hnot, fun _ _ => rfl⟩ hnot⟩
    | semaDown k => exact hbeside.elim
    | semaUp k => exact hbeside.elim
    | sysWait => exact hbeside.elim
    | sysExit status => exact hbeside.elim
    | sysFork t => exact hbeside.elim
    | sysExecv path => exact hbeside.elim
    | threadStart t name prio => exact hbeside.elim
    | mainExit => exact hbeside.elim

end SeekingOs.Thread
