import SeekingOs.Device.IoQueue
import SeekingOs.Thread.LockExclusion

/-!
# What holds in the I/O queue

Each task's place in `ioq_getchar` or `ioq_putchar`, its place in the lock's code, its depth in the
lock and its continuation fit together (`Fits`), and a task inside that is not asleep is the one
that runs, with interrupts off. A task in `ioq_wait` has the lock, so at most one task is there;
that is why neither waiter variable is ever taken twice.

What the ring holds is what was stored and not yet returned.
-/

namespace SeekingOs.Device

open Lib Thread

variable {s s' : Sched} {l l' : LockSched} {q q' : Ioqueue} {t : Addr} {w : Nat}

/-! ## What the scheduler leaves alone -/

/-- The assertions of `ioq_wait` and `wakeup`. -/
def ioqAsserts : List Fault :=
  [.assert "ioq_wait" "*waiter == NULL && waiter != NULL", .assert "wakeup" "*waiter != NULL"]

/-- None of these fails, and an answer has `Q`. -/
abbrev IoqPasses {α : Type} (Q : α → Prop) (r : Except Fault α) : Prop :=
  Ensures (· ∉ ioqAsserts) Q r

/-- The waiter variables stay. -/
abbrev SameWaiters (s : Sched) (r : Except Fault Sched) : Prop :=
  IoqPasses (fun s' => s'.waiter = s.waiter) r

theorem ioqPasses_assertThat {cond : Prop} [Decidable cond] {func condition : String}
    (other : Fault.assert func condition ∉ ioqAsserts) :
    IoqPasses (fun _ => True) (assertThat false cond func condition) :=
  ensures_assertThat (fun _ => other) fun _ => trivial

theorem threadUnblock_frame (s : Sched) (t : Addr) :
    IoqPasses (fun s' => s'.waiter = s.waiter ∧ s'.cur = s.cur ∧ s'.intr = s.intr)
      (threadUnblock s t) := by
  unfold threadUnblock
  apply Ensures.bind (ioqPasses_assertThat (by simp [ioqAsserts]))
  intro _ _
  split
  · apply Ensures.bind (ioqPasses_assertThat (by simp [ioqAsserts]))
    intro _ _
    exact ⟨rfl, rfl, rfl⟩
  · exact ⟨rfl, rfl, rfl⟩

theorem scheduleRequeue_waiters (s : Sched) : SameWaiters s (scheduleRequeue s) := by
  unfold scheduleRequeue
  split
  · apply Ensures.bind (ioqPasses_assertThat (by simp [ioqAsserts]))
    intro _ _
    exact rfl
  · exact rfl

theorem scheduleNext_waiters (s : Sched) : SameWaiters s (scheduleNext s) := by
  have next (s₁ : Sched) (same : s₁.waiter = s.waiter) : SameWaiters s (runNext s₁) := by
    apply Ensures.bind (ioqPasses_assertThat (by simp [ioqAsserts]))
    intro _ _
    split
    · simp [ioqAsserts]
    · exact same
  rw [scheduleNext_eq]
  split
  · apply Ensures.bind (threadUnblock_frame s s.idleThread)
    intro s₁ same
    exact next s₁ same.1
  · exact next s rfl

theorem schedule_waiters (s : Sched) : SameWaiters s (schedule s) := by
  apply Ensures.bind (scheduleRequeue_waiters s)
  intro s₁ same
  exact (scheduleNext_waiters s₁).mono fun _ h => h.trans same

theorem threadBlock_waiters (s : Sched) (statu : TaskStatus) (r : Resume) :
    SameWaiters s (threadBlock s statu r) := by
  unfold threadBlock
  apply Ensures.bind (ioqPasses_assertThat (by simp [ioqAsserts]))
  intro _ _
  exact schedule_waiters _

theorem threadYield_waiters (s : Sched) : SameWaiters s (threadYield s) := by
  unfold threadYield
  apply Ensures.bind (ioqPasses_assertThat (by simp [ioqAsserts]))
  intro _ _
  exact schedule_waiters _

theorem intrTimerHandler_waiters (s : Sched) : SameWaiters s (intrTimerHandler s) := by
  unfold intrTimerHandler
  dsimp only
  split
  · exact schedule_waiters _
  · exact rfl

/-- `sema_down` leaves the variables, and a task that does not block has its interrupt status back.
-/
theorem semaDownLoop_frame (s : Sched) (k : Nat) (old : Bool) :
    IoqPasses (fun s' => s'.waiter = s.waiter ∧
      ((s.semaphores k).value = 0 ∨ s'.cur = s.cur ∧ s'.intr = old))
      (semaDownLoop s k old) := by
  unfold semaDownLoop
  split
  next h =>
    apply Ensures.bind (ioqPasses_assertThat (by simp [ioqAsserts]))
    intro _ _
    exact (threadBlock_waiters _ _ _).mono fun _ same => ⟨same, .inl h⟩
  next h =>
    apply Ensures.bind (ioqPasses_assertThat (by simp [ioqAsserts]))
    intro _ _
    exact ⟨rfl, .inr ⟨rfl, rfl⟩⟩

theorem semaUp_frame (s : Sched) (k : Nat) :
    IoqPasses (fun s' => s'.waiter = s.waiter ∧ s'.cur = s.cur ∧ s'.intr = s.intr)
      (semaUp s k) := by
  have pop : IoqPasses (fun s' => s'.waiter = s.waiter ∧ s'.cur = s.cur ∧ s'.intr = s.intr)
      (semaPop s k) := by
    unfold semaPop
    split
    · exact ⟨rfl, rfl, rfl⟩
    · exact threadUnblock_frame _ _
  unfold semaUp
  apply Ensures.bind (ioqPasses_assertThat (by simp [ioqAsserts]))
  intro _ _
  apply Ensures.bind pop
  intro s₁ same
  apply Ensures.bind (ioqPasses_assertThat (by simp [ioqAsserts]))
  intro _ _
  exact same

/-- `wakeup` of a variable that is taken empties it. -/
theorem wakeup_frame (some : (s.waiter w).isSome) :
    IoqPasses (fun s' => s'.waiter = Function.update s.waiter w none ∧ s'.cur = s.cur ∧
      s'.intr = s.intr) (wakeup s w) := by
  unfold wakeup
  split
  next none =>
    rw [none] at some
    cases some
  next =>
    apply Ensures.bind (threadUnblock_frame s _)
    intro s₁ same
    refine ⟨?_, same.2⟩
    show Function.update s₁.waiter w none = _
    rw [same.1]

/-- `ioq_wait` on a variable that is free takes it. -/
theorem ioqWait_frame (free : s.waiter w = none) :
    IoqPasses (fun s' => s'.waiter = Function.update s.waiter w (some s.cur)) (ioqWait s w) := by
  unfold ioqWait
  rw [assertThat_of free, ok_bind]
  exact threadBlock_waiters _ _ _

/-! ## How the current task moves in the lock's code -/

/-- The current task of `l` is at `p` now, `d` deep, and goes on with `r`. The waiter variables are
`W` now. -/
structure Moves (l : LockSched) (p : LockPoint) (d : Nat) (r : Resume) (W : Nat → Option Addr)
    (l' : LockSched) : Prop where
  point : l'.point = Function.update l.point l.sched.cur p
  depth : l'.depth = Function.update l.depth l.sched.cur d
  resume : (l'.sched.tasks l.sched.cur).resume = r
  others : ∀ t ≠ l.sched.cur, (l'.sched.tasks t).resume = (l.sched.tasks t).resume
  idle : l'.sched.idleThread = l.sched.idleThread
  waiter : l'.sched.waiter = W
  /-- A task that is not switched out has interrupts off. -/
  runs : r = .run → l'.sched.cur = l.sched.cur ∧ l'.sched.intr = false

/-- A step that the scheduler does not notice. -/
theorem Moves.quiet {p : LockPoint} {d : Nat} {r : Resume} (hsched : l'.sched = l.sched)
    (point : l'.point = Function.update l.point l.sched.cur p)
    (depth : l'.depth = Function.update l.depth l.sched.cur d)
    (hr : (l.sched.tasks l.sched.cur).resume = r) (off : l.sched.intr = false) :
    Moves l p d r l.sched.waiter l' where
  point := point
  depth := depth
  resume := by rw [hsched, hr]
  others t _ := by rw [hsched]
  idle := by rw [hsched]
  waiter := by rw [hsched]
  runs _ := by rw [hsched]; exact ⟨rfl, off⟩

theorem stays {α : Type} {f : Addr → α} {a : α} (h : f t = a) : f = Function.update f t a := by
  rw [← h, Function.update_eq_self]

/-- THE TWO WAYS OF `sema_down`, from its beginning or from the top of its loop. -/
theorem semaDown_moves {owner : Option Addr} (h : Held l owner)
    (hpoint : l.point l.sched.cur = .down ∨ l.point l.sched.cur = .taking)
    (hd : l.depth l.sched.cur = 0) {sched : Sched}
    (hs : semaDownLoop l.sched lockSema false = .ok sched) :
    Moves l .taking 0 .run l.sched.waiter { l.goTo .taking with sched } ∨
      Moves l .taking 0 (.semaDown lockSema false) l.sched.waiter
        { l.goTo .taking with sched } := by
  have hidle : l.sched.cur ≠ l.sched.idleThread :=
    h.not_idle (.inl (by rcases hpoint with e | e <;> rw [e] <;> exact nofun))
  have hvalue : (l.sched.semaphores lockSema).value ≤ 1 := by
    rw [h.value]
    split <;> omega
  obtain ⟨sched', hs', _, tree, others, _, way⟩ := h.queues.semaDownLoop hidle lockSema false hvalue
  obtain rfl : sched = sched' := Except.ok.inj (hs.symm.trans hs')
  have frame := (semaDownLoop_frame _ _ false).of_ok hs
  rcases way with ⟨_, _, resume⟩ | ⟨one, _, resume⟩
  · exact .inr ⟨rfl, stays hd, resume, others, tree.idleThread, frame.1, fun e => by cases e⟩
  · have runs := frame.2.resolve_left (by rw [one]; exact Nat.one_ne_zero)
    exact .inl ⟨rfl, stays hd, resume, others, tree.idleThread, frame.1, fun _ => runs⟩

/-- `lock_acquire` by a task that does not hold the lock. -/
theorem lockAcquire_moves {owner : Option Addr} (h : Held l owner)
    (hpoint : l.point l.sched.cur = .out) (hd : l.depth l.sched.cur = 0)
    (hrun : (l.sched.tasks l.sched.cur).resume = .run) (off : l.sched.intr = false) :
    Moves l .down 0 .run l.sched.waiter l.lockAcquire := by
  have notHolder : l.holder ≠ some l.sched.cur := by
    intro e
    have holding := (h.holds _).mp e
    rw [hpoint, hd] at holding
    exact Nat.lt_irrefl 0 holding
  unfold LockSched.lockAcquire
  rw [if_pos notHolder]
  exact .quiet rfl rfl (stays hd) hrun off

/-- The outermost `lock_release`. -/
theorem lockRelease_moves {owner : Option Addr} (h : Held l owner) (hd : l.depth l.sched.cur = 1)
    (hrun : (l.sched.tasks l.sched.cur).resume = .run) (off : l.sched.intr = false)
    (hl : l.lockRelease = .ok l') : Moves l .freeing 0 .run l.sched.waiter l' := by
  have nested := h.nested (t := l.sched.cur) (by rw [hd]; exact Nat.one_pos)
  have nr : l.holderRepeatNr = 1 := nested.2.trans hd
  unfold LockSched.lockRelease at hl
  obtain ⟨_, _, hl⟩ := bind_eq_ok.mp hl
  rw [if_neg (by rw [nr]; decide)] at hl
  obtain ⟨_, _, hl⟩ := bind_eq_ok.mp hl
  cases hl
  exact .quiet rfl rfl rfl hrun off

/-- The statements between `sema_down` and the end of `lock_acquire`. -/
theorem taking_moves (hpoint : l.point l.sched.cur = .taking) (hd : l.depth l.sched.cur = 0)
    (hrun : (l.sched.tasks l.sched.cur).resume = .run) (off : l.sched.intr = false)
    (hl : l.statement = .ok l') : Moves l .taken 0 .run l.sched.waiter l' := by
  unfold LockSched.statement at hl
  rw [hpoint] at hl
  cases hl
  exact .quiet rfl rfl (stays hd) hrun off

theorem taken_moves (hpoint : l.point l.sched.cur = .taken)
    (hrun : (l.sched.tasks l.sched.cur).resume = .run) (off : l.sched.intr = false)
    (hl : l.statement = .ok l') : Moves l .out 1 .run l.sched.waiter l' := by
  unfold LockSched.statement at hl
  rw [hpoint] at hl
  obtain ⟨_, _, hl⟩ := bind_eq_ok.mp hl
  cases hl
  exact .quiet rfl rfl rfl hrun off

/-- The statements of the outermost `lock_release`. -/
theorem freeing_moves (hpoint : l.point l.sched.cur = .freeing) (hd : l.depth l.sched.cur = 0)
    (hrun : (l.sched.tasks l.sched.cur).resume = .run) (off : l.sched.intr = false)
    (hl : l.statement = .ok l') : Moves l .freed 0 .run l.sched.waiter l' := by
  unfold LockSched.statement at hl
  rw [hpoint] at hl
  cases hl
  exact .quiet rfl rfl (stays hd) hrun off

theorem freed_moves (hpoint : l.point l.sched.cur = .freed) (hd : l.depth l.sched.cur = 0)
    (hrun : (l.sched.tasks l.sched.cur).resume = .run) (off : l.sched.intr = false)
    (hl : l.statement = .ok l') : Moves l .up 0 .run l.sched.waiter l' := by
  unfold LockSched.statement at hl
  rw [hpoint] at hl
  cases hl
  exact .quiet rfl rfl (stays hd) hrun off

theorem up_moves {owner : Option Addr} (h : Held l owner) (hpoint : l.point l.sched.cur = .up)
    (hd : l.depth l.sched.cur = 0) (hrun : (l.sched.tasks l.sched.cur).resume = .run)
    (off : l.sched.intr = false) (hl : l.statement = .ok l') :
    Moves l .out 0 .run l.sched.waiter l' := by
  have ho : owner = some l.sched.cur := h.owner_of (by rw [hpoint]; trivial)
  have hzero : (l.sched.semaphores lockSema).value = 0 := by
    rw [h.value, if_neg (by rw [ho]; exact nofun)]
  obtain ⟨sched, hs, _, tree, _, resume, _, _⟩ := h.queues.semaUp lockSema hzero
  have frame := (semaUp_frame _ _).of_ok hs
  unfold LockSched.statement at hl
  rw [hpoint] at hl
  dsimp only at hl
  rw [hs] at hl
  cases hl
  exact ⟨rfl, stays hd, (resume _).trans hrun, fun t _ => resume t, tree.idleThread, frame.1,
    fun _ => ⟨frame.2.1, frame.2.2.trans off⟩⟩

/-! ## Where everybody is -/

/-- A task's place in the queue's code fits its place in the lock's code, its depth in the lock and
its continuation. -/
inductive Fits : IoqPlace → LockPoint → Nat → Resume → Prop
  | out {r : Resume} (notDown : ¬ InSemaDown r)
      (notWaiting : ∀ c : IoqCall, r ≠ .ioqWait c.waiter) : Fits .out .out 0 r
  | down (c : IoqCall) : Fits (.locking c) .down 0 .run
  | asking (c : IoqCall) : Fits (.locking c) .taking 0 (.semaDown lockSema false)
  | taking (c : IoqCall) : Fits (.locking c) .taking 0 .run
  | taken (c : IoqCall) : Fits (.locking c) .taken 0 .run
  | locked (c : IoqCall) : Fits (.locking c) .out 1 .run
  | asleep (c : IoqCall) : Fits (.waiting c) .out 1 (.ioqWait c.waiter)
  | awake (c : IoqCall) : Fits (.waiting c) .out 1 .run
  | freeing (c : IoqCall) : Fits (.unlocking c) .freeing 0 .run
  | freed (c : IoqCall) : Fits (.unlocking c) .freed 0 .run
  | up (c : IoqCall) : Fits (.unlocking c) .up 0 .run
  | unlocked (c : IoqCall) : Fits (.unlocking c) .out 0 .run

/-- What is in the ring, from `tail` to `head`. -/
def Ioqueue.contents (q : Ioqueue) : List UInt8 := ringItems bufsize q.buf q.tail q.ioqLenth

/-- What was stored and not yet returned is in the ring, in order. -/
structure Fifo (q : Ioqueue) : Prop where
  head : q.head < bufsize
  tail : q.tail < bufsize
  fifo : q.stored = q.returned ++ q.contents

/-- THE INVARIANT. -/
structure IoqInv (q : Ioqueue) : Prop where
  held : ∃ owner, Held q.lock owner
  fits : ∀ t, Fits (q.place t) (q.lock.point t) (q.lock.depth t) (q.lock.sched.tasks t).resume
  inside : ∀ t, q.place t ≠ .out → (q.lock.sched.tasks t).resume = .run →
    t = q.cur ∧ q.lock.sched.intr = false
  idle : q.place q.lock.sched.idleThread = .out
  ring : Fifo q

/-- The ring and what went through it stay. -/
structure SameRing (q q' : Ioqueue) : Prop where
  buf : q'.buf = q.buf
  head : q'.head = q.head
  tail : q'.tail = q.tail
  stored : q'.stored = q.stored
  returned : q'.returned = q.returned

theorem SameRing.fifo (same : SameRing q q') (h : Fifo q) : Fifo q' := by
  have contents : q'.contents = q.contents := by
    unfold Ioqueue.contents Ioqueue.ioqLenth
    rw [same.buf, same.head, same.tail]
  refine ⟨?_, ?_, ?_⟩
  · rw [same.head]
    exact h.head
  · rw [same.tail]
    exact h.tail
  · rw [same.stored, same.returned, contents]
    exact h.fifo

/-- THE MOVE. The current task goes to another place, and everything about itself fits there. -/
theorem IoqInv.move (inv : IoqInv q) {p : LockPoint} {d : Nat} {r : Resume} {W : Nat → Option Addr}
    {place : IoqPlace} (held : ∃ owner, Held q'.lock owner) (moves : Moves q.lock p d r W q'.lock)
    (fits : Fits place p d r) (hplace : q'.place = Function.update q.place q.cur place)
    (hidle : place = .out ∨ q.cur ≠ q.lock.sched.idleThread) (ring : Fifo q') : IoqInv q' where
  held := held
  fits t := by
    rw [hplace, moves.point, moves.depth]
    by_cases e : t = q.cur
    · subst e
      rw [Function.update_self, Function.update_self, Function.update_self, moves.resume]
      exact fits
    · rw [Function.update_of_ne e, Function.update_of_ne e, Function.update_of_ne e,
        moves.others t e]
      exact inv.fits t
  inside t ht hrun := by
    by_cases e : t = q.cur
    · subst e
      obtain ⟨cur, off⟩ := moves.runs (moves.resume.symm.trans hrun)
      exact ⟨cur.symm, off⟩
    · rw [hplace, Function.update_of_ne e] at ht
      rw [moves.others t e] at hrun
      exact absurd (inv.inside t ht hrun).1 e
  idle := by
    rw [hplace, moves.idle]
    by_cases e : q.lock.sched.idleThread = q.cur
    · rw [e, Function.update_self]
      exact hidle.resolve_right fun ne => ne e.symm
    · rw [Function.update_of_ne e]
      exact inv.idle
  ring := ring

/-! ## The ring -/

theorem nextPos_lt (pos : Nat) : nextPos pos < bufsize := Nat.mod_lt _ (by decide)

/-- The first byte of the ring is taken out. -/
theorem contents_get (hhead : q.head < bufsize) (htail : q.tail < bufsize) (some : ¬ q.ioqEmpty)
    (hbuf : q'.buf = q.buf) (hhead' : q'.head = q.head) (htail' : q'.tail = nextPos q.tail) :
    q.contents = q.buf q.tail :: q'.contents := by
  have shorter : q.ioqLenth = q'.ioqLenth + 1 := by
    have shorter := ringLength_pop hhead htail some
    unfold Ioqueue.ioqLenth
    rw [hhead', htail']
    exact shorter
  unfold Ioqueue.contents
  rw [shorter, ringItems_pop htail, hbuf, htail']
  rfl

/-- A byte comes in behind the others. -/
theorem contents_put (hhead : q.head < bufsize) (htail : q.tail < bufsize) (room : ¬ q.ioqFull)
    {byte : UInt8} (hbuf : q'.buf = Function.update q.buf q.head byte)
    (hhead' : q'.head = nextPos q.head) (htail' : q'.tail = q.tail) :
    q'.contents = q.contents ++ [byte] := by
  have longer : q'.ioqLenth = q.ioqLenth + 1 := by
    have longer := ringLength_push hhead htail room
    unfold Ioqueue.ioqLenth
    rw [hhead', htail']
    exact longer
  have hlt : q.ioqLenth < bufsize := ringLength_lt hhead
  have hpos : (q.tail + q.ioqLenth) % bufsize = q.head := ring_head hhead htail
  unfold Ioqueue.contents
  rw [longer, hbuf, htail', ← ringItems_push hlt byte, hpos]

/-- A byte is taken from the ring. -/
theorem Fifo.get (h : Fifo q) (some : ¬ q.ioqEmpty) (hbuf : q'.buf = q.buf)
    (hhead : q'.head = q.head) (htail : q'.tail = nextPos q.tail) (hstored : q'.stored = q.stored)
    (hreturned : q'.returned = q.returned ++ [q.buf q.tail]) : Fifo q' := by
  have first := contents_get h.head h.tail some hbuf hhead htail
  refine ⟨?_, ?_, ?_⟩
  · rw [hhead]
    exact h.head
  · rw [htail]
    exact nextPos_lt _
  · rw [hstored, hreturned, h.fifo, first, List.append_assoc]
    rfl

/-- A byte is stored in the ring. -/
theorem Fifo.put (h : Fifo q) (room : ¬ q.ioqFull) {byte : UInt8}
    (hbuf : q'.buf = Function.update q.buf q.head byte) (hhead : q'.head = nextPos q.head)
    (htail : q'.tail = q.tail) (hstored : q'.stored = q.stored ++ [byte])
    (hreturned : q'.returned = q.returned) : Fifo q' := by
  have last := contents_put h.head h.tail room hbuf hhead htail
  refine ⟨?_, ?_, ?_⟩
  · rw [hhead]
    exact nextPos_lt _
  · rw [htail]
    exact h.tail
  · rw [hstored, hreturned, h.fifo, last, List.append_assoc]

end SeekingOs.Device
