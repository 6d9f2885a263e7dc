import SeekingOs.Lib.Ring
import SeekingOs.Thread.Lock

/-!
# `device/ioqueue.c`, under the scheduler

Producers and consumers call `ioq_putchar` and `ioq_getchar` with interrupts off, and a call gives
the processor away in two places: in `sema_down`, when another task has the queue's lock, and in
`ioq_wait`. So a step is a stretch of the two functions between such places, or a statement of the
lock's code (`Thread.Lock`), and in between come the other tasks and the timer.

The variables `producer` and `consumer` are waiter variables of the scheduler's state.
-/

namespace SeekingOs.Device

open Lib Thread

/-- `bufsize` -/
def bufsize : Nat := 2048

/-- `&ioq->producer` -/
def producer : Nat := 0

/-- `&ioq->consumer` -/
def consumer : Nat := 1

/-- A call on the queue. -/
inductive IoqCall where
  | getchar
  | putchar (byte : UInt8)
  deriving DecidableEq, Repr

/-- The variable the call waits in. -/
def IoqCall.waiter : IoqCall → Nat
  | .getchar => consumer
  | .putchar _ => producer

/-- Where a task is in `ioq_getchar` or `ioq_putchar`. -/
inductive IoqPlace where
  /-- In neither. -/
  | out
  /-- In `lock_acquire`, or behind it: `ioq_wait` comes next. -/
  | locking (c : IoqCall)
  /-- In `ioq_wait`, or behind it: `lock_release` comes next. -/
  | waiting (c : IoqCall)
  /-- In `lock_release`, or behind it: the condition of the loop comes next. -/
  | unlocking (c : IoqCall)
  deriving DecidableEq, Repr

/-- The scheduler's state with a `struct ioqueue`. -/
structure Ioqueue where
  lock : LockSched
  buf : Nat → UInt8
  head : Nat
  tail : Nat
  /-- What the kernel stack of each task says. -/
  place : Addr → IoqPlace
  /-- Ghost: what the completed `ioq_putchar` calls stored. -/
  stored : List UInt8
  /-- Ghost: what the `ioq_getchar` calls returned. -/
  returned : List UInt8

/-- `next_pos` -/
def nextPos (pos : Nat) : Nat := (pos + 1) % bufsize

namespace Ioqueue

variable (q : Ioqueue)

/-- The task that runs. -/
abbrev cur : Addr := q.lock.sched.cur

/-- `ioq_full`, whose assertion is made in `loop`. -/
def ioqFull : Prop := nextPos q.head = q.tail

/-- `ioq_empty`, likewise. -/
def ioqEmpty : Prop := q.head = q.tail

instance : Decidable q.ioqFull := inferInstanceAs (Decidable (_ = _))
instance : Decidable q.ioqEmpty := inferInstanceAs (Decidable (_ = _))

/-- The condition of the call's loop. -/
def MustWait : IoqCall → Prop
  | .getchar => q.ioqEmpty
  | .putchar _ => q.ioqFull

instance (c : IoqCall) : Decidable (q.MustWait c) := by
  cases c <;> unfold MustWait <;> exact inferInstance

/-- `ioq_lenth` -/
def ioqLenth : Nat := if q.head ≥ q.tail then q.head - q.tail else bufsize - (q.tail - q.head)

/-- The current task goes on at `place`. -/
def goTo (place : IoqPlace) : Ioqueue := { q with place := Function.update q.place q.cur place }

/-- `if (*waiter) wakeup(waiter)` -/
def wakeupIf (w : Nat) : Except Fault Ioqueue :=
  if (q.lock.sched.waiter w).isSome then do return { q with lock.sched := ← wakeup q.lock.sched w }
  else return q

/-- `ioq_getchar` behind its loop -/
def getcharEnd : Except Fault Ioqueue :=
  let byte := q.buf q.tail
  { q.goTo .out with tail := nextPos q.tail, returned := q.returned ++ [byte] }.wakeupIf producer

/-- `ioq_putchar` behind its loop -/
def putcharEnd (byte : UInt8) : Except Fault Ioqueue :=
  { q.goTo .out with
    buf := Function.update q.buf q.head byte, head := nextPos q.head, stored :=
      q.stored ++ [byte] }.wakeupIf consumer

/-- The loop of the call from its condition on. -/
def loop (c : IoqCall) : Except Fault Ioqueue := do
  let func := match c with | .getchar => "ioq_empty" | .putchar _ => "ioq_full"
  assertThat false (q.lock.sched.intr = false) func "intr_get_status() == INTR_OFF"
  if q.MustWait c then return { q.goTo (.locking c) with lock := q.lock.lockAcquire }
  else match c with
    | .getchar => q.getcharEnd
    | .putchar byte => q.putcharEnd byte

/-- `ioq_getchar` and `ioq_putchar` from their first statement on -/
def call (c : IoqCall) : Except Fault Ioqueue := do
  let func := match c with | .getchar => "ioq_getchar" | .putchar _ => "ioq_putchar"
  assertThat false (q.lock.sched.intr = false) func "intr_get_status() == INTR_OFF"
  q.loop c

/-- The next stretch of the current task's call. -/
def statement : Except Fault Ioqueue :=
  let inLock : Except Fault Ioqueue := do return { q with lock := ← q.lock.statement }
  match q.place q.cur with
  | .out => .ok q
  | .locking c =>
    if q.lock.point q.cur = .out then do
      return { q.goTo (.waiting c) with lock.sched := ← ioqWait q.lock.sched c.waiter }
    else inLock
  | .waiting c => do return { q.goTo (.unlocking c) with lock := ← q.lock.lockRelease }
  | .unlocking c => if q.lock.point q.cur = .out then q.loop c else inLock

end Ioqueue

/-- What can happen next. -/
inductive IoqEvent where
  /-- The current task, or an interrupt handler in its context, calls `ioq_getchar` or
  `ioq_putchar`. -/
  | call (c : IoqCall)
  /-- The current task goes on in its call. -/
  | statement
  /-- A step of the scheduler. -/
  | sched (e : Event)
  deriving DecidableEq, Repr

/-- The steps of the scheduler beside the queue. -/
def besideIoq (q : Ioqueue) : Event → Prop
  | .tick => True
  | .idleBlock | .yield | .intrEnable | .intrDisable => q.place q.cur = .out
  | .goOn => LockResume (q.lock.sched.tasks q.cur).resume
  | _ => False

instance (q : Ioqueue) (e : Event) : Decidable (besideIoq q e) :=
  match e with
  | .tick => inferInstanceAs (Decidable True)
  | .idleBlock | .yield | .intrEnable | .intrDisable => inferInstanceAs (Decidable (_ = _))
  | .goOn => inferInstanceAs (Decidable (LockResume _))
  | .wakeup _ | .ioqWait _ | .semaDown _ | .semaUp _ | .sysWait | .sysExit _ | .sysFork
      _ | .sysExecv _ | .threadStart _ _ _ | .mainExit =>
    inferInstanceAs (Decidable False)

/-- Whether an event can come next. The calls are made with interrupts off. In the context of the
idle thread only the keyboard's handler makes one, and not when it would have to wait. -/
def ioqEnabled (q : Ioqueue) : IoqEvent → Prop
  | .call c => (q.lock.sched.tasks q.cur).resume = .run ∧ q.place q.cur = .out ∧
      q.lock.sched.intr = false ∧
    (q.cur ≠ q.lock.sched.idleThread ∨ ¬ q.MustWait c)
  | .statement => (q.lock.sched.tasks q.cur).resume = .run ∧ q.place q.cur ≠ .out
  | .sched e => enabled q.lock.sched e ∧ besideIoq q e

instance (q : Ioqueue) (e : IoqEvent) : Decidable (ioqEnabled q e) := by
  cases e <;> unfold ioqEnabled <;> exact inferInstance

/-- One step. -/
def ioqStep (q : Ioqueue) : IoqEvent → Except Fault (Ioqueue × Unit)
  | .call c => do return (← q.call c, ())
  | .statement => do return (← q.statement, ())
  | .sched e => do
    let (sched, _) ← step q.lock.sched e
    return ({ q with lock.sched := sched }, ())

/-- An I/O queue under the scheduler. -/
def ioqMachine : Machine Ioqueue IoqEvent Unit Fault := ⟨ioqEnabled, ioqStep⟩

instance (q : Ioqueue) (e : IoqEvent) : Decidable (ioqMachine.enabled q e) :=
  inferInstanceAs (Decidable (ioqEnabled q e))

/-- `ioqueue_init`, among any tasks. The cells of `buf` are what they were. -/
def ioqueueInit (sched : Sched) (buf : Nat → UInt8) : Ioqueue where
  lock := lockInit ((sched.setWaiter producer none).setWaiter consumer none)
  buf := buf
  head := 0
  tail := 0
  place _ := .out
  stored := []
  returned := []

end SeekingOs.Device
