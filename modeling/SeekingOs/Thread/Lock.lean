import SeekingOs.Thread.Machine

/-!
# A lock, statement by statement

`lock_acquire` and `lock_release` run with interrupts on, `sema_down` and `sema_up` inside them do
not. So between two accesses to `holder` or `holder_repeat_nr` another thread may come in, and a
thread in one of the two functions has a place there (`LockPoint`). Two steps put accesses together:
the beginning of `lock_release`, which only reads, and the assertion behind `sema_down` with the
write that follows it. Whoever comes in there finds the semaphore taken, and only the thread that
has it writes the two fields; what it reads of them itself (is it the holder?) is the same before
and after.

The processor and the semaphore are those of `thread/thread.c` and `thread/sync.c`: a step is a
statement of the lock's code by the current task, or a step of the scheduler.
-/

namespace SeekingOs.Thread

open Lib

/-- The semaphore inside the lock. -/
def lockSema : Nat := 0

/-- Where a thread is in `lock_acquire` or `lock_release`. -/
inductive LockPoint where
  /-- In neither. -/
  | out
  /-- Not the holder: `sema_down` comes next. -/
  | down
  /-- In `sema_down`, or behind it: `plock->holder = running_thread()` comes next. -/
  | taking
  /-- The assertion and `plock->holder_repeat_nr = 1` come next. -/
  | taken
  /-- The holder: `plock->holder_repeat_nr` is loaded next, for `++`. -/
  | again
  /-- `n` is stored in `plock->holder_repeat_nr` next. -/
  | more (n : Nat)
  /-- `plock->holder_repeat_nr` is loaded next, for `--`. -/
  | fewer
  /-- `n` is stored in `plock->holder_repeat_nr` next. -/
  | less (n : Nat)
  /-- `plock->holder = NULL` comes next. -/
  | freeing
  /-- `plock->holder_repeat_nr = 0` comes next. -/
  | freed
  /-- `sema_up` comes next. -/
  | up
  deriving DecidableEq, Repr

/-- The scheduler's state with a `struct lock`. -/
structure LockSched where
  sched : Sched
  holder : Option Addr
  holderRepeatNr : Nat
  /-- What the kernel stack of each thread says. -/
  point : Addr → LockPoint
  /-- Ghost: how many acquisitions of a thread have returned and are not released. -/
  depth : Addr → Nat

namespace LockSched

variable (s : LockSched)

/-- The current task goes on at `point`. -/
def goTo (point : LockPoint) : LockSched :=
  { s with point := Function.update s.point s.sched.cur point }

/-- The nesting depth of the current task changes. -/
def setDepth (depth : Nat) : LockSched :=
  { s with depth := Function.update s.depth s.sched.cur depth }

/-- `lock_acquire` up to its branch -/
def lockAcquire : LockSched := if s.holder ≠ some s.sched.cur then s.goTo .down else s.goTo .again

/-- `lock_release` up to its first write -/
def lockRelease : Except Fault LockSched := do
  assertThat false (s.holder = some s.sched.cur) "lock_release" "plock->holder == running_thread()"
  if s.holderRepeatNr > 1 then return s.goTo .fewer
  else
    assertThat false (s.holderRepeatNr = 1) "lock_release" "plock->holder_repeat_nr == 1"
    return (s.goTo .freeing).setDepth 0

/-- The next statement of the lock's code. -/
def statement : Except Fault LockSched :=
  match s.point s.sched.cur with
  | .out => .ok s
  | .down => do return { s.goTo .taking with sched := ← semaDown s.sched lockSema }
  | .taking => .ok { s.goTo .taken with holder := some s.sched.cur }
  | .taken => do
    assertThat false (s.holderRepeatNr = 0) "lock_acquire" "plock->holder_repeat_nr == 0"
    return { (s.goTo .out).setDepth 1 with holderRepeatNr := 1 }
  | .again => .ok (s.goTo (.more (u32 (s.holderRepeatNr + 1))))
  | .more n => .ok { (s.goTo .out).setDepth (s.depth s.sched.cur + 1) with holderRepeatNr := n }
  | .fewer => .ok (s.goTo (.less (u32 (s.holderRepeatNr - 1))))
  | .less n => .ok { (s.goTo .out).setDepth (s.depth s.sched.cur - 1) with holderRepeatNr := n }
  | .freeing => .ok { s.goTo .freed with holder := none }
  | .freed => .ok { s.goTo .up with holderRepeatNr := 0 }
  | .up => do return { s.goTo .out with sched := ← semaUp s.sched lockSema }

end LockSched

/-- What can happen next. -/
inductive LockEvent where
  | lockAcquire
  | lockRelease
  /-- The current task executes the next statement of the lock's code. -/
  | statement
  /-- A step of the scheduler. -/
  | sched (e : Event)
  deriving DecidableEq, Repr

/-- Where a task may go on that uses no semaphore but the lock's. -/
def LockResume : Resume → Prop
  | .fresh | .ret _ | .ioqWait _ => True
  | .semaDown k _ => k = lockSema
  | _ => False

instance (r : Resume) : Decidable (LockResume r) := by
  cases r <;> unfold LockResume <;> exact inferInstance

/-- The steps of the scheduler beside the lock. The timer ticks, and interrupt handlers wake tasks,
anywhere; what a thread does of itself it does outside the lock's code. -/
def besideLock (s : LockSched) : Event → Prop
  | .tick | .wakeup _ | .idleBlock => True
  | .goOn => LockResume (s.sched.tasks s.sched.cur).resume
  | .yield | .intrEnable | .intrDisable | .ioqWait _ => s.point s.sched.cur = .out
  | _ => False

instance (s : LockSched) (e : Event) : Decidable (besideLock s e) :=
  match e with
  | .tick | .wakeup _ | .idleBlock => inferInstanceAs (Decidable True)
  | .goOn => inferInstanceAs (Decidable (LockResume _))
  | .yield | .intrEnable | .intrDisable | .ioqWait _ => inferInstanceAs (Decidable (_ = _))
  | .semaDown _ | .semaUp _ | .sysWait | .sysExit _ | .sysFork _ | .sysExecv _ | .threadStart _ _
      _ | .mainExit =>
    inferInstanceAs (Decidable False)

/-- Whether an event can come next. A thread releases the lock only when it has acquired it. -/
def lockEnabled (s : LockSched) : LockEvent → Prop
  | .lockAcquire => (s.sched.tasks s.sched.cur).resume = .run ∧ s.sched.cur ≠ s.sched.idleThread ∧
      s.point s.sched.cur = .out
  | .lockRelease => (s.sched.tasks s.sched.cur).resume = .run ∧ s.point s.sched.cur = .out ∧
      0 < s.depth s.sched.cur
  | .statement => (s.sched.tasks s.sched.cur).resume = .run ∧ s.point s.sched.cur ≠ .out
  | .sched e => enabled s.sched e ∧ besideLock s e

instance (s : LockSched) (e : LockEvent) : Decidable (lockEnabled s e) := by
  cases e <;> unfold lockEnabled <;> exact inferInstance

/-- One step. -/
def lockStep (s : LockSched) : LockEvent → Except Fault (LockSched × Unit)
  | .lockAcquire => .ok (s.lockAcquire, ())
  | .lockRelease => do return (← s.lockRelease, ())
  | .statement => do return (← s.statement, ())
  | .sched e => do
    let (sched, _) ← step s.sched e
    return ({ s with sched }, ())

/-- A lock under the scheduler. -/
def lockMachine : Machine LockSched LockEvent Unit Fault := ⟨lockEnabled, lockStep⟩

instance (s : LockSched) (e : LockEvent) : Decidable (lockMachine.enabled s e) :=
  inferInstanceAs (Decidable (lockEnabled s e))

/-- The assertions of `sync.c`. -/
def syncAsserts : List Fault :=
  [.assert "sema_down" "!elem_find(&psem->waiters, &running_thread()->general_tag)",
   .assert "sema_down" "psem->value == 0", .assert "sema_up" "psem->value == 0",
   .assert "sema_up" "psem->value == 1",
   .assert "lock_acquire" "plock->holder_repeat_nr == 0",
   .assert "lock_release" "plock->holder == running_thread()",
   .assert "lock_release" "plock->holder_repeat_nr == 1"]

/-- `lock_init`, among any tasks whose queues are in order. -/
def lockInit (sched : Sched) : LockSched where
  sched := sched.setSema lockSema fun _ => ⟨1, []⟩
  holder := none
  holderRepeatNr := 0
  point _ := .out
  depth _ := 0

end SeekingOs.Thread
