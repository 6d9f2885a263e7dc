import Mathlib.Logic.Function.Basic
import SeekingOs.Kernel.Bitmap

/-!
# Tasks and the lists they are on

The part of `struct task` that scheduling, `fork`, `exit` and `wait` read, and
the global state of `thread/thread.c`. A task is named by the address of its PCB.

The lists of `lib/kernel/list.c` are sequences of tasks here: `general_tag` is
the node by which a task is on the ready list or on a semaphore's `waiters`,
`all_list_tag` the one by which it is on `thread_all_list`.

The kernel stack lies in the page of the PCB. What it says about a task that is
switched out is where it goes on when it is switched to again (`Resume`).
-/

namespace SeekingOs.Thread

/-- The address of a PCB. -/
abbrev Addr := Nat

/-- `enum task_status` -/
inductive TaskStatus where
  | running | ready | blocked | waiting | hanging | over
  deriving DecidableEq, Repr

/-- Where a task goes on when it is switched to. -/
inductive Resume where
  /-- Nothing is pending: the code of the thread, or of a system call up to its next blocking point.
  -/
  | run
  /-- `kernel_thread`, or `intr_exit` for a forked child: interrupts are turned on. -/
  | fresh
  /-- The end of a function that has saved the interrupt status `old`, or of an interrupt. -/
  | ret (old : Bool)
  /-- The loop of `sema_down`, which has saved `old`. -/
  | semaDown (sem : Nat) (old : Bool)
  /-- The end of `ioq_wait`. -/
  | ioqWait (waiter : Nat)
  /-- The loop of `sys_wait`. -/
  | wait
  /-- The end of `sys_exit`. -/
  | exited
  /-- The `PANIC` at the end of `thread_exit`. -/
  | over
  deriving DecidableEq, Repr

/-- `struct task`, the fields that the modelled functions use. -/
structure Task where
  pid : Int
  status : TaskStatus
  name : List Char
  priority : Nat
  ticks : Nat
  elapsedTicks : Nat
  /-- `pgdir != NULL`: a user process, not a kernel thread. -/
  hasPgdir : Bool
  parentPid : Int
  exitStatus : Int
  /-- What the kernel stack of the page says. -/
  resume : Resume
  /-- Ghost: a number no other task of the run has. PCB pages and pids are used again. -/
  serial : Nat
  deriving DecidableEq, Repr

/-- `struct semaphore` -/
structure Semaphore where
  value : Nat
  waiters : List Addr
  deriving DecidableEq, Repr

/-- The scheduler's state: one processor. -/
structure Sched where
  tasks : Addr → Task
  /-- `running_thread()` -/
  cur : Addr
  idleThread : Addr
  mainThread : Addr
  allList : List Addr
  readyList : List Addr
  semaphores : Nat → Semaphore
  /-- The `struct task*` variables `producer` and `consumer` of the I/O queues. -/
  waiter : Nat → Option Addr
  pidBitmap : Bitmap
  /-- The interrupt flag of the processor. -/
  intr : Bool
  /-- Ghost: the next serial number. -/
  nextSerial : Nat

/-- Change the PCB at `t`. -/
def Sched.setTask (s : Sched) (t : Addr) (f : Task → Task) : Sched :=
  { s with tasks := Function.update s.tasks t (f (s.tasks t)) }

/-- Change the semaphore `k`. -/
def Sched.setSema (s : Sched) (k : Nat) (f : Semaphore → Semaphore) : Sched :=
  { s with semaphores := Function.update s.semaphores k (f (s.semaphores k)) }

/-- Change the waiter variable `w`. -/
def Sched.setWaiter (s : Sched) (w : Nat) (t : Option Addr) : Sched :=
  { s with waiter := Function.update s.waiter w t }

section Lemmas

variable (s : Sched) (t u : Addr) (k l : Nat) (f : Task → Task) (g : Semaphore → Semaphore)
  (o : Option Addr)

theorem setTask_tasks : (s.setTask t f).tasks u = if u = t then f (s.tasks t) else s.tasks u := by
  simp only [Sched.setTask, Function.update_apply]

@[simp] theorem setTask_self : (s.setTask t f).tasks t = f (s.tasks t) := by
  simp only [setTask_tasks, ↓reduceIte]

@[simp] theorem setTask_cur : (s.setTask t f).cur = s.cur := rfl
@[simp] theorem setTask_idleThread : (s.setTask t f).idleThread = s.idleThread := rfl
@[simp] theorem setTask_mainThread : (s.setTask t f).mainThread = s.mainThread := rfl
@[simp] theorem setTask_allList : (s.setTask t f).allList = s.allList := rfl
@[simp] theorem setTask_readyList : (s.setTask t f).readyList = s.readyList := rfl
@[simp] theorem setTask_semaphores : (s.setTask t f).semaphores = s.semaphores := rfl
@[simp] theorem setTask_waiter : (s.setTask t f).waiter = s.waiter := rfl
@[simp] theorem setTask_pidBitmap : (s.setTask t f).pidBitmap = s.pidBitmap := rfl
@[simp] theorem setTask_intr : (s.setTask t f).intr = s.intr := rfl
@[simp] theorem setTask_nextSerial : (s.setTask t f).nextSerial = s.nextSerial := rfl

theorem setSema_semaphores :
    (s.setSema k g).semaphores l = if l = k then g (s.semaphores k) else s.semaphores l := by
  simp only [Sched.setSema, Function.update_apply]

theorem setWaiter_waiter : (s.setWaiter k o).waiter l = if l = k then o else s.waiter l := by
  simp only [Sched.setWaiter, Function.update_apply]

end Lemmas

end SeekingOs.Thread
