import SeekingOs.Thread.Task

/-!
# `thread/thread.c`, `thread/sync.c` and the blocking halves of the I/O queue

Each function is translated up to the point where `switch_to` has made another
task the current one; what the task that is switched out does afterwards is its
`Resume`, and `goOn` carries it out.

All of them run with interrupts off, by their own `intr_disable`, by the gate
they are entered through, or because their callers assert it. So each is one
step, and a timer tick comes only where the interrupt flag is set.
-/

namespace SeekingOs.Thread

variable (s : Sched)

/-- `thread_unblock` -/
def threadUnblock (pthread : Addr) : Except Fault Sched := do
  let status := (s.tasks pthread).status
  assertThat false (status = .blocked ∨ status = .hanging ∨ status = .waiting) "thread_unblock"
    "pthread->status == TASK_BLOCKED || pthread->status == TASK_HANGING || pthread->status == TASK_WAITING"
  if status ≠ .ready then
    assertThat false (pthread ∉ s.readyList) "thread_unblock"
      "!elem_find(&thread_ready_list, &pthread->general_tag)"
    -- `list_push`: a woken task goes to the front
    return { s with readyList := pthread :: s.readyList }.setTask pthread
      ({ · with status := .ready })
  return s

/-- The first half of `schedule`: a task that is still running goes to the end of the ready list. -/
def scheduleRequeue : Except Fault Sched :=
  if (s.tasks s.cur).status = .running then do
    assertThat false (s.cur ∉ s.readyList) "schedule"
      "!elem_find(&thread_ready_list, &cur->general_tag)"
    return { s with readyList := s.readyList ++ [s.cur] }.setTask s.cur fun t =>
      { t with ticks := t.priority, status := .ready }
  else return s

/-- The end of `schedule`: the first ready task gets the processor. -/
def runNext : Except Fault Sched := do
  assertThat false (s.readyList ≠ []) "schedule" "!list_empty(&thread_ready_list)"
  match s.readyList with
  | [] => .error (.pageFault "schedule")
  | next :: rest =>
    return { s with readyList := rest, cur := next, intr := false }.setTask
      next ({ · with status := .running })

/-- The second half: the idle thread is woken when nobody is ready, and the first
ready task gets the processor. -/
def scheduleNext : Except Fault Sched := do
  let s ← if s.readyList = [] then threadUnblock s s.idleThread else pure s
  runNext s

theorem scheduleNext_eq : scheduleNext s = if s.readyList = [] then
    threadUnblock s s.idleThread >>= runNext else runNext s := by
  unfold scheduleNext
  split <;> rfl

/-- `schedule` -/
def schedule : Except Fault Sched := do
  let s ← scheduleRequeue s
  scheduleNext s

/-- `thread_block`; `resume` is where the caller goes on. -/
def threadBlock (statu : TaskStatus) (resume : Resume) : Except Fault Sched := do
  assertThat false (statu = .blocked ∨ statu = .hanging ∨ statu = .waiting) "thread_block"
    "statu == TASK_BLOCKED || statu == TASK_HANGING || statu == TASK_WAITING"
  schedule (s.setTask s.cur ({ · with status := statu, resume := resume }))

/-- `thread_yield` -/
def threadYield : Except Fault Sched := do
  assertThat false (s.cur ∉ s.readyList) "thread_yield"
    "!elem_find(&thread_ready_list, &cur->general_tag)"
  schedule ({ s with readyList := s.readyList ++ [s.cur] }.setTask s.cur fun t =>
    { t with status := .ready, resume := .ret s.intr })

/-- `intr_timer_handler`, entered with interrupts on -/
def intrTimerHandler : Except Fault Sched :=
  let s := s.setTask s.cur fun t => { t with elapsedTicks := (t.elapsedTicks + 1) % 2 ^ 32 }
  if (s.tasks s.cur).ticks = 0 then
    schedule (s.setTask s.cur ({ · with resume := .ret true }))
  else
    return s.setTask s.cur fun t => { t with ticks := t.ticks - 1 }

/-- The loop of `sema_down`, whose caller had the interrupt status `old`. -/
def semaDownLoop (k : Nat) (old : Bool) : Except Fault Sched :=
  if (s.semaphores k).value = 0 then do
    assertThat false (s.cur ∉ (s.semaphores k).waiters) "sema_down"
      "!elem_find(&psem->waiters, &running_thread()->general_tag)"
    threadBlock (s.setSema k fun sem => { sem with waiters := sem.waiters ++ [s.cur] }) .blocked
      (.semaDown k old)
  else do
    let s := s.setSema k fun sem => { sem with value := sem.value - 1 }
    assertThat false ((s.semaphores k).value = 0) "sema_down" "psem->value == 0"
    return { s with intr := old }.setTask s.cur ({ · with resume := .run })

/-- `sema_down` -/
def semaDown (k : Nat) : Except Fault Sched := semaDownLoop s k s.intr

/-- The middle of `sema_up`: the first waiter is popped and unblocked. -/
def semaPop (k : Nat) : Except Fault Sched :=
  match (s.semaphores k).waiters with
  | [] => return s
  | threadBlocked :: rest => threadUnblock (s.setSema k ({ · with waiters := rest })) threadBlocked

/-- `sema_up` -/
def semaUp (k : Nat) : Except Fault Sched := do
  assertThat false ((s.semaphores k).value = 0) "sema_up" "psem->value == 0"
  let s ← semaPop s k
  let s := s.setSema k fun sem => { sem with value := sem.value + 1 }
  assertThat false ((s.semaphores k).value = 1) "sema_up" "psem->value == 1"
  return s

/-- `ioq_wait`, called with interrupts off -/
def ioqWait (w : Nat) : Except Fault Sched := do
  assertThat false (s.waiter w = none) "ioq_wait" "*waiter == NULL && waiter != NULL"
  threadBlock (s.setWaiter w (some s.cur)) .blocked (.ioqWait w)

/-- `wakeup` -/
def wakeup (w : Nat) : Except Fault Sched :=
  match s.waiter w with
  | none => .error (.assert "wakeup" "*waiter != NULL")
  | some t => do
    let s ← threadUnblock s t
    return s.setWaiter w none

/-! ## Pids -/

/-- `allocate_pid`. Nothing that holds `pid_lock` blocks, so it is always free here. -/
def allocatePid : Except Fault (Int × Sched) := do
  let bitIdx ← bitmapScan false s.pidBitmap 1
  match bitIdx with
  | none => .error (.assert "allocate_pid" "bit_idx != -1")
  | some i => return (1 + i, { s with pidBitmap := bitmapSet s.pidBitmap i true })

/-- `release_pid` -/
def releasePid (pid : Int) : Sched :=
  { s with pidBitmap := bitmapSet s.pidBitmap (u32 (pid - 1)) false }

/-! ## Tasks come and go -/

/-- A new task goes to the end of both lists: the last lines of `thread_start`,
`process_execute` and `sys_fork`, where `var` is the PCB's name. -/
def enlist (func var : String) (t : Addr) : Except Fault Sched := do
  assertThat false (t ∉ s.readyList) func
    ("!elem_find(&thread_ready_list, &" ++ var ++ "->general_tag)")
  assertThat false (t ∉ s.allList) func
    ("!elem_find(&thread_all_list, &" ++ var ++ "->all_list_tag)")
  return { s with readyList := s.readyList ++ [t], allList := s.allList ++ [t] }

/-- `init_task` and `thread_create`, for a PCB other than `main_thread` -/
def initTask (pthread : Addr) (name : List Char) (prio : Nat) : Except Fault Sched := do
  let (pid, s) ← allocatePid s
  return { s with nextSerial := s.nextSerial + 1 }.setTask pthread fun _ =>
    { pid, status := .ready, name, priority := prio, ticks := prio, elapsedTicks := 0,
      hasPgdir := false,
      parentPid := -1, exitStatus := 0, resume := .fresh, serial := s.nextSerial }

/-- `thread_start`; `get_kernel_pages` has answered the page `thread`. -/
def threadStart (thread : Addr) (name : List Char) (prio : Nat) : Except Fault Sched := do
  let s ← initTask s thread name prio
  enlist s "thread_start" "thread" thread

/-- `thread_exit` up to the call of `schedule`. The page directory and the PCB go
back to the kernel's pool, which this model has no part of. -/
def threadExit (threadOver : Addr) : Sched :=
  let s := { s with
    intr := false
    readyList := s.readyList.erase threadOver
    allList := s.allList.erase threadOver }.setTask threadOver ({ · with status := .over })
  releasePid s (s.tasks threadOver).pid

end SeekingOs.Thread
