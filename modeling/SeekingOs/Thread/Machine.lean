import SeekingOs.Lib.Machine
import SeekingOs.Userprog.WaitExit

/-!
# The scheduler as a machine

One processor takes one step after another. Every step is a stretch of kernel
code that runs with interrupts off, from the point where the current task enters
it to the point where it leaves it or where `switch_to` has made another task the
current one. Which step comes next is free: any program in any process, any
interrupt, in any order.

Three tasks have a program of their own. The idle thread only blocks itself and
is interrupted; what an interrupt handler does in its context (`sema_up`,
`wakeup`) it may do too. `main` may end itself by `thread_exit`. And `thread_start`
is called here as its only caller, `thread_init`, calls it: with interrupts off, so that
it is one step. What it does with interrupts on is in `Thread.Starting`.
-/

namespace SeekingOs.Thread

open SeekingOs.Lib

/-- What can happen next. -/
inductive Event where
  /-- The timer interrupt. -/
  | tick
  /-- `thread_yield` -/
  | yield
  /-- `sti`, or the `iretd` that ends a system call. -/
  | intrEnable
  /-- `cli`, or the gate of `int 0x80`. -/
  | intrDisable
  /-- The task that was switched to goes on. -/
  | goOn
  | semaDown (k : Nat)
  | semaUp (k : Nat)
  | ioqWait (w : Nat)
  | wakeup (w : Nat)
  | sysWait
  | sysExit (status : Int)
  | sysFork (childThread : Addr)
  | sysExecv (path : List Char)
  | threadStart (thread : Addr) (name : List Char) (prio : Nat)
  /-- `main` calls `thread_exit(running_thread(), true)`. -/
  | mainExit
  /-- The loop of `idle`. -/
  | idleBlock
  deriving DecidableEq, Repr

/-- A page that `get_kernel_pages` can answer for a PCB: none of a living task, and not
the page of the main thread, which the kernel's pool does not hold. -/
def FreshPage (s : Sched) (t : Addr) : Prop := t ∉ s.allList ∧ t ≠ s.mainThread

instance (s : Sched) (t : Addr) : Decidable (FreshPage s t) := inferInstanceAs (Decidable (_ ∧ _))

/-- Whether an event can come next. A system call runs with interrupts off. -/
def enabled (s : Sched) (e : Event) : Prop :=
  match e with
  | .goOn => (s.tasks s.cur).resume ≠ .run
  | e => (s.tasks s.cur).resume = .run ∧
    match e with
    | .tick => s.intr = true
    | .yield | .semaDown _ => s.cur ≠ s.idleThread
    | .ioqWait _ | .sysWait | .sysExit _ | .sysExecv _ => s.intr = false ∧ s.cur ≠ s.idleThread
    | .sysFork t => s.intr = false ∧ s.cur ≠ s.idleThread ∧ FreshPage s t
    | .threadStart t _ _ => s.intr = false ∧ s.cur ≠ s.idleThread ∧ FreshPage s t
    | .wakeup _ => s.intr = false
    | .mainExit => s.cur = s.mainThread
    | .idleBlock => s.cur = s.idleThread
    | .intrEnable | .intrDisable | .semaUp _ | .goOn => True

instance (s : Sched) (e : Event) : Decidable (enabled s e) := by
  cases e <;> unfold enabled <;> exact inferInstance

/-- The current task goes on where it was switched out. -/
def goOn (s : Sched) : Except Fault (Sched × Out) :=
  let run (intr : Bool) : Sched := { s with intr }.setTask s.cur ({ · with resume := .run })
  match (s.tasks s.cur).resume with
  | .run => .ok (s, .none)
  | .fresh => .ok (run true, .none)
  | .ret old => .ok (run old, .none)
  | .semaDown k old => do return (← semaDownLoop s k old, .none)
  | .ioqWait _ => .ok (run false, .none)
  | .wait => sysWaitLoop s
  | .exited => .ok (run false, .none)
  | .over => .error (.panic "thread_exit" "thread_exit: should not be hrer\n")

/-- One step. -/
def step (s : Sched) : Event → Except Fault (Sched × Out)
  | .tick => do return (← intrTimerHandler s, .none)
  | .yield => do return (← threadYield s, .none)
  | .intrEnable => .ok ({ s with intr := true }, .none)
  | .intrDisable => .ok ({ s with intr := false }, .none)
  | .goOn => goOn s
  | .semaDown k => do return (← semaDown s k, .none)
  | .semaUp k => do return (← semaUp s k, .none)
  | .ioqWait w => do return (← ioqWait s w, .none)
  | .wakeup w => do return (← wakeup s w, .none)
  | .sysWait => sysWaitLoop s
  | .sysExit status => do return (← sysExit s status, .none)
  | .sysFork t => sysFork s t
  | .sysExecv path => .ok (sysExecv s path, .none)
  | .threadStart t name prio => do return (← threadStart s t name prio, .none)
  | .mainExit => do
    let s' := (threadExit s s.cur).setTask s.cur ({ · with resume := .over })
    return (← schedule s', .none)
  | .idleBlock => do return (← threadBlock s .blocked (.ret true), .none)

/-- The scheduler as a machine. -/
def machine : Machine Sched Event Out Fault := ⟨enabled, step⟩

instance (s : Sched) (e : Event) : Decidable (machine.enabled s e) :=
  inferInstanceAs (Decidable (enabled s e))

/-! ## After `thread_init` -/

/-- A task of `init_task`. -/
def bootTask (pid : Int) (name : List Char) (prio serial : Nat) (status : TaskStatus)
    (hasPgdir : Bool) (resume : Resume) : Task :=
  { pid, status, name, priority := prio, ticks := prio, elapsedTicks := 0, hasPgdir,
    parentPid := -1,
    exitStatus := 0, resume, serial }

/-- The PCB of the main thread, which is not on the heap. -/
def mainPcb : Addr := 0xc009e000

/-- What `thread_init` leaves: `init` with pid 1, `main` running with pid 2, `idle` with
pid 3. The semaphores have the values they are initialised with, and no waiters.
The PCBs of `init` and `idle` are at `pcb₁` and `pcb₃`. -/
def boot (pcb₁ pcb₃ : Addr) (value : Nat → Nat) : Sched where
  tasks t :=
    if t = pcb₁ then bootTask 1 ['i', 'n', 'i', 't'] 30 0 .ready true .fresh
    else if t = pcb₃ then bootTask 3 ['i', 'd', 'l', 'e'] 10 2 .ready false .fresh
    else bootTask 2 ['m', 'a', 'i', 'n'] 30 1 .running false .run
  cur := mainPcb
  idleThread := pcb₃
  mainThread := mainPcb
  allList := [pcb₁, mainPcb, pcb₃]
  readyList := [pcb₁, pcb₃]
  semaphores k := ⟨value k, []⟩
  waiter _ := none
  pidBitmap := ⟨7 :: List.replicate 127 0⟩
  intr := false
  nextSerial := 3

end SeekingOs.Thread
