import SeekingOs.Thread.Schedule

/-!
# `userprog/fork.c` and `userprog/wait_exit.c`

`sys_fork`, `sys_wait` and `sys_exit`, the parts that the process tree is made
of: pids, parents, statuses and the two lists. Memory and open files are copied
and released by the same functions; other modules have those parts.

`list_traversal` with a callback that answers true stops at the first task that
matches (`List.find?`); with one that never does it visits every task.
-/

namespace SeekingOs.Thread

/-- What a step answers to its caller. -/
inductive Out where
  | none
  /-- `sys_fork` in the parent: the child's pid. -/
  | forked (pid : Int)
  /-- `sys_wait`: a child was reaped; its pid and exit status go to the caller. -/
  | reaped (parent child : Addr) (serial : Nat) (pid status : Int)
  /-- `sys_wait`: no child. -/
  | noChild
  deriving DecidableEq, Repr

variable (s : Sched)

/-- `find_child` -/
def findChild (ppid : Int) (t : Addr) : Bool := (s.tasks t).parentPid == ppid

/-- `find_hanging_child` -/
def findHangingChild (ppid : Int) (t : Addr) : Bool :=
  (s.tasks t).parentPid == ppid && (s.tasks t).status == .hanging

/-- `pid2thread`, through `pid_check` -/
def pid2thread (pid : Int) : Option Addr := s.allList.find? fun t => (s.tasks t).pid == pid

/-- `list_traversal(&thread_all_list, init_adopt_a_child, pid)` -/
def initAdoptChildren (pid : Int) : Sched :=
  { s with tasks := fun t =>
      if t ∈ s.allList ∧ (s.tasks t).parentPid = pid then { s.tasks t with parentPid := 1 }
      else s.tasks t }

/-- The loop of `sys_wait` -/
def sysWaitLoop : Except Fault (Sched × Out) :=
  let pid := (s.tasks s.cur).pid
  match s.allList.find? (findHangingChild s pid) with
  | some child =>
    let status := (s.tasks child).exitStatus
    let childPid := (s.tasks child).pid
    let s' := threadExit s child
    .ok (s'.setTask s.cur ({ · with resume := .run }),
      .reaped s.cur child (s.tasks child).serial childPid status)
  | none =>
    match s.allList.find? (findChild s pid) with
    | none => .ok (s.setTask s.cur ({ · with resume := .run }), .noChild)
    | some _ => do
      let s ← threadBlock s .waiting .wait
      return (s, .none)

/-- `sys_exit` wakes the parent if it is in `sys_wait`. -/
def wakeParent (parentThread : Addr) : Except Fault Sched :=
  if (s.tasks parentThread).status = .waiting then threadUnblock s parentThread else return s

/-- `sys_exit` -/
def sysExit (status : Int) : Except Fault Sched := do
  let childThread := s.cur
  let s := s.setTask childThread ({ · with exitStatus := toSigned 8 status })
  if (s.tasks childThread).parentPid = -1 then
    .error (.panic "sys_exit" "sys_exit: child_thread->parent_pid is −1\n")
  else
    let s := initAdoptChildren s (s.tasks childThread).pid
    match pid2thread s (s.tasks childThread).parentPid with
    | none => .error (.pageFault "sys_exit")
    | some parentThread => do
      let s ← wakeParent s parentThread
      threadBlock s .hanging .exited

/-- `copy_pcb_vaddrbitmap_stack0` and `build_child_stack`, on the fields of this model -/
def copyPcb (childThread parentThread : Addr) : Except Fault Sched := do
  let parent := s.tasks parentThread
  let (pid, s) ← allocatePid s
  assertThat false (parent.name.length < 11) "copy_pcb_vaddrbitmap_stack0"
    "strlen(child_thread->name) < 11"
  return { s with nextSerial := s.nextSerial + 1 }.setTask childThread fun _ =>
    { parent with
      pid, elapsedTicks := 0, status := .ready, ticks := parent.priority, parentPid := parent.pid
      name := parent.name ++ ['_', 'f', 'o', 'r', 'k'], resume := .fresh, serial := s.nextSerial }

/-- `sys_fork`; `get_kernel_pages` has answered the page `childThread`. -/
def sysFork (childThread : Addr) : Except Fault (Sched × Out) := do
  assertThat false (s.intr = false ∧ (s.tasks s.cur).hasPgdir) "sys_fork"
    "INTR_OFF == intr_get_status() && parent_thread->pgdir != NULL"
  let s ← copyPcb s childThread s.cur
  let s ← enlist s "sys_fork" "child_thread" childThread
  return (s, .forked (s.tasks childThread).pid)

/-- `sys_execv`, the part that renames the process: 15 characters of the path. -/
def sysExecv (path : List Char) : Sched := s.setTask s.cur ({ · with name := path.take 15 })

end SeekingOs.Thread
