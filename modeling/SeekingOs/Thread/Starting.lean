import SeekingOs.Userprog.Runs

/-!
# `thread_start`, one `list_append` after the other

`process_execute` puts its new task on both lists with interrupts off. `thread_start` does not turn
them off: only each `list_append` does. So where it is called with interrupts on a timer tick may
come between its two halves, when the thread is on the ready list and not yet on
`thread_all_list`, and the scheduler may even give the new thread the processor.

The machine here is the scheduler with `thread_start` in two steps, called with interrupts on or
off. `init_task` is part of the first step: what may come into it with interrupts on is not
followed.
-/

namespace SeekingOs.Thread

open Lib

/-- `thread_start` up to its first `list_append` -/
def threadStartReady (s : Sched) (thread : Addr) (name : List Char) (prio : Nat) :
    Except Fault Sched := do
  let s ← initTask s thread name prio
  assertThat false (thread ∉ s.readyList) "thread_start"
    "!elem_find(&thread_ready_list, &thread->general_tag)"
  return { s with readyList := s.readyList ++ [thread] }

/-- The rest of `thread_start` -/
def threadStartAll (s : Sched) (thread : Addr) : Except Fault Sched := do
  assertThat false (thread ∉ s.allList) "thread_start"
    "!elem_find(&thread_all_list, &thread->all_list_tag)"
  return { s with allList := s.allList ++ [thread] }

/-- The scheduler, and who is in `thread_start`. -/
structure Starts where
  sched : Sched
  /-- The tasks between the two halves of `thread_start`, each with the thread that it starts. -/
  starting : List (Addr × Addr)

/-- The thread that the current task is starting. -/
def Starts.thread (s : Starts) : Option Addr := s.starting.lookup s.sched.cur

/-- What can happen next. -/
inductive StartEvent where
  /-- A step of the scheduler. -/
  | sched (e : Event)
  /-- `thread_start` is called, up to its first `list_append`. -/
  | start (thread : Addr) (name : List Char) (prio : Nat)
  /-- Its second `list_append`. -/
  | started
  /-- In `thread_start`, an interrupt comes whose handler calls `sema_up` or `wakeup`. -/
  | handler (e : Event)
  deriving DecidableEq, Repr

/-- The page that an event has for a new PCB. -/
def Event.page : Event → Option Addr
  | .sysFork t | .threadStart t _ _ => some t
  | _ => none

/-- What may come while a task is in `thread_start`: a tick, and that it goes on after one. -/
def Event.interrupts : Event → Bool
  | .tick | .goOn => true
  | _ => false

/-- What the handlers of the other interrupts do. -/
def Event.handled : Event → Bool
  | .semaUp _ | .wakeup _ => true
  | _ => false

/-- No thread that is being started has this page. -/
def Starts.Unused (s : Starts) (page : Option Addr) : Prop :=
  ∀ pair ∈ s.starting, page ≠ some pair.2

instance (s : Starts) (page : Option Addr) : Decidable (s.Unused page) :=
  inferInstanceAs (Decidable (∀ _ ∈ _, _))

/-- Whether an event can come next. -/
def startEnabled (s : Starts) : StartEvent → Prop
  | .sched e => enabled s.sched e ∧ (s.thread = none ∨ e.interrupts = true) ∧ s.Unused e.page ∧
    ∀ t name prio, e ≠ .threadStart t name prio
  | .start t _ _ => (s.sched.tasks s.sched.cur).resume = .run ∧ s.sched.cur ≠ s.sched.idleThread ∧
    s.thread = none ∧ FreshPage s.sched t ∧ s.Unused (some t)
  | .started => (s.sched.tasks s.sched.cur).resume = .run ∧ s.thread ≠ none
  | .handler e => (s.sched.tasks s.sched.cur).resume = .run ∧ s.sched.intr = true ∧
    s.thread ≠ none ∧ e.handled = true

instance (e : Event) : Decidable (∀ t name prio, e ≠ .threadStart t name prio) :=
  match e with
  | .threadStart t name prio => isFalse fun h => h t name prio rfl
  | .tick | .yield | .intrEnable | .intrDisable | .goOn | .semaDown _ | .semaUp _ | .ioqWait _ |
    .wakeup _ | .sysWait | .sysExit _ | .sysFork _ | .sysExecv _ | .mainExit | .idleBlock =>
    isTrue fun _ _ _ h => Event.noConfusion h

instance (s : Starts) (e : StartEvent) : Decidable (startEnabled s e) := by
  cases e <;> unfold startEnabled <;> exact inferInstance

/-- One step. -/
def startStep (s : Starts) : StartEvent → Except Fault (Starts × Out)
  | .sched e => do
    let (sched, out) ← step s.sched e
    return ({ s with sched }, out)
  | .start t name prio => do
    let sched ← threadStartReady s.sched t name prio
    return (⟨sched, (s.sched.cur, t) :: s.starting⟩, .none)
  | .started =>
    match s.thread with
    | none => .ok (s, .none)
    | some t => do
      let sched ← threadStartAll s.sched t
      return (⟨sched, s.starting.filter fun pair => pair.1 ≠ s.sched.cur⟩, .none)
  | .handler e => do
    -- the gate turns interrupts off, and `iretd` on again
    let (sched, out) ← step { s.sched with intr := false } e
    return ({ s with sched := { sched with intr := true } }, out)

/-- The scheduler with `thread_start` in two steps. -/
def startMachine : Machine Starts StartEvent Out Fault := ⟨startEnabled, startStep⟩

instance (s : Starts) (e : StartEvent) : Decidable (startMachine.enabled s e) :=
  inferInstanceAs (Decidable (startEnabled s e))

/-- The condition on a `thread_start`: it is called with interrupts off, as `thread_init` calls it.
-/
def StartsOff (s : Starts) : StartEvent → Prop
  | .start _ _ _ => s.sched.intr = false
  | _ => True

instance (s : Starts) (e : StartEvent) : Decidable (StartsOff s e) := by
  cases e <;> unfold StartsOff <;> exact inferInstance

variable {s s' : Sched} {u : Starts} {t : Addr} {name : List Char} {prio : Nat}

/-! ## The two halves -/

theorem threadStart_eq :
    threadStart s t name prio = threadStartReady s t name prio >>= (threadStartAll · t) := by
  unfold threadStart threadStartReady threadStartAll enlist
  simp only [bind_assoc, pure_bind]
  rfl

/-- The first half changes the new PCB and the ready list, and no other task. -/
theorem threadStartReady_ok (h : threadStartReady s t name prio = .ok s') :
    s'.cur = s.cur ∧ s'.intr = s.intr ∧ ∀ v, v ≠ t → s'.tasks v = s.tasks v := by
  unfold threadStartReady initTask allocatePid at h
  obtain ⟨s₁, h₁, h⟩ := bind_eq_ok.mp h
  obtain ⟨_, -, h⟩ := bind_eq_ok.mp h
  cases h
  obtain ⟨⟨pid, s₂⟩, h₂, h₁⟩ := bind_eq_ok.mp h₁
  cases h₁
  obtain ⟨idx, -, h₂⟩ := bind_eq_ok.mp h₂
  cases idx with
  | none => cases h₂
  | some i =>
    cases h₂
    exact ⟨rfl, rfl, fun v hv => by
      show Function.update s.tasks t _ v = _
      rw [Function.update_of_ne hv]⟩

/-! ## The invariant of the runs that meet the condition -/

/-- Nobody is in `thread_start`, or the current task is, with interrupts off. -/
inductive StartInv (u : Starts) : Prop
  | whole : u.starting = [] → Inv u.sched → StartInv u
  | inside {s₀ : Sched} {t : Addr} {name : List Char} {prio : Nat} : Inv s₀ →
      enabled s₀ (.threadStart t name prio) → threadStartReady s₀ t name prio = .ok u.sched →
      u.starting = [(u.sched.cur, t)] → StartInv u

/-- In `thread_start` with interrupts off the current task goes on, and nothing else happens. -/
theorem startEnabled_inside {s₀ : Sched} (inv : Inv s₀)
    (en₀ : enabled s₀ (.threadStart t name prio))
    (ready : threadStartReady s₀ t name prio = .ok u.sched)
    (starting : u.starting = [(u.sched.cur, t)]) :
    u.sched.intr = false ∧ ∀ e, startEnabled u e → e = .started := by
  obtain ⟨hrun, hintr, hidle, fresh⟩ := en₀
  obtain ⟨hcur, hintr', others⟩ := threadStartReady_ok ready
  have hne : s₀.cur ≠ t := fun e => fresh.1 (e ▸ inv.queues.curMem)
  have run : (u.sched.tasks u.sched.cur).resume = .run := by
    rw [hcur, others _ hne]
    exact hrun
  have off : u.sched.intr = false := hintr'.trans hintr
  have busy : u.thread = some t := by
    unfold Starts.thread
    rw [starting, List.lookup_cons_self]
  refine ⟨off, fun e en => ?_⟩
  cases e with
  | started => rfl
  | start t' name' prio' =>
    obtain ⟨-, -, none, -⟩ := en
    rw [busy] at none
    cases none
  | handler e =>
    obtain ⟨-, on, -⟩ := en
    rw [off] at on
    cases on
  | sched e =>
    obtain ⟨en, idle, -⟩ := en
    rcases idle with none | hint
    · rw [busy] at none
      cases none
    · cases e with
      | tick => exact absurd (off.symm.trans en.2) (by decide)
      | goOn => exact absurd run en
      | _ => cases hint

/-- THE STEP LEMMA. A step that meets the condition keeps the invariant, or ends with one of
`otherStops`. -/
theorem StartInv.step_does (inv : StartInv u) {e : StartEvent} (en : startEnabled u e)
    (off : StartsOff u e) : Ensures (· ∈ otherStops) (fun p => StartInv p.1) (startStep u e) := by
  cases inv with
  | whole none inv =>
    have idle : u.thread = Option.none := by
      unfold Starts.thread
      rw [none]
      rfl
    cases e with
    | sched e =>
      refine Ensures.bind (P := fun p => Inv p.1) ?_ fun p hp => .whole none hp
      cases st : step u.sched e with
      | ok p => exact inv.next en.1 st
      | error f => exact (inv.step_does en.1).of_error st
    | started => exact absurd idle en.2
    | handler e => exact absurd idle en.2.2.1
    | start t name prio =>
      obtain ⟨hrun, hidle, -, fresh, -⟩ := en
      have en₀ : enabled u.sched (.threadStart t name prio) := ⟨hrun, off, hidle, fresh⟩
      refine Ensures.bind (P := fun sched => threadStartReady u.sched t name prio = .ok sched) ?_
        fun sched ready => .inside inv en₀ ready ?_
      · cases ready : threadStartReady u.sched t name prio with
        | ok sched => rfl
        | error f =>
          have stops : step u.sched (.threadStart t name prio) = .error f := by
            show (do return (← threadStart u.sched t name prio, Out.none)) = _
            rw [threadStart_eq, ready]
            rfl
          exact (inv.step_does en₀).of_error stops
      · show (u.sched.cur, t) :: u.starting = [(sched.cur, t)]
        rw [none, (threadStartReady_ok ready).1]
  | @inside s₀ t name prio inv en₀ ready starting =>
    obtain rfl := (startEnabled_inside inv en₀ ready starting).2 e en
    have busy : u.thread = some t := by
      unfold Starts.thread
      rw [starting, List.lookup_cons_self]
    have both : step s₀ (.threadStart t name prio) =
        (do return (← threadStartAll u.sched t, Out.none)) := by
      show (do return (← threadStart s₀ t name prio, Out.none)) = _
      rw [threadStart_eq, ready]
      rfl
    simp only [startStep, busy]
    refine Ensures.bind (P := fun sched => threadStartAll u.sched t = .ok sched) ?_
      fun sched rest => ?_
    · cases rest : threadStartAll u.sched t with
      | ok sched => rfl
      | error f =>
        rw [rest] at both
        exact (inv.step_does en₀).of_error both
    · rw [rest] at both
      refine .whole ?_ (inv.next en₀ both)
      show u.starting.filter _ = []
      simp [starting]

/-- The invariant of every run from the end of `thread_init` whose steps meet the condition. -/
theorem start_inv {pcb₁ pcb₃ : Addr} {value : Nat → Nat} (apart : Apart pcb₁ pcb₃)
    {tr : List (Entry Starts StartEvent Out)}
    (path : startMachine.Path ⟨boot pcb₁ pcb₃ value, []⟩ tr u) (off : Machine.Meets StartsOff tr) :
    StartInv u :=
  path.invariant_of_meets (.whole rfl (boot_inv apart)) off
    fun inv en st off => (inv.step_does en off).of_ok st

end SeekingOs.Thread
