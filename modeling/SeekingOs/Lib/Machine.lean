import Mathlib.Logic.Basic
import Mathlib.Data.List.Basic

/-!
# Machines that take one step after another

A machine has states, events that may be offered to it, and a step that either
faults or answers a next state and an output. A fault ends the run: the system
that it models has stopped (a failed assertion, a page fault in the kernel).

A `Path` is a run with its history: for every step taken the state before it,
the event and the output. Three rules lead from one step to a run:

- `Path.invariant`: what holds at the start and is kept by every step holds at
  the end and before every step;
- `Path.always_iff`: where one step keeps a property exactly when it meets a
  condition, a whole run keeps it exactly when all of its steps do;
- `Path.refines`: where each step does what a relation between abstract states
  allows, the abstract states `Follows` the whole history.
-/

namespace SeekingOs.Lib

/-- A machine over states `σ`, events `ε`, outputs `ω` and faults `φ`. -/
structure Machine (σ ε ω φ : Type) where
  /-- Whether an event can be offered in a state. -/
  enabled : σ → ε → Prop
  /-- What the event does. -/
  step : σ → ε → Except φ (σ × ω)

/-- One step of a run, seen from the state before it. -/
structure Entry (σ ε ω : Type) where
  pre : σ
  event : ε
  out : ω

namespace Machine

variable {σ ε ω φ : Type} (M : Machine σ ε ω φ)

/-- A run from `s₀`, with its history, the latest step last. -/
inductive Path (s₀ : σ) : List (Entry σ ε ω) → σ → Prop
  | start : Path s₀ [] s₀
  | step {tr : List (Entry σ ε ω)} {s s' : σ} {e : ε} {o : ω} :
      Path s₀ tr s → M.enabled s e → M.step s e = .ok (s', o) → Path s₀ (tr ++ [⟨s, e, o⟩]) s'

/-- A state some run ends in. -/
def Reachable (s₀ s : σ) : Prop := ∃ tr, M.Path s₀ tr s

variable {M}

/-- THE INVARIANT RULE, with everything the history offers: the invariant holds
at the end and in the state before every step. -/
theorem Path.invariant {s₀ s : σ} {tr : List (Entry σ ε ω)} {Inv : σ → Prop} (path : M.Path s₀ tr s)
    (base : Inv s₀)
    (keep : ∀ {s e s' o}, Inv s → M.enabled s e → M.step s e = .ok (s', o) → Inv s') :
    Inv s ∧ ∀ entry ∈ tr, Inv entry.pre := by
  induction path with
  | start => exact ⟨base, fun _ h => absurd h List.not_mem_nil⟩
  | step _ en st ih =>
    refine ⟨keep ih.1 en st, fun entry h => ?_⟩
    rcases List.mem_append.mp h with h | h
    · exact ih.2 entry h
    · rw [List.mem_singleton.mp h]; exact ih.1

/-- THE STEP RULE. What every step from a state with the invariant does, every step of a run does.
-/
theorem Path.each {s₀ s : σ} {tr : List (Entry σ ε ω)} {I : σ → Prop} {Q : Entry σ ε ω → Prop}
    (path : M.Path s₀ tr s) (base : I s₀) (keep : ∀ {s e s' o}, I s → M.enabled s e →
      M.step s e = .ok (s', o) → I s') (does : ∀ {s e s' o}, I s → M.enabled s e →
      M.step s e = .ok (s', o) → Q ⟨s, e, o⟩) : ∀ entry ∈ tr, Q entry := by
  induction path with
  | start => exact fun _ h => absurd h List.not_mem_nil
  | step path en st ih =>
    intro entry h
    rcases List.mem_append.mp h with h | h
    · exact ih entry h
    · rw [List.mem_singleton.mp h]
      exact does (path.invariant base keep).1 en st

/-- The invariant rule for the last state alone. -/
theorem Reachable.invariant {s₀ s : σ} {Inv : σ → Prop} (reach : M.Reachable s₀ s) (base : Inv s₀)
    (keep : ∀ {s e s' o}, Inv s → M.enabled s e → M.step s e = .ok (s', o) → Inv s') : Inv s := by
  obtain ⟨tr, path⟩ := reach
  exact (path.invariant base keep).1

/-- A run that goes on is reachable again. -/
theorem Reachable.step {s₀ s s' : σ} {e : ε} {o : ω} (reach : M.Reachable s₀ s) (en : M.enabled s e)
    (st : M.step s e = .ok (s', o)) : M.Reachable s₀ s' := by
  obtain ⟨tr, path⟩ := reach
  exact ⟨_, path.step en st⟩

theorem Reachable.start (s₀ : σ) : M.Reachable s₀ s₀ := ⟨[], .start⟩

/-- `P` holds in every state of the run. -/
def Always (P : σ → Prop) (tr : List (Entry σ ε ω)) (s : σ) : Prop :=
  (∀ entry ∈ tr, P entry.pre) ∧ P s

/-- Every step of the run meets `C`. -/
def Meets (C : σ → ε → Prop) (tr : List (Entry σ ε ω)) : Prop :=
  ∀ entry ∈ tr, C entry.pre entry.event

theorem meets_append {C : σ → ε → Prop} {tr : List (Entry σ ε ω)} {entry : Entry σ ε ω} :
    Meets C (tr ++ [entry]) ↔ Meets C tr ∧ C entry.pre entry.event := by
  simp only [Meets, List.mem_append, List.mem_singleton, or_imp, forall_and, forall_eq]

/-- Where an invariant holds, a condition may follow from another. -/
theorem Path.meets_of {s₀ s : σ} {tr : List (Entry σ ε ω)} {I : σ → Prop} {C C' : σ → ε → Prop}
    (path : M.Path s₀ tr s) (base : I s₀)
    (keep : ∀ {s e s' o}, I s → M.enabled s e → M.step s e = .ok (s', o) → I s')
    (follows : ∀ {s e}, I s → C s e → C' s e) (meets : Meets C tr) : Meets C' tr :=
  fun entry h => follows ((path.invariant base keep).2 entry h) (meets entry h)

/-- The invariant rule for the runs whose steps all meet a condition. -/
theorem Path.invariant_of_meets {s₀ s : σ} {tr : List (Entry σ ε ω)} {I : σ → Prop}
    {C : σ → ε → Prop} (path : M.Path s₀ tr s) (base : I s₀) (meets : Meets C tr)
    (keep : ∀ {s e s' o}, I s → M.enabled s e → M.step s e = .ok (s', o) → C s e → I s') : I s := by
  induction path with
  | start => exact base
  | step _ en st ih =>
    obtain ⟨earlier, last⟩ := meets_append.mp meets
    exact keep (ih earlier) en st last

/-- The invariant rule for those runs, with everything the history offers. -/
theorem Path.always_of_meets {s₀ s : σ} {tr : List (Entry σ ε ω)} {I : σ → Prop} {C : σ → ε → Prop}
    (path : M.Path s₀ tr s) (base : I s₀) (meets : Meets C tr)
    (keep : ∀ {s e s' o}, I s → M.enabled s e → M.step s e = .ok (s', o) → C s e → I s') :
    Always I tr s := by
  induction path with
  | start => exact ⟨fun _ h => absurd h List.not_mem_nil, base⟩
  | @step tr s s' e o path en st ih =>
    obtain ⟨earlier, last⟩ := meets_append.mp meets
    have before := ih earlier
    refine ⟨?_, keep before.2 en st last⟩
    intro entry h
    rcases List.mem_append.mp h with h | h
    · exact before.1 entry h
    · rw [List.mem_singleton.mp h]
      exact before.2

/-- THE CONDITION RULE. Under an invariant of all runs, a step from a state with
`P` leads to one with `P` exactly when it meets `C`. Then a run has `P` always
exactly when every step of it meets `C`. -/
theorem Path.always_iff {s₀ s : σ} {tr : List (Entry σ ε ω)} {Inv P : σ → Prop} {C : σ → ε → Prop}
    (path : M.Path s₀ tr s) (base : Inv s₀) (baseP : P s₀)
    (keep : ∀ {s e s' o}, Inv s → M.enabled s e → M.step s e = .ok (s', o) → Inv s')
    (exact_step : ∀ {s e s' o}, Inv s → P s → M.enabled s e → M.step s e = .ok (s', o) →
      (P s' ↔ C s e)) :
    Always P tr s ↔ Meets C tr := by
  induction path with
  | start =>
    exact ⟨fun _ _ h => absurd h List.not_mem_nil,
      fun _ => ⟨fun _ h => absurd h List.not_mem_nil, baseP⟩⟩
  | @step tr s s' e o path en st ih =>
    have inv := (path.invariant base keep).1
    rw [meets_append]
    constructor
    · rintro ⟨before, last⟩
      have hs : P s := before ⟨s, e, o⟩ (List.mem_append_right _ (List.mem_singleton_self _))
      have earlier : Always P tr s := ⟨fun entry h => before entry (List.mem_append_left _ h), hs⟩
      exact ⟨ih.mp earlier, (exact_step inv hs en st).mp last⟩
    · rintro ⟨earlier, last⟩
      have before := ih.mpr earlier
      refine ⟨fun entry h => ?_, (exact_step inv before.2 en st).mpr last⟩
      rcases List.mem_append.mp h with h | h
      · exact before.1 entry h
      · rw [List.mem_singleton.mp h]; exact before.2

/-- THE CONDITION RULE, for an invariant that only lasts as long as the condition is met. From a
state with the invariant, a step that meets `C` leads to one with it, and a step that does not leads
to one without `P`; the invariant implies `P`. -/
theorem Path.always_iff_of_good {s₀ s : σ} {tr : List (Entry σ ε ω)} {G P : σ → Prop}
    {C : σ → ε → Prop} (path : M.Path s₀ tr s) (base : G s₀) (good : ∀ {s}, G s → P s)
    (keep : ∀ {s e s' o}, G s → M.enabled s e → M.step s e = .ok (s', o) → C s e → G s')
    (lose : ∀ {s e s' o}, G s → M.enabled s e → M.step s e = .ok (s', o) → ¬ C s e → ¬ P s') :
    Always P tr s ↔ Meets C tr := by
  have both : (Always P tr s ↔ Meets C tr) ∧ (Meets C tr → G s) := by
    induction path with
    | start =>
      exact ⟨⟨fun _ _ h => absurd h List.not_mem_nil,
        fun _ => ⟨fun _ h => absurd h List.not_mem_nil, good base⟩⟩,
        fun _ => base⟩
    | @step tr s s' e o path en st ih =>
      obtain ⟨iff, last⟩ := ih
      have next : Meets C (tr ++ [⟨s, e, o⟩]) → G s' := fun h => by
        obtain ⟨h, hc⟩ := meets_append.mp h
        exact keep (last h) en st hc
      refine ⟨⟨?_, fun h => ?_⟩, next⟩
      · rintro ⟨before, hs'⟩
        have hs : P s := before ⟨s, e, o⟩ (List.mem_append_right _ (List.mem_singleton_self _))
        have meets := iff.mp ⟨fun entry h => before entry (List.mem_append_left _ h), hs⟩
        refine meets_append.mpr ⟨meets, ?_⟩
        by_contra hc
        exact lose (last meets) en st hc hs'
      · have meets := (meets_append.mp h).1
        have before := iff.mpr meets
        refine ⟨fun entry hmem => ?_, good (next h)⟩
        rcases List.mem_append.mp hmem with hmem | hmem
        · exact before.1 entry hmem
        · rw [List.mem_singleton.mp hmem]
          exact before.2
  exact both.1

/-! ## Refinement -/

/-- A run of an abstract system with the events and the outputs of a run of the machine. -/
inductive Follows {α : Type} (R : α → ε → ω → α → Prop) (a₀ : α) : List (Entry σ ε ω) → α → Prop
  | start : Follows R a₀ [] a₀
  | step {tr : List (Entry σ ε ω)} {entry : Entry σ ε ω} {a a' : α} :
      Follows R a₀ tr a → R a entry.event entry.out a' → Follows R a₀ (tr ++ [entry]) a'

/-- THE REFINEMENT RULE, for the runs whose steps all meet a condition. A step from a state that
shows an abstract one leads to a state that shows what the abstract system makes of it; then so does
a run. -/
theorem Path.refines {s₀ s : σ} {tr : List (Entry σ ε ω)} {α : Type} {R : α → ε → ω → α → Prop}
    {Shows : σ → α → Prop} {C : σ → ε → Prop} {a₀ : α} (path : M.Path s₀ tr s) (base : Shows s₀ a₀)
    (meets : Meets C tr) (keep : ∀ {s e s' o a}, Shows s a → M.enabled s e →
      M.step s e = .ok (s', o) → C s e → ∃ a', R a e o a' ∧ Shows s' a') :
    ∃ a, Follows R a₀ tr a ∧ Shows s a := by
  induction path with
  | start => exact ⟨a₀, .start, base⟩
  | step path en st ih =>
    obtain ⟨earlier, last⟩ := meets_append.mp meets
    obtain ⟨a, follows, shows⟩ := ih earlier
    obtain ⟨a', does, shows'⟩ := keep shows en st last
    exact ⟨a', follows.step does, shows'⟩

/-! ## Running a machine -/

section Exec

variable (M) [∀ s e, Decidable (M.enabled s e)]

/-- The state after a list of events, when each of them is enabled and none faults. -/
def exec (s : σ) : List ε → Option σ
  | [] => some s
  | e :: es =>
    if M.enabled s e then
      match M.step s e with
      | .ok (s', _) => exec s' es
      | .error _ => none
    else none

theorem Path.exec {s₀ s s' : σ} {tr : List (Entry σ ε ω)} {es : List ε} (path : M.Path s₀ tr s)
    (run : M.exec s es = some s') : ∃ tr', M.Path s₀ tr' s' := by
  induction es generalizing tr s with
  | nil => cases run; exact ⟨tr, path⟩
  | cons e es ih =>
    unfold Machine.exec at run
    split at run
    next en =>
      split at run
      next s₁ o st => exact ih (path.step en st) run
      next => cases run
    next => cases run

theorem exec_path {s₀ s : σ} {es : List ε} (run : M.exec s₀ es = some s) : ∃ tr, M.Path s₀ tr s :=
  Path.exec M .start run

variable (C : σ → ε → Prop) [∀ s e, Decidable (C s e)]

/-- The outputs of a list of events and the state after it, when each of them is enabled and meets
`C`, and none faults. -/
def replay (s : σ) : List ε → Option (List ω × σ)
  | [] => some ([], s)
  | e :: es =>
    if M.enabled s e ∧ C s e then
      match M.step s e with
      | .ok (s', o) => (replay s' es).map fun r => (o :: r.1, r.2)
      | .error _ => none
    else none

theorem Path.replay {s₀ s s' : σ} {tr : List (Entry σ ε ω)} {es : List ε} {os : List ω}
    (path : M.Path s₀ tr s) (run : M.replay C s es = some (os, s')) :
    ∃ tr', M.Path s₀ (tr ++ tr') s' ∧ tr'.map (·.event) = es ∧ tr'.map (·.out) = os ∧
      Meets C tr' := by
  induction es generalizing tr s os with
  | nil =>
    cases run
    exact ⟨[], by rwa [List.append_nil], rfl, rfl, fun _ h => absurd h List.not_mem_nil⟩
  | cons e es ih =>
    unfold Machine.replay at run
    split at run
    next en =>
      split at run
      next s₁ o st =>
        obtain ⟨⟨os', s₂⟩, hrest, hr⟩ := Option.map_eq_some_iff.mp run
        cases hr
        obtain ⟨tr', path', events, outs, meets⟩ := ih (path.step en.1 st) hrest
        refine ⟨⟨s, e, o⟩ :: tr', by rwa [List.append_cons], ?_, ?_, ?_⟩
        · rw [List.map_cons, events]
        · rw [List.map_cons, outs]
        · intro entry h
          rcases List.mem_cons.mp h with rfl | h
          · exact en.2
          · exact meets entry h
      next => cases run
    next => cases run

/-- THE REPLAY RULE. A list of events that can be replayed is a run, its steps meet `C`, and what
can be computed of its outputs and its last state holds of the run. -/
theorem replay_path (s₀ : σ) (es : List ε) (P : List ω → σ → Prop) [∀ os s, Decidable (P os s)]
    (run : ((M.replay C s₀ es).map fun r => decide (P r.1 r.2)) = some true) :
    ∃ tr s, M.Path s₀ tr s ∧ tr.map (·.event) = es ∧ Meets C tr ∧ P (tr.map (·.out)) s := by
  obtain ⟨⟨os, s⟩, hr, hP⟩ := Option.map_eq_some_iff.mp run
  obtain ⟨tr, path, events, outs, meets⟩ := Path.replay M C .start hr
  exact ⟨tr, s, path, events, meets, outs ▸ of_decide_eq_true hP⟩

end Exec

end Machine

end SeekingOs.Lib
