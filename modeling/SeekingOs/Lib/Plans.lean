import Mathlib.Data.List.Basic
import SeekingOs.Lib.Outcome

/-!
# Computations that follow a plan

A plan says which requests a computation makes, and what it answers, without a state. The
computation serves them on a state, and a record is kept of what it touches, also when it ends in a
fault. Requests may be outside of what is allowed; whether one is may depend on those before it. A
computation follows a plan when it serves the requests in order, touches nothing that is not allowed
before the first request outside, and touches something there unless it faults.
-/

namespace SeekingOs.Lib

/-- The requests, and the answer or the fault at the end. -/
def Plan (φ ρ α : Type) : Type := List ρ × Except φ α

/-- A state, and what has been touched. -/
structure Recorded (σ τ : Type) where
  state : σ
  touched : List τ

/-- A computation on a state that keeps its record when it faults. -/
def Acts (φ σ τ α : Type) : Type := Recorded σ τ → Except φ α × Recorded σ τ

variable {φ ρ σ τ α β : Type}

/-- The requests of both, one after the other. -/
def Plan.andThen (p : Plan φ ρ α) (f : α → Plan φ ρ β) : Plan φ ρ β :=
  match p.2 with
  | .ok a => (p.1 ++ (f a).1, (f a).2)
  | .error e => (p.1, .error e)

instance : Monad (Plan φ ρ) where
  pure a := ([], .ok a)
  bind := Plan.andThen

/-- One computation after the other. -/
def Acts.andThen (x : Acts φ σ τ α) (f : α → Acts φ σ τ β) : Acts φ σ τ β := fun s =>
  match x s with
  | (.ok a, s) => f a s
  | (.error e, s) => (.error e, s)

instance : Monad (Acts φ σ τ) where
  pure a := fun s => (.ok a, s)
  bind := Acts.andThen

/-- What needs no request. -/
def Plan.of (r : Except φ α) : Plan φ ρ α := ([], r)

/-- A request, with the answer that is expected of it. -/
def Plan.ask (r : ρ) (a : α) : Plan φ ρ α := ([r], .ok a)

/-- What needs no state. -/
def Acts.of (r : Except φ α) : Acts φ σ τ α := fun s => (r, s)

theorem Acts.bind_ok {x : Acts φ σ τ α} {f : α → Acts φ σ τ β} {s s' : Recorded σ τ} {a : α}
    (h : x s = (.ok a, s')) : (x >>= f) s = f a s' := by
  show x.andThen f s = _
  unfold Acts.andThen
  rw [h]

theorem Acts.bind_error {x : Acts φ σ τ α} {f : α → Acts φ σ τ β} {s s' : Recorded σ τ} {e : φ}
    (h : x s = (.error e, s')) : (x >>= f) s = (.error e, s') := by
  show x.andThen f s = _
  unfold Acts.andThen
  rw [h]

/-- What is allowed, and what holds of the state after the requests so far. -/
structure Bounds (ρ σ τ : Type) where
  outside : List ρ → ρ → Prop
  inside : τ → Prop
  inv : List ρ → σ → Prop

variable (bounds : Bounds ρ σ τ)

/-- No request of the list is outside, after those of the first one. -/
def Bounds.NoneOutside : List ρ → List ρ → Prop
  | _, [] => True
  | before, r :: rest => ¬ bounds.outside before r ∧ Bounds.NoneOutside (before ++ [r]) rest

/-- What came of a plan: it was served, the computation faulted before it touched anything else, or
it touched something that is not allowed. -/
inductive Serves (before : List ρ) (p : Plan φ ρ α) (r : Except φ α × Recorded σ τ) : Prop where
  | served (none : bounds.NoneOutside before p.1) (inv : bounds.inv (before ++ p.1) r.2.state)
    (inside : ∀ t ∈ r.2.touched, bounds.inside t) (answer : r.1 = p.2)
  | faulted (e : φ) (fault : r.1 = .error e) (inside : ∀ t ∈ r.2.touched, bounds.inside t)
  | touched (some : ¬ bounds.NoneOutside before p.1) (t : τ) (mem : t ∈ r.2.touched)
      (out : ¬ bounds.inside t)

/-- THE COMPUTATION FOLLOWS THE PLAN, from every state in which the invariant holds. -/
structure Follows (x : Acts φ σ τ α) (p : Plan φ ρ α) : Prop where
  grows : ∀ s, ∀ t ∈ s.touched, t ∈ (x s).2.touched
  serves : ∀ before s, bounds.inv before s.state → (∀ t ∈ s.touched, bounds.inside t) →
    Serves bounds before p (x s)

variable {bounds} {x : Acts φ σ τ α} {p : Plan φ ρ α} {f : α → Acts φ σ τ β} {g : α → Plan φ ρ β}

theorem Bounds.noneOutside_append {before xs ys : List ρ} :
    bounds.NoneOutside before (xs ++ ys) ↔ bounds.NoneOutside before xs ∧
    bounds.NoneOutside (before ++ xs) ys := by
  induction xs generalizing before with
  | nil => simp [Bounds.NoneOutside]
  | cons r xs ih =>
    show (¬ bounds.outside before r ∧ bounds.NoneOutside (before ++ [r]) (xs ++ ys)) ↔
      (¬ bounds.outside before r ∧ bounds.NoneOutside (before ++ [r]) xs) ∧
      bounds.NoneOutside (before ++ ([r] ++ xs)) ys
    rw [ih, and_assoc, List.append_assoc]

/-- The same, request by request. -/
theorem Bounds.noneOutside_iff {before xs : List ρ} :
    bounds.NoneOutside before xs ↔ ∀ pre r post, xs = pre ++ r :: post →
      ¬ bounds.outside (before ++ pre) r := by
  constructor
  · rintro none pre r post rfl
    exact (Bounds.noneOutside_append.mp none).2.1
  · intro none
    induction xs generalizing before with
    | nil => trivial
    | cons r xs ih =>
      refine ⟨?_, ih fun pre r' post h => ?_⟩
      · have first := none [] r xs rfl
        rwa [List.append_nil] at first
      · have later := none (r :: pre) r' post (by rw [h]; rfl)
        rwa [List.append_cons] at later

theorem follows_of (r : Except φ α) : Follows bounds (Acts.of r) (Plan.of r) where
  grows _ _ h := h
  serves before s inv inside := by
    refine .served trivial ?_ inside rfl
    show bounds.inv (before ++ []) s.state
    rwa [List.append_nil]

theorem follows_pure (a : α) : Follows bounds (pure a : Acts φ σ τ α) (pure a : Plan φ ρ α) :=
  follows_of (.ok a)

/-- THE SEQUENCE RULE. -/
theorem Follows.bind (h : Follows bounds x p) (next : ∀ a, Follows bounds (f a) (g a)) :
    Follows bounds (x >>= f) (p >>= g) where
  grows s t ht := by
    have first := h.grows s t ht
    rcases hx : x s with ⟨r, s'⟩
    rw [hx] at first
    cases r with
    | error e =>
      rw [Acts.bind_error hx]
      exact first
    | ok a =>
      rw [Acts.bind_ok hx]
      exact (next a).grows s' t first
  serves before s inv inside := by
    have first := h.serves before s inv inside
    obtain ⟨asked, answer⟩ := p
    rcases hx : x s with ⟨r, s'⟩
    rw [hx] at first
    cases first with
    | served none inv' inside' same =>
      obtain rfl : r = answer := same
      cases r with
      | error e =>
        rw [Acts.bind_error hx]
        exact .served none inv' inside' rfl
      | ok a =>
        rw [Acts.bind_ok hx]
        cases (next a).serves (before ++ asked) s' inv' inside' with
        | served none₂ inv₂ inside₂ same₂ =>
          refine .served (Bounds.noneOutside_append.mpr ⟨none, none₂⟩) ?_ inside₂ same₂
          rwa [List.append_assoc] at inv₂
        | faulted e fault inside₂ => exact .faulted e fault inside₂
        | touched some t mem out =>
          exact .touched (fun all => some (Bounds.noneOutside_append.mp all).2) t mem out
    | faulted e fault inside' =>
      obtain rfl : r = .error e := fault
      rw [Acts.bind_error hx]
      exact .faulted e rfl inside'
    | touched some t mem out =>
      have before' (more : List ρ) : ¬ bounds.NoneOutside before (asked ++ more) :=
        fun all => some (Bounds.noneOutside_append.mp all).1
      cases r with
      | error e =>
        rw [Acts.bind_error hx]
        cases answer with
        | error _ => exact .touched some t mem out
        | ok a => exact .touched (before' _) t mem out
      | ok a =>
        rw [Acts.bind_ok hx]
        cases answer with
        | error _ => exact .touched some t ((next a).grows s' t mem) out
        | ok _ => exact .touched (before' _) t ((next a).grows s' t mem) out

/-- A branch on what both know. -/
theorem Follows.ite {c : Prop} [Decidable c] {y : Acts φ σ τ α} {q : Plan φ ρ α}
    (yes : c → Follows bounds x p) (no : ¬ c → Follows bounds y q) :
    Follows bounds (if c then x else y) (if c then p else q) := by
  by_cases h : c
  · rw [if_pos h, if_pos h]
    exact yes h
  · rw [if_neg h, if_neg h]
    exact no h

/-- THE VERDICT. A computation that follows a plan touches only what is allowed when no request is
outside; when one is, it touches something else or faults. -/
theorem Follows.verdict (h : Follows bounds x p) {s : σ} (inv : bounds.inv [] s) :
    (bounds.NoneOutside [] p.1 → ∀ t ∈ (x ⟨s, []⟩).2.touched, bounds.inside t) ∧
      (¬ bounds.NoneOutside [] p.1 → (∃ t ∈ (x ⟨s, []⟩).2.touched, ¬ bounds.inside t) ∨
        ∃ e, (x ⟨s, []⟩).1 = .error e) := by
  cases h.serves [] ⟨s, []⟩ inv (fun t ht => absurd ht List.not_mem_nil) with
  | served none _ inside _ => exact ⟨fun _ => inside, fun some => absurd none some⟩
  | faulted e fault inside => exact ⟨fun _ => inside, fun _ => .inr ⟨e, fault⟩⟩
  | touched some t mem out => exact ⟨fun none => absurd none some, fun _ => .inl ⟨t, mem, out⟩⟩

end SeekingOs.Lib
