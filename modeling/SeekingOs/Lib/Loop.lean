import SeekingOs.Lib.Outcome

/-!
# `while` loops

The body of a loop takes a state and either goes round again or leaves with an answer. A run is cut
off after a number of turns, so a loop that never leaves never answers. The rule is the usual one:
an invariant, a measure that falls with every turn, and what holds on leaving.
-/

namespace SeekingOs.Lib

variable {φ σ α β : Type}

/-- What a turn of a loop ends with. -/
inductive Turn (σ α : Type) where
  | again (s : σ)
  | leave (a : α)
  deriving DecidableEq, Repr

/-- Why a run has no answer. -/
inductive Cut (φ : Type) where
  | stopped (fault : φ)
  /-- The turns ran out. -/
  | spent
  deriving DecidableEq, Repr

/-- A part without a loop. -/
def once : Except φ α → Except (Cut φ) α
  | .ok a => .ok a
  | .error e => .error (.stopped e)

/-- A loop, cut off after `turns` turns. -/
def whileLoop (body : σ → Except φ (Turn σ α)) : Nat → σ → Except (Cut φ) α
  | 0, _ => .error .spent
  | turns + 1, s =>
    match body s with
    | .error e => .error (.stopped e)
    | .ok (.leave a) => .ok a
    | .ok (.again s') => whileLoop body turns s'

@[simp] theorem once_ok (a : α) : once (.ok a : Except φ α) = .ok a := rfl

variable {body : σ → Except φ (Turn σ α)} {turns : Nat} {s s' : σ}

theorem whileLoop_leave {a : α} (h : body s = .ok (.leave a)) :
    whileLoop body (turns + 1) s = .ok a := by
  simp [whileLoop, h]

theorem whileLoop_again (h : body s = .ok (.again s')) :
    whileLoop body (turns + 1) s = whileLoop body turns s' := by
  simp [whileLoop, h]

/-- THE RULE FOR A LOOP THAT COMPUTES A FUNCTION. A turn from a state of the invariant leaves with
the value of the function there, or goes on to a state of the invariant with the same value and a
smaller measure. -/
theorem whileLoop_eq (I : σ → Prop) (measure : σ → Nat) (value : σ → α)
    (turn : ∀ s, I s → body s = .ok (.leave (value s)) ∨
      ∃ s', body s = .ok (.again s') ∧ I s' ∧ value s' = value s ∧ measure s' < measure s) :
    ∀ {turns : Nat} {s : σ}, I s → measure s < turns → whileLoop body turns s = .ok (value s) := by
  intro turns
  induction turns with
  | zero => intro s _ h; exact absurd h (Nat.not_lt_zero _)
  | succ turns ih =>
    intro s inv h
    rcases turn s inv with leaves | ⟨s', goes, inv', same, less⟩
    · exact whileLoop_leave leaves
    · rw [whileLoop_again goes, ← same]
      exact ih inv' (by omega)

end SeekingOs.Lib
