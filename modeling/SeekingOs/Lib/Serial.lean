import Mathlib.Data.List.Basic

/-!
# Histories in which one operation comes after another

Operations on a state that are carried out piece by piece are as good as whole ones when their
history is `Serial`: whoever replays it from the start, one operation after another, gets the
answers that were given, and the state that there is.
-/

namespace SeekingOs.Lib

variable {ω σ α : Type} {apply : ω → σ → σ × α} {s₀ s : σ} {h : List (ω × α)}

/-- The history of operations and answers leads from `s₀` to the state. -/
inductive Serial (apply : ω → σ → σ × α) (s₀ : σ) : List (ω × α) → σ → Prop
  | start : Serial apply s₀ [] s₀
  | next {h : List (ω × α)} {s : σ} (o : ω) : Serial apply s₀ h s →
      Serial apply s₀ (h ++ [(o, (apply o s).2)]) (apply o s).1

/-- One more operation, with its answer and its outcome. -/
theorem Serial.next_of (serial : Serial apply s₀ h s) {o : ω} {a : α} {s' : σ}
    (ha : (apply o s).2 = a) (hs : (apply o s).1 = s') : Serial apply s₀ (h ++ [(o, a)]) s' := by
  subst ha hs
  exact serial.next o

/-- There is only one state that a history leads to: that of its operations, one after another. -/
theorem Serial.eq_foldl (serial : Serial apply s₀ h s) :
    s = h.foldl (fun s o => (apply o.1 s).1) s₀ := by
  induction serial with
  | start => rfl
  | next o _ ih => rw [List.foldl_append, ← ih]; rfl

end SeekingOs.Lib
