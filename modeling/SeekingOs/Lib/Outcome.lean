import Mathlib.Logic.Basic

/-!
# What a computation that may fault is sure of

`Ensures E Q r`: when `r` answers, the answer has `Q`; when it faults, the fault
is one of `E`. With `E` empty this is total correctness, and with an `E` that
leaves some faults out it says that those never happen.

The rules follow the shape of a program: an answer, a fault, a sequence, a loop.
`Lockstep R x y` compares two computations: they fail alike, or their answers are
related.
-/

namespace SeekingOs.Lib

variable {φ α β : Type}

/-- The bind rule of `Except`, read backwards: it peels a sequence of calls apart. -/
theorem bind_eq_ok {x : Except φ α} {f : α → Except φ β} {b : β} :
    (x >>= f) = .ok b ↔ ∃ a, x = .ok a ∧ f a = .ok b := by
  cases x with
  | error _ => simp [bind, Except.bind]
  | ok a => simp [bind, Except.bind]

/-- A result is changed, a fault is passed on. -/
theorem map_eq_ok {x : Except φ α} {f : α → β} {b : β} :
    x.map f = .ok b ↔ ∃ a, x = .ok a ∧ f a = b := by
  cases x with
  | error _ => simp [Except.map]
  | ok a => simp [Except.map]

@[simp] theorem ok_bind (a : α) (f : α → Except φ β) :
    ((Except.ok a : Except φ α) >>= f) = f a := rfl

@[simp] theorem error_bind (e : φ) (f : α → Except φ β) :
    ((Except.error e : Except φ α) >>= f) = .error e := rfl

/-- An answer has `Q`, a fault has `E`. -/
def Ensures (E : φ → Prop) (Q : α → Prop) : Except φ α → Prop
  | .ok a => Q a
  | .error e => E e

/-- No fault at all. -/
abbrev Total (Q : α → Prop) (r : Except φ α) : Prop := Ensures (fun _ => False) Q r

variable {E : φ → Prop} {P Q : α → Prop}

@[simp] theorem ensures_ok {a : α} : Ensures E Q (.ok a) ↔ Q a := Iff.rfl

@[simp] theorem ensures_pure {a : α} : Ensures E Q (pure a : Except φ α) ↔ Q a := Iff.rfl

@[simp] theorem ensures_error {e : φ} : Ensures E Q (.error e) ↔ E e := Iff.rfl

theorem Ensures.mono {r : Except φ α} (h : Ensures E P r) (imp : ∀ a, P a → Q a) :
    Ensures E Q r := by
  cases r with
  | ok a => exact imp a h
  | error e => exact h

theorem Ensures.weaken {E' : φ → Prop} {r : Except φ α} (h : Ensures E Q r)
    (imp : ∀ e, E e → E' e) : Ensures E' Q r := by
  cases r with
  | ok a => exact h
  | error e => exact imp e h

/-- THE SEQUENCE RULE. -/
theorem Ensures.bind {R : β → Prop} {x : Except φ α} {f : α → Except φ β} (h : Ensures E P x)
    (next : ∀ a, P a → Ensures E R (f a)) : Ensures E R (x >>= f) := by
  cases x with
  | ok a => exact next a h
  | error e => exact h

theorem Ensures.of_ok {r : Except φ α} {a : α} (h : Ensures E Q r) (ok : r = .ok a) : Q a := by
  rw [ok] at h; exact h

theorem Ensures.of_error {r : Except φ α} {e : φ} (h : Ensures E Q r) (err : r = .error e) :
    E e := by
  rw [err] at h; exact h

/-- An answer has `Q`, and there is one if a condition holds. -/
theorem ensures_of {cond : Prop} {r : Except φ α} (right : ∀ a, r = .ok a → Q a)
    (total : cond → ∃ a, r = .ok a) : Ensures (fun _ => ¬ cond) Q r := by
  cases r with
  | ok a => exact right a rfl
  | error e =>
    intro h
    obtain ⟨a, ha⟩ := total h
    cases ha

theorem total_iff {r : Except φ α} : Total Q r ↔ ∃ a, r = .ok a ∧ Q a := by
  cases r with
  | ok a => simp
  | error e => simp

/-! ## Two computations in lockstep -/

/-- Two computations fail alike, or answer related values. -/
def Lockstep (R : α → β → Prop) : Except φ α → Except φ β → Prop
  | .ok a, .ok b => R a b
  | .error e, .error e' => e = e'
  | _, _ => False

section Lockstep

variable {γ δ : Type} {R S : α → β → Prop} {T : γ → δ → Prop} {x : Except φ α} {y : Except φ β}

theorem Lockstep.mono (h : Lockstep R x y) (imp : ∀ a b, R a b → S a b) : Lockstep S x y := by
  cases x with
  | ok a =>
    cases y with
    | ok b => exact imp a b h
    | error e => exact h
  | error e =>
    cases y with
    | ok b => exact h
    | error e' => exact h

/-- THE SEQUENCE RULE, for two computations. -/
theorem Lockstep.bind {f : α → Except φ γ} {g : β → Except φ δ} (h : Lockstep R x y)
    (next : ∀ a b, x = .ok a → y = .ok b → R a b → Lockstep T (f a) (g b)) :
    Lockstep T (x >>= f) (y >>= g) := by
  cases x with
  | ok a =>
    cases y with
    | ok b => exact next a b rfl rfl h
    | error e => exact h.elim
  | error e =>
    cases y with
    | ok b => exact h.elim
    | error e' => exact h

/-- Both start alike. -/
theorem Lockstep.same {f : α → Except φ γ} {g : α → Except φ δ}
    (next : ∀ a, x = .ok a → Lockstep T (f a) (g a)) : Lockstep T (x >>= f) (x >>= g) := by
  cases x with
  | ok a => exact next a rfl
  | error e => rfl

theorem Lockstep.of_ok {b : β} (h : Lockstep R x y) (ok : y = .ok b) : ∃ a, x = .ok a ∧ R a b := by
  subst ok
  cases x with
  | ok a => exact ⟨a, rfl, h⟩
  | error e => exact h.elim

theorem Lockstep.of_error {e : φ} (h : Lockstep R x y) (err : y = .error e) : x = .error e := by
  subst err
  cases x with
  | ok a => exact h.elim
  | error e' => exact congrArg Except.error h

end Lockstep

/-! ## Loops -/

/-- A loop over the numbers below `n`, in order. -/
def upTo (step : Nat → α → Except φ α) : Nat → α → Except φ α
  | 0, a => .ok a
  | n + 1, a => do
    let a ← upTo step n a
    step n a

/-- THE LOOP RULE. What holds at the start and is kept by every turn holds at the end. -/
theorem Ensures.upTo {step : Nat → α → Except φ α} {I : Nat → α → Prop} {n : Nat} {a : α}
    (base : I 0 a) (keep : ∀ i < n, ∀ a, I i a → Ensures E (I (i + 1)) (step i a)) :
    Ensures E (I n) (upTo step n a) := by
  induction n with
  | zero => exact base
  | succ n ih =>
    exact (ih fun i hi => keep i (Nat.lt_succ_of_lt hi)).bind fun b inv =>
      keep n (Nat.lt_succ_self n) b inv

-- the rule is all that is used of a loop; long loops are not to be counted out
attribute [irreducible] upTo

end SeekingOs.Lib
