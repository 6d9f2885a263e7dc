import Mathlib.Data.List.Range
import Mathlib.Logic.Function.Basic
import Mathlib.Tactic.SplitIfs

/-!
# Rings

A queue in an array of fixed size. Items are stored at `head` and read at `tail`, and both
positions wrap round. The cell at `head` is never used, so that a full ring is not an empty one.
-/

namespace SeekingOs.Lib

variable {α : Type} {size head tail n : Nat} {buf : Nat → α}

/-- How far `head` is ahead of `tail`. -/
def ringLength (size head tail : Nat) : Nat :=
  if tail ≤ head then head - tail else size - (tail - head)

/-- The `n` items from `tail` on. -/
def ringItems (size : Nat) (buf : Nat → α) (tail n : Nat) : List α :=
  (List.range n).map fun i => buf ((tail + i) % size)

/-- The position after `pos`. -/
theorem ring_next {pos : Nat} (h : pos < size) :
    (pos + 1) % size = if pos + 1 = size then 0 else pos + 1 := by
  split
  next e => rw [e, Nat.mod_self]
  next e => exact Nat.mod_eq_of_lt (by omega)

theorem ringLength_lt (hh : head < size) : ringLength size head tail < size := by
  unfold ringLength
  split <;> omega

/-- The items end where `head` is. -/
theorem ring_head (hh : head < size) (ht : tail < size) :
    (tail + ringLength size head tail) % size = head := by
  unfold ringLength
  split
  · rw [show tail + (head - tail) = head by omega]
    exact Nat.mod_eq_of_lt hh
  · rw [show tail + (size - (tail - head)) = head + size by omega, Nat.add_mod_right]
    exact Nat.mod_eq_of_lt hh

theorem ringLength_eq_zero (ht : tail < size) : ringLength size head tail = 0 ↔ head = tail := by
  unfold ringLength
  split <;> omega

theorem ringLength_full (hh : head < size) (ht : tail < size) :
    ringLength size head tail + 1 = size ↔ (head + 1) % size = tail := by
  rw [ring_next hh]
  unfold ringLength
  split_ifs <;> omega

theorem ringLength_push (hh : head < size) (ht : tail < size) (room : (head + 1) % size ≠ tail) :
    ringLength size ((head + 1) % size) tail = ringLength size head tail + 1 := by
  rw [ring_next hh] at room ⊢
  unfold ringLength
  split_ifs at room ⊢ <;> omega

theorem ringLength_pop (hh : head < size) (ht : tail < size) (some : head ≠ tail) :
    ringLength size head tail = ringLength size head ((tail + 1) % size) + 1 := by
  rw [ring_next ht]
  unfold ringLength
  split_ifs <;> omega

@[simp] theorem length_ringItems : (ringItems size buf tail n).length = n := by
  simp [ringItems]

/-- An item is stored behind the others. -/
theorem ringItems_push (hn : n < size) (x : α) :
    ringItems size (Function.update buf ((tail + n) % size) x) tail (n + 1) =
      ringItems size buf tail n ++ [x] := by
  unfold ringItems
  rw [List.range_succ, List.map_append, List.map_singleton, Function.update_self]
  congr 1
  apply List.map_congr_left
  intro i hi
  have hi : i < n := List.mem_range.mp hi
  apply Function.update_of_ne
  intro e
  -- two places of one ring are apart by less than its size
  have apart : (tail + n) % size = (tail + i) % size := e.symm
  have := Nat.sub_mod_eq_zero_of_mod_eq apart
  rw [show tail + n - (tail + i) = n - i by omega, Nat.mod_eq_of_lt (by omega)] at this
  omega

/-- The first item is the one at `tail`. -/
theorem ringItems_pop (ht : tail < size) :
    ringItems size buf tail (n + 1) = buf tail :: ringItems size buf ((tail + 1) % size) n := by
  unfold ringItems
  rw [List.range_succ_eq_map, List.map_cons, List.map_map, Nat.add_zero, Nat.mod_eq_of_lt ht]
  congr 1
  apply List.map_congr_left
  intro i _
  show buf ((tail + (i + 1)) % size) = _
  rw [Nat.mod_add_mod, show tail + (i + 1) = tail + 1 + i by omega]

end SeekingOs.Lib
