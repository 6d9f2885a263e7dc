import Mathlib.Data.Nat.Basic
import Mathlib.Order.Basic

/-!
# An array that is kept in pieces

An array is kept in pieces of `n` cells, and `place k` says where piece `k` is: cell `i` of the
array is cell `laid n place i` of the store. When no two pieces are in one place, no two cells are.

A loop over a part of the array takes turns: each goes up to the end of its piece or to the end of
what is left, and stays inside one piece.
-/

namespace SeekingOs.Lib

variable {n : Nat} {place : Nat → Nat}

/-- Where cell `i` is. -/
def laid (n : Nat) (place : Nat → Nat) (i : Nat) : Nat := n * place (i / n) + i % n

/-- The place that a cell is in. -/
theorem laid_div (hn : 0 < n) (place : Nat → Nat) (i : Nat) :
    laid n place i / n = place (i / n) := by
  unfold laid
  rw [Nat.mul_add_div hn, Nat.div_eq_of_lt (Nat.mod_lt i hn), Nat.add_zero]

/-- How many cells a turn takes from cell `pos` on when `left` are left. -/
def turn (n pos left : Nat) : Nat := min left (n - pos % n)

theorem turn_le (n pos left : Nat) : turn n pos left ≤ left := min_le_left _ _

/-- A turn takes something. -/
theorem turn_pos {pos left : Nat} (hn : 0 < n) (h : 0 < left) : 0 < turn n pos left := by
  have := Nat.mod_lt pos hn
  unfold turn
  omega

/-- A turn stays inside its piece. -/
theorem mod_add_turn_le (hn : 0 < n) (pos left : Nat) : pos % n + turn n pos left ≤ n := by
  have := Nat.mod_lt pos hn
  unfold turn
  omega

/-- A turn that does not come to the end of what is left comes to the end of its piece. -/
theorem turn_full {pos left : Nat} (hn : 0 < n) (h : turn n pos left < left) :
    (pos + turn n pos left) % n = 0 := by
  have hlt := Nat.mod_lt pos hn
  have hturn : turn n pos left = n - pos % n := by
    unfold turn at h ⊢
    omega
  have hdiv := Nat.div_add_mod pos n
  have hend : pos + turn n pos left = n * (pos / n + 1) := by
    rw [hturn, Nat.mul_add, Nat.mul_one]
    omega
  rw [hend, Nat.mul_mod_right]

/-- The cells of a turn, from the store. -/
theorem laid_turn {pos left j : Nat} (hn : 0 < n) (hj : j < turn n pos left) :
    laid n place (pos + j) = n * place (pos / n) + (pos % n + j) := by
  have hle := mod_add_turn_le hn pos left
  have hdiv := Nat.div_add_mod pos n
  have hpos : pos + j = n * (pos / n) + (pos % n + j) := by omega
  have hlt : pos % n + j < n := by omega
  have hidx : (pos + j) / n = pos / n := by
    rw [hpos, Nat.mul_add_div hn, Nat.div_eq_of_lt hlt, Nat.add_zero]
  have hoff : (pos + j) % n = pos % n + j := by
    rw [hpos, Nat.mul_add_mod, Nat.mod_eq_of_lt hlt]
  unfold laid
  rw [hidx, hoff]

/-- A TURN OF A LOOP THAT WRITES. The store changes in one piece, where the cells before `pos` stay
as they are: up to the end of the turn the array is the old one with the new cells behind it. -/
theorem laid_overwrite {β : Type} {store store' src : Nat → β} {pos left : Nat} (hn : 0 < n)
    (other : ∀ a, a / n ≠ place (pos / n) → store' a = store a)
    (front : ∀ o < pos % n, store' (n * place (pos / n) + o) = store (n * place (pos / n) + o))
    (new : ∀ j < turn n pos left, store' (n * place (pos / n) + (pos % n + j)) = src j) {i : Nat}
    (hi : i < pos + turn n pos left) (inj : place (i / n) = place (pos / n) → i / n = pos / n) :
    store' (laid n place i) = if i < pos then store (laid n place i) else src (i - pos) := by
  by_cases hlt : i < pos
  · rw [if_pos hlt]
    by_cases hpiece : place (i / n) = place (pos / n)
    · have hidx := inj hpiece
      have hoff : i % n < pos % n := by
        have hi := Nat.div_add_mod i n
        have hp := Nat.div_add_mod pos n
        rw [hidx] at hi
        omega
      have := front (i % n) hoff
      rwa [← hpiece] at this
    · apply other
      rw [laid_div hn]
      exact hpiece
  · rw [if_neg hlt]
    have hj : i - pos < turn n pos left := by omega
    have hcell := @laid_turn n place pos left (i - pos) hn hj
    rw [Nat.add_sub_cancel' (Nat.le_of_not_lt hlt)] at hcell
    rw [hcell]
    exact new (i - pos) hj

end SeekingOs.Lib
