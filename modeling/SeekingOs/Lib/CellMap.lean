import Mathlib.Logic.Function.Basic

/-!
# Finite maps in cells

A map from keys to values is kept in cells, each of which is empty or holds one binding.
The cells represent the map when they hold exactly its bindings, each once. Filling an
empty cell with a fresh key inserts, and emptying a cell deletes.
-/

namespace SeekingOs.Lib

variable {ι κ β : Type}

/-- The cells hold the bindings of the map, each of them once. -/
structure Represents (cells : ι → Option (κ × β)) (m : κ → Option β) : Prop where
  sound : ∀ i k v, cells i = some (k, v) → m k = some v
  complete : ∀ k v, m k = some v → ∃ i, cells i = some (k, v)
  once : ∀ i j k v w, cells i = some (k, v) → cells j = some (k, w) → i = j

variable {cells : ι → Option (κ × β)} {m : κ → Option β}

theorem Represents.fresh (r : Represents cells m) {k : κ} (hk : m k = none) (i : ι) (v : β) :
    cells i ≠ some (k, v) := by
  intro h
  have := r.sound i k v h
  rw [hk] at this
  cases this

variable [DecidableEq ι] [DecidableEq κ]

/-- Insertion. -/
theorem Represents.put (r : Represents cells m) {i : ι} {k : κ} (v : β) (hi : cells i = none)
    (hk : m k = none) :
    Represents (Function.update cells i (some (k, v))) (Function.update m k (some v)) := by
  refine ⟨fun j l w h => ?_, fun l w h => ?_, fun j j' l w w' h h' => ?_⟩
  · by_cases hji : j = i
    · rw [hji, Function.update_self] at h
      cases h
      exact Function.update_self _ _ _
    · rw [Function.update_of_ne hji] at h
      have hl := r.sound j l w h
      have hlk : l ≠ k := by
        rintro rfl
        rw [hk] at hl
        cases hl
      rw [Function.update_of_ne hlk, hl]
  · by_cases hlk : l = k
    · rw [hlk, Function.update_self] at h
      cases h
      exact ⟨i, by rw [Function.update_self, hlk]⟩
    · rw [Function.update_of_ne hlk] at h
      obtain ⟨j, hj⟩ := r.complete l w h
      refine ⟨j, ?_⟩
      have hji : j ≠ i := by
        rintro rfl
        rw [hi] at hj
        cases hj
      rw [Function.update_of_ne hji, hj]
  · by_cases hji : j = i <;> by_cases hj'i : j' = i
    · rw [hji, hj'i]
    · rw [hji, Function.update_self] at h
      rw [Function.update_of_ne hj'i] at h'
      cases h
      exact absurd h' (r.fresh hk j' w')
    · rw [hj'i, Function.update_self] at h'
      rw [Function.update_of_ne hji] at h
      cases h'
      exact absurd h (r.fresh hk j w)
    · rw [Function.update_of_ne hji] at h
      rw [Function.update_of_ne hj'i] at h'
      exact r.once j j' l w w' h h'

/-- Deletion. -/
theorem Represents.clear (r : Represents cells m) {i : ι} {k : κ} {v : β}
    (hi : cells i = some (k, v)) :
    Represents (Function.update cells i none) (Function.update m k none) := by
  refine ⟨fun j l w h => ?_, fun l w h => ?_, fun j j' l w w' h h' => ?_⟩
  · by_cases hji : j = i
    · rw [hji, Function.update_self] at h
      cases h
    · rw [Function.update_of_ne hji] at h
      have hlk : l ≠ k := by
        rintro rfl
        exact hji (r.once j i l w v h hi)
      rw [Function.update_of_ne hlk]
      exact r.sound j l w h
  · by_cases hlk : l = k
    · rw [hlk, Function.update_self] at h
      cases h
    · rw [Function.update_of_ne hlk] at h
      obtain ⟨j, hj⟩ := r.complete l w h
      refine ⟨j, ?_⟩
      have hji : j ≠ i := by
        rintro rfl
        rw [hi] at hj
        cases hj
        exact hlk rfl
      rw [Function.update_of_ne hji, hj]
  · by_cases hji : j = i
    · rw [hji, Function.update_self] at h
      cases h
    · by_cases hj'i : j' = i
      · rw [hj'i, Function.update_self] at h'
        cases h'
      · rw [Function.update_of_ne hji] at h
        rw [Function.update_of_ne hj'i] at h'
        exact r.once j j' l w w' h h'

end SeekingOs.Lib
