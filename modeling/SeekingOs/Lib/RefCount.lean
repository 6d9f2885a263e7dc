import Mathlib.Data.List.Perm.Basic
import Mathlib.Logic.Function.Basic

/-!
# Reference counts

`RefCounts linked cnt held`: the objects in use are `linked`, each once, `cnt` is what each one says
about the number of its references, and `held` lists the references themselves.

A reference is taken to an object in use or to one that is not yet; a reference is given back, or
the last one is and the object goes. `RefCounts.unique` says that the references are determined: a
reference that is lost stays visible in the counts for ever.
-/

namespace SeekingOs.Lib

variable {κ : Type} [DecidableEq κ]

/-- Every object in use says how often it is held, and only those that are held are in use. -/
structure RefCounts (linked : List κ) (cnt : κ → Nat) (held : List κ) : Prop where
  nodup : linked.Nodup
  mem : ∀ k, k ∈ linked ↔ k ∈ held
  count : ∀ k ∈ linked, cnt k = held.count k

namespace RefCounts

variable {linked held held' : List κ} {cnt : κ → Nat} {k : κ}

/-- The order of the references does not matter. -/
theorem perm (c : RefCounts linked cnt held) (p : held.Perm held') :
    RefCounts linked cnt held' where
  nodup := c.nodup
  mem j := (c.mem j).trans p.mem_iff
  count j hj := (c.count j hj).trans (p.count_eq j)

/-- Counts of objects that are not in use do not matter. -/
theorem congr {cnt' : κ → Nat} (c : RefCounts linked cnt held)
    (same : ∀ k ∈ linked, cnt' k = cnt k) : RefCounts linked cnt' held where
  nodup := c.nodup
  mem := c.mem
  count j hj := (same j hj).trans (c.count j hj)

theorem pos (c : RefCounts linked cnt held) (hk : k ∈ linked) : 0 < cnt k := by
  rw [c.count k hk]
  exact List.count_pos_iff.mpr ((c.mem k).mp hk)

theorem le (c : RefCounts linked cnt held) (hk : k ∈ linked) : cnt k ≤ held.length := by
  rw [c.count k hk]
  exact List.count_le_length

/-- One more reference to an object in use. -/
theorem again (c : RefCounts linked cnt held) (hk : k ∈ linked) :
    RefCounts linked (Function.update cnt k (cnt k + 1)) (k :: held) where
  nodup := c.nodup
  mem j := by
    rw [c.mem j, List.mem_cons]
    refine ⟨.inr, fun h => h.elim (fun e => ?_) id⟩
    rw [e]
    exact (c.mem k).mp hk
  count j hj := by
    by_cases e : j = k
    · rw [e, Function.update_self, List.count_cons_self, c.count k hk]
    · rw [Function.update_of_ne e, List.count_cons_of_ne (Ne.symm e), c.count j hj]

/-- The first reference to an object. -/
theorem first (c : RefCounts linked cnt held) (hk : k ∉ linked) :
    RefCounts (k :: linked) (Function.update cnt k 1) (k :: held) where
  nodup := List.nodup_cons.mpr ⟨hk, c.nodup⟩
  mem j := by rw [List.mem_cons, List.mem_cons, c.mem j]
  count j hj := by
    have none : held.count k = 0 := List.count_eq_zero.mpr fun h => hk ((c.mem k).mpr h)
    by_cases e : j = k
    · rw [e, Function.update_self, List.count_cons_self, none]
    · rw [Function.update_of_ne e, List.count_cons_of_ne (Ne.symm e)]
      exact c.count j ((List.mem_cons.mp hj).resolve_left e)

/-- An object that is held says so. -/
theorem count_cons (c : RefCounts linked cnt (k :: held)) : cnt k = held.count k + 1 := by
  rw [c.count k ((c.mem k).mpr List.mem_cons_self), List.count_cons_self]

/-- A reference is given back, and there are others. -/
theorem drop (c : RefCounts linked cnt (k :: held)) (more : cnt k ≠ 1) :
    RefCounts linked (Function.update cnt k (cnt k - 1)) held where
  nodup := c.nodup
  mem j := by
    have hk := c.count_cons
    rw [c.mem j, List.mem_cons]
    refine ⟨fun h => h.elim (fun e => ?_) id, .inr⟩
    rw [e, ← List.count_pos_iff]
    omega
  count j hj := by
    by_cases e : j = k
    · rw [e, Function.update_self, c.count_cons, Nat.add_sub_cancel]
    · rw [Function.update_of_ne e, c.count j hj, List.count_cons_of_ne (Ne.symm e)]

/-- The last reference is given back: the object is in use no longer. -/
theorem last (c : RefCounts linked cnt (k :: held)) (one : cnt k = 1) (n : Nat) :
    RefCounts (linked.erase k) (Function.update cnt k n) held where
  nodup := c.nodup.erase k
  mem j := by
    have hk := c.count_cons
    have none : k ∉ held := by
      rw [← List.count_eq_zero]
      omega
    rw [c.nodup.mem_erase_iff, c.mem j, List.mem_cons]
    constructor
    · rintro ⟨hne, rfl | h⟩
      · exact absurd rfl hne
      · exact h
    · intro h
      refine ⟨fun e => none ?_, .inr h⟩
      rw [← e]
      exact h
  count j hj := by
    obtain ⟨e, hj⟩ := c.nodup.mem_erase_iff.mp hj
    rw [Function.update_of_ne e, c.count j hj, List.count_cons_of_ne (Ne.symm e)]

/-- The counts determine the references. -/
theorem unique (c : RefCounts linked cnt held) (c' : RefCounts linked cnt held') :
    held.Perm held' := by
  rw [List.perm_iff_count]
  intro j
  by_cases hj : j ∈ linked
  · rw [← c.count j hj, c'.count j hj]
  · rw [List.count_eq_zero.mpr fun h => hj ((c.mem j).mpr h),
      List.count_eq_zero.mpr fun h => hj ((c'.mem j).mpr h)]

end RefCounts

end SeekingOs.Lib
