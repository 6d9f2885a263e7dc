import Mathlib.Logic.Function.Basic

/-!
# Rooted trees with names

A node hangs below another one, under a name, and is of some kind; the root hangs nowhere. Only
nodes of an inner kind have others below them, no two below one node have the same name, and from
every node the way up ends at the root.

A new node may be hung below an inner one under a name that is free there, and a node with none
below it may be cut off.
-/

namespace SeekingOs.Lib

/-- Where a node hangs, under which name, and what it is. -/
structure Hang (ι κ τ : Type) where
  parent : ι
  name : κ
  kind : τ

variable {ι κ τ : Type} {root d m n : ι} {inner : τ → Prop} {up : ι → Option (Hang ι κ τ)}
  {h : Hang ι κ τ}

/-- The way up from a node ends at the root. -/
inductive Below (root : ι) (up : ι → Option (Hang ι κ τ)) : ι → Prop
  | root : Below root up root
  | hung {n : ι} {h : Hang ι κ τ} : Below root up h.parent → up n = some h → Below root up n

/-- The node may have others below it. -/
def Inner (root : ι) (inner : τ → Prop) (up : ι → Option (Hang ι κ τ)) (n : ι) : Prop :=
  n = root ∨ ∃ h, up n = some h ∧ inner h.kind

/-- A tree, given by where its nodes hang. -/
structure Rooted (root : ι) (inner : τ → Prop) (up : ι → Option (Hang ι κ τ)) : Prop where
  top : up root = none
  parent : ∀ n h, up n = some h → Inner root inner up h.parent
  once : ∀ m n g h, up m = some g → up n = some h → g.parent = h.parent → g.name = h.name → m = n
  below : ∀ n h, up n = some h → Below root up n

/-- What hangs is not the root. -/
theorem Rooted.ne_root (tree : Rooted root inner up) (hung : up n = some h) : n ≠ root := by
  rintro rfl
  rw [tree.top] at hung
  cases hung

theorem Inner.here (inn : Inner root inner up n) : n = root ∨ up n ≠ none := by
  refine inn.imp_right ?_
  rintro ⟨h, hn, -⟩
  rw [hn]
  exact Option.some_ne_none h

/-- Every node that may have others below it is on a way up to the root. -/
theorem Rooted.below_inner (tree : Rooted root inner up) (inn : Inner root inner up n) :
    Below root up n := by
  rcases inn with rfl | ⟨h, hn, -⟩
  · exact .root
  · exact tree.below n h hn

/-- There is only the root. -/
theorem rooted_bare (root : ι) (inner : τ → Prop) :
    Rooted root inner fun _ => (none : Option (Hang ι κ τ)) where
  top := rfl
  parent _ _ h := nomatch h
  once _ _ _ _ h := nomatch h
  below _ _ h := nomatch h

variable [DecidableEq ι]

/-- A node is hung below another one. -/
def hang (up : ι → Option (Hang ι κ τ)) (n : ι) (h : Hang ι κ τ) : ι → Option (Hang ι κ τ) :=
  Function.update up n (some h)

/-- A node is cut off. -/
def cut (up : ι → Option (Hang ι κ τ)) (n : ι) : ι → Option (Hang ι κ τ) :=
  Function.update up n none

@[simp] theorem hang_self : hang up n h n = some h := Function.update_self _ _ _
theorem hang_other (hne : m ≠ n) : hang up n h m = up m := Function.update_of_ne hne _ _
@[simp] theorem cut_self : cut up n n = none := Function.update_self _ _ _
theorem cut_other (hne : m ≠ n) : cut up n m = up m := Function.update_of_ne hne _ _

/-- The nodes after one was cut off. -/
theorem cut_eq_some : cut up n m = some h ↔ m ≠ n ∧ up m = some h := by
  by_cases hmn : m = n
  · subst hmn
    rw [cut_self]
    exact ⟨nofun, fun h => absurd rfl h.1⟩
  · rw [cut_other hmn]
    exact ⟨fun h => ⟨hmn, h⟩, And.right⟩

/-- What may have nodes below it stays so when a new node is hung. -/
theorem Inner.hang (inn : Inner root inner up d) (new : up n = none) :
    Inner root inner (hang up n h) d := by
  refine inn.imp_right ?_
  rintro ⟨g, hd, hg⟩
  refine ⟨g, ?_, hg⟩
  rw [hang_other, hd]
  rintro rfl
  rw [new] at hd
  cases hd

theorem Below.kept (below : Below root up m) (new : up n = none) : Below root (hang up n h) m := by
  induction below with
  | root => exact .root
  | @hung m g _ hm ih =>
    refine .hung ih ?_
    rw [hang_other, hm]
    rintro rfl
    rw [new] at hm
    cases hm

/-- HANGING. A new node comes below an inner one, under a name that no other has there. -/
theorem Rooted.hang (tree : Rooted root inner up) (new : up n = none) (hroot : n ≠ root)
    (parent : Inner root inner up h.parent) (free : ∀ m g, up m = some g → g.parent = h.parent →
      g.name ≠ h.name) : Rooted root inner (hang up n h) where
  top := by
    rw [hang_other hroot.symm]
    exact tree.top
  parent m g hm := by
    by_cases hmn : m = n
    · subst hmn
      rw [hang_self] at hm
      cases hm
      exact parent.hang new
    · rw [hang_other hmn] at hm
      exact (tree.parent m g hm).hang new
  once m m' g g' hm hm' hp hname := by
    by_cases hmn : m = n <;> by_cases hmn' : m' = n
    · rw [hmn, hmn']
    · rw [hmn, hang_self] at hm
      cases hm
      rw [hang_other hmn'] at hm'
      exact absurd hname.symm (free m' g' hm' hp.symm)
    · rw [hmn', hang_self] at hm'
      cases hm'
      rw [hang_other hmn] at hm
      exact absurd hname (free m g hm hp)
    · rw [hang_other hmn] at hm
      rw [hang_other hmn'] at hm'
      exact tree.once m m' g g' hm hm' hp hname
  below m g hm := by
    by_cases hmn : m = n
    · subst hmn
      rw [hang_self] at hm
      cases hm
      exact .hung ((tree.below_inner parent).kept new) hang_self
    · rw [hang_other hmn] at hm
      exact (tree.below m g hm).kept new

theorem Below.cut (below : Below root up m) (bare : ∀ m g, up m = some g → g.parent ≠ n)
    (hmn : m ≠ n) : Below root (cut up n) m := by
  induction below with
  | root => exact .root
  | @hung m g _ hm ih => exact .hung (ih (bare m g hm)) (cut_eq_some.mpr ⟨hmn, hm⟩)

/-- CUTTING OFF. A node goes that has none below it. -/
theorem Rooted.cut (tree : Rooted root inner up) (hroot : n ≠ root)
    (bare : ∀ m g, up m = some g → g.parent ≠ n) :
    Rooted root inner (cut up n) where
  top := by
    rw [cut_other hroot.symm]
    exact tree.top
  parent m g hm := by
    obtain ⟨-, hm⟩ := cut_eq_some.mp hm
    refine (tree.parent m g hm).imp_right ?_
    rintro ⟨g', hp, hg'⟩
    exact ⟨g', cut_eq_some.mpr ⟨bare m g hm, hp⟩, hg'⟩
  once m m' g g' hm hm' := tree.once m m' g g' (cut_eq_some.mp hm).2 (cut_eq_some.mp hm').2
  below m g hm := by
    obtain ⟨hmn, hm⟩ := cut_eq_some.mp hm
    exact (tree.below m g hm).cut bare hmn

end SeekingOs.Lib
