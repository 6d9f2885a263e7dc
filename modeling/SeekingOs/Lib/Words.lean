import Mathlib.Data.List.TakeWhile
import Mathlib.Data.List.Basic

/-!
# Words

The words of a list are its maximal runs of elements other than a separator. A reader that skips
separators, takes what comes up to the next one and goes on behind it meets the words one after
another.
-/

namespace SeekingOs.Lib

variable {α : Type} [DecidableEq α] {sep : α} {l word rest : List α}

/-- The maximal runs without separators. -/
def words (sep : α) (l : List α) : List (List α) := (l.splitOnP (· == sep)).filter (· != [])

@[simp] theorem words_nil (sep : α) : words sep [] = [] := by
  simp [words]

/-- A separator in front makes no difference. -/
@[simp] theorem words_sep (sep : α) (rest : List α) : words sep (sep :: rest) = words sep rest := by
  unfold words
  rw [List.splitOnP_cons_eq_if_modifyHead, if_pos (beq_self_eq_true sep),
    List.filter_cons_of_neg (by simp)]

/-- Nor do any number of them. -/
theorem words_dropWhile (sep : α) (l : List α) :
    words sep (l.dropWhile (· == sep)) = words sep l := by
  induction l with
  | nil => rfl
  | cons c rest ih =>
    rw [List.dropWhile_cons]
    split
    next h =>
      rw [beq_iff_eq] at h
      rw [ih, h, words_sep]
    next => rfl

/-- A word and what comes behind it. -/
theorem words_word (plain : ∀ c ∈ word, (c != sep) = true) (ne : word ≠ [])
    (hrest : rest = [] ∨ ∃ tail, rest = sep :: tail) :
    words sep (word ++ rest) = word :: words sep rest := by
  have none : ∀ c ∈ word, (c == sep) = false := fun c hc => by
    rw [← Bool.not_eq_true']
    exact plain c hc
  have kept : (word != []) = true := bne_iff_ne.mpr ne
  rcases hrest with rfl | ⟨tail, rfl⟩
  · unfold words
    rw [List.append_nil, List.splitOnP_eq_singleton none,
      List.filter_cons_of_pos (p := (· != [])) kept]
    rfl
  · rw [words_sep]
    unfold words
    rw [List.splitOnP_append_cons_of_forall_mem none sep (beq_self_eq_true sep),
      List.filter_cons_of_pos (p := (· != [])) kept]

/-- What comes behind a word begins with a separator. -/
theorem dropWhile_head (sep : α) (l : List α) :
    l.dropWhile (· != sep) = [] ∨ ∃ tail, l.dropWhile (· != sep) = sep :: tail := by
  cases h : l.dropWhile (· != sep) with
  | nil => exact .inl rfl
  | cons c tail =>
    have hc : ¬ (c != sep) = true := by
      have := List.head_dropWhile_not (· != sep) (l := l) (by rw [h]; exact List.cons_ne_nil _ _)
      simpa [h] using this
    rw [bne_iff_ne, not_not] at hc
    exact .inr ⟨tail, by rw [hc]⟩

/-- That separator makes no difference either. -/
theorem words_behind (sep : α) (l : List α) :
    words sep (l.dropWhile (· != sep)).tail = words sep (l.dropWhile (· != sep)) := by
  rcases dropWhile_head sep l with h | ⟨tail, h⟩
  · rw [h]
    rfl
  · rw [h, List.tail_cons, words_sep]

/-- Behind the separators there is the end, or something else. -/
theorem takeWhile_ne_nil (h : l.dropWhile (· == sep) ≠ []) :
    (l.dropWhile (· == sep)).takeWhile (· != sep) ≠ [] := by
  intro empty
  have other := List.head_dropWhile_not (· == sep) h
  cases hl : l.dropWhile (· == sep) with
  | nil => exact h hl
  | cons c tail =>
    simp only [hl, List.head_cons] at other
    rw [hl, List.takeWhile_cons, if_pos (by simpa using other)] at empty
    cases empty

/-- ONE STEP of a reader: there is no word left, or the first one is taken off. -/
theorem words_step (sep : α) (l : List α) : words sep l =
    if l.dropWhile (· == sep) = [] then []
    else (l.dropWhile (· == sep)).takeWhile (· != sep) ::
      words sep ((l.dropWhile (· == sep)).dropWhile (· != sep)) := by
  rw [← words_dropWhile]
  split
  next h => rw [h, words_nil]
  next h =>
    have split : (l.dropWhile (· == sep)).takeWhile (· != sep) ++
        (l.dropWhile (· == sep)).dropWhile (· != sep) =
        l.dropWhile (· == sep) := List.takeWhile_append_dropWhile
    have step :=
      words_word (fun c hc => List.mem_takeWhile_imp (p := (· != sep)) hc) (takeWhile_ne_nil h)
      (dropWhile_head sep (l.dropWhile (· == sep)))
    rwa [split] at step

/-- The reader gets on. -/
theorem length_afterWord_lt (h : l.dropWhile (· == sep) ≠ []) :
    ((l.dropWhile (· == sep)).dropWhile (· != sep)).length < l.length := by
  have split :=
    congrArg List.length (List.takeWhile_append_dropWhile (p := (· != sep))
      (l := l.dropWhile (· == sep)))
  have skip := List.length_dropWhile_le (· == sep) l
  have some := List.length_pos_iff.mpr (takeWhile_ne_nil h)
  rw [List.length_append] at split
  omega

/-- A word is not empty and has no separator in it. -/
theorem words_plain (h : word ∈ words sep l) : word ≠ [] ∧ sep ∉ word := by
  induction n : l.length using Nat.strong_induction_on generalizing l with
  | _ n ih =>
    subst n
    rw [words_step] at h
    split at h
    next => exact absurd h List.not_mem_nil
    next more =>
      rcases List.mem_cons.mp h with rfl | rest
      · refine ⟨takeWhile_ne_nil more, fun hs => ?_⟩
        have other := List.mem_takeWhile_imp hs
        simp at other
      · exact ih _ (length_afterWord_lt more) rest rfl

end SeekingOs.Lib
