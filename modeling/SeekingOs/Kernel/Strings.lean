import SeekingOs.Kernel.Base
import Mathlib.Logic.Function.Basic

/-!
# Strings in an array

`strlen`, `strcpy` and `strcat` of `lib/string.c`, on an array of `size` characters. C stops at no
end but the `NUL`: what is read or written behind the array is a fault here.
-/

namespace SeekingOs

open Lib

/-- The loop of `strlen`, at `p` with `left` characters to the end of the array. -/
def strlenFrom (str : Nat → Byte) : Nat → Nat → Except Fault Nat
  | 0, _ => .error (.outOfBounds "strlen")
  | left + 1, p => if str p = 0 then .ok p else strlenFrom str left (p + 1)

/-- `strlen` -/
def strlen (size : Nat) (str : Nat → Byte) : Except Fault Nat := strlenFrom str size 0

/-- `*dst++ = *src++` -/
def storeChar (func : String) (size : Nat) (dst : Nat → Byte) (p : Nat) (c : Byte) :
    Except Fault (Nat → Byte) :=
  if p < size then .ok (Function.update dst p c) else .error (.outOfBounds func)

/-- The loop of `strcpy` and the second one of `strcat`, with the characters of `src` that are left.
-/
def strcpyFrom (func : String) (size : Nat) :
    (Nat → Byte) → Nat → List Byte → Except Fault (Nat → Byte)
  | dst, p, [] => storeChar func size dst p 0
  | dst, p, c :: src => do strcpyFrom func size (← storeChar func size dst p c) (p + 1) src

/-- `strcpy` -/
def strcpy (size : Nat) (dst : Nat → Byte) (src : List Byte) : Except Fault (Nat → Byte) :=
  strcpyFrom "strcpy" size dst 0 src

/-- `strcat` -/
def strcat (size : Nat) (dst : Nat → Byte) (src : List Byte) : Except Fault (Nat → Byte) := do
  strcpyFrom "strcat" size dst (← strlen size dst) src

/-- A string of `n` characters, with its `NUL` inside the array. -/
structure HasLength (size : Nat) (str : Nat → Byte) (n : Nat) : Prop where
  inside : n < size
  chars : ∀ k < n, str k ≠ 0
  terminated : str n = 0

variable {size : Nat} {str dst : Nat → Byte} {n p : Nat} {src : List Byte}

theorem strlenFrom_eq (h : HasLength size str n) {left : Nat} (hp : p ≤ n)
    (hleft : p + left = size) : strlenFrom str left p = .ok n := by
  induction left generalizing p with
  | zero =>
    have := h.inside
    omega
  | succ left ih =>
    unfold strlenFrom
    by_cases hend : p = n
    · rw [if_pos (hend ▸ h.terminated), hend]
    · rw [if_neg (h.chars p (by omega))]
      exact ih (by omega) (by omega)

theorem HasLength.strlen_eq (h : HasLength size str n) : strlen size str = .ok n :=
  strlenFrom_eq h (Nat.zero_le n) (Nat.zero_add size)

/-- A string has one length. -/
theorem HasLength.unique {n' : Nat} (h : HasLength size str n) (h' : HasLength size str n') :
    n = n' :=
  Except.ok.inj (h.strlen_eq.symm.trans h'.strlen_eq)

/-- WHAT IS COPIED: the characters, a `NUL` behind them, and nothing before. -/
theorem strcpyFrom_eq (func : String) (dst : Nat → Byte) (room : p + src.length < size) :
    ∃ dst', strcpyFrom func size dst p src = .ok dst' ∧ (∀ k < p, dst' k = dst k) ∧
      (∀ i c, src[i]? = some c → dst' (p + i) = c) ∧ dst' (p + src.length) = 0 := by
  induction src generalizing dst p with
  | nil =>
    refine ⟨Function.update dst p 0, ?_, ?_, ?_, ?_⟩
    · rw [strcpyFrom, storeChar, if_pos (by simpa using room)]
    · intro k hk
      exact Function.update_of_ne (by omega) _ _
    · intro i c hc
      simp at hc
    · simp
  | cons c src ih =>
    rw [List.length_cons] at room
    obtain ⟨dst', hcopy, hbefore, hchars, hend⟩ := @ih (p + 1) (Function.update dst p c) (by omega)
    refine ⟨dst', ?_, ?_, ?_, ?_⟩
    · rw [strcpyFrom, storeChar, if_pos (by omega)]
      exact hcopy
    · intro k hk
      rw [hbefore k (by omega), Function.update_of_ne (by omega)]
    · intro i c' hc'
      cases i with
      | zero =>
        rw [List.getElem?_cons_zero] at hc'
        rw [Nat.add_zero, hbefore p (by omega), Function.update_self]
        exact Option.some.inj hc'
      | succ i =>
        rw [List.getElem?_cons_succ] at hc'
        rw [← hchars i c' hc']
        congr 1
        omega
    · rw [List.length_cons, ← hend]
      congr 1
      omega

/-- A copied string behind `p` characters is a string again. -/
theorem strcpyFrom_hasLength (func : String) (hsrc : ∀ c ∈ src, c ≠ 0) (hdst : ∀ k < p, dst k ≠ 0)
    (room : p + src.length < size) :
    ∃ dst', strcpyFrom func size dst p src = .ok dst' ∧ HasLength size dst' (p + src.length) := by
  obtain ⟨dst', hcopy, hbefore, hchars, hend⟩ := strcpyFrom_eq func dst room
  refine ⟨dst', hcopy, room, ?_, hend⟩
  intro k hk
  by_cases hkp : k < p
  · rw [hbefore k hkp]
    exact hdst k hkp
  · obtain ⟨i, rfl⟩ := Nat.exists_eq_add_of_le (Nat.le_of_not_lt hkp)
    have hi : i < src.length := by omega
    rw [hchars i src[i] (List.getElem?_eq_getElem hi)]
    exact hsrc _ (List.getElem_mem hi)

theorem strcpy_hasLength (hsrc : ∀ c ∈ src, c ≠ 0) (room : src.length < size) :
    ∃ dst', strcpy size dst src = .ok dst' ∧ HasLength size dst' src.length := by
  have hbefore : ∀ k < 0, dst k ≠ 0 := fun k hk => absurd hk (Nat.not_lt_zero k)
  have h := strcpyFrom_hasLength "strcpy" hsrc hbefore (show 0 + src.length < size by omega)
  rwa [Nat.zero_add] at h

theorem HasLength.strcat_hasLength (h : HasLength size dst n) (hsrc : ∀ c ∈ src, c ≠ 0)
    (room : n + src.length < size) :
    ∃ dst', strcat size dst src = .ok dst' ∧ HasLength size dst' (n + src.length) := by
  unfold strcat
  rw [h.strlen_eq]
  exact strcpyFrom_hasLength "strcat" hsrc h.chars room

/-! ## Writing into an array -/

/-- An array after `out` is written into it from `p` on. -/
def writeAt (str : Nat → Byte) (p : Nat) (out : List Byte) : Nat → Byte :=
  fun k => if k < p then str k else (out[k - p]?).getD (str k)

variable {out : List Byte}

@[simp] theorem writeAt_nil (str : Nat → Byte) (p : Nat) : writeAt str p [] = str := by
  funext k
  simp [writeAt]

/-- Writing goes on behind `out`, over what was left of an earlier write there. -/
theorem writeAt_writeAt (str : Nat → Byte) (p : Nat) (out : List Byte) {old new : List Byte}
    (covers : old.length ≤ new.length) :
    writeAt (writeAt str p (out ++ old)) (p + out.length) new = writeAt str p (out ++ new) := by
  funext k
  simp only [writeAt]
  by_cases before : k < p
  · simp [before, show k < p + out.length by omega]
  · by_cases inside : k < p + out.length
    · simp only [before, inside, ↓reduceIte]
      rw [List.getElem?_append_left (by omega), List.getElem?_append_left (by omega)]
    · simp only [before, inside, ↓reduceIte]
      rw [List.getElem?_append_right (by omega), List.getElem?_append_right (by omega),
        show k - (p + out.length) = k - p - out.length by omega]
      by_cases some : k - p - out.length < new.length
      · simp [some]
      · rw [List.getElem?_eq_none (by omega), List.getElem?_eq_none (by omega)]
        rfl

theorem writeAt_append (str : Nat → Byte) (p : Nat) (out new : List Byte) :
    writeAt (writeAt str p out) (p + out.length) new = writeAt str p (out ++ new) := by
  have covers : ([] : List Byte).length ≤ new.length := Nat.zero_le _
  have step := writeAt_writeAt str p out covers
  rwa [List.append_nil] at step

theorem storeChar_eq {func : String} (c : Byte) (room : p < size) :
    storeChar func size str p c = .ok (writeAt str p [c]) := by
  rw [storeChar, if_pos room]
  congr 1
  funext k
  simp only [writeAt, Function.update_apply]
  by_cases before : k < p
  · simp [before, show k ≠ p by omega]
  · by_cases here : k = p
    · simp [here]
    · simp only [before, here, ↓reduceIte]
      rw [List.getElem?_eq_none (by simp; omega)]
      rfl

/-- `strcpy` WRITES THE STRING and its `NUL`. -/
theorem strcpyFrom_writeAt (func : String) (room : p + src.length < size) :
    strcpyFrom func size str p src = .ok (writeAt str p (src ++ [0])) := by
  induction src generalizing str p with
  | nil => exact storeChar_eq 0 room
  | cons c src ih =>
    rw [List.length_cons] at room
    rw [strcpyFrom, storeChar_eq c (by omega), ok_bind, ih (by omega)]
    exact congrArg Except.ok (writeAt_append str p [c] (src ++ [0]))

end SeekingOs
