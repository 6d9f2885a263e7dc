import SeekingOs.Kernel.Base
import SeekingOs.Lib.Words
import Mathlib.Data.List.GetD
import Mathlib.Logic.Function.Basic

/-!
# `cmd_parse`

The words of a command line are cut in place, and `argv` points at them. That there is room for one
more pointer is tested after the pointer has been stored, and against a limit that is one too high.

A pointer into the command line is its offset, beside the characters from there to the end of the
string. Behind the `MAX_ARG_NR` pointers of `argv` there is other memory.
-/

namespace SeekingOs.Shell

open Lib

/-- `MAX_ARG_NR` -/
def maxArgNr : Nat := 16

/-- The memory that `cmd_parse` writes: the command line, by offset, and `argv` with what is behind
it. -/
structure CmdLine where
  cmdStr : Nat → Byte
  argv : Nat → Option Nat
  /-- Ghost: the indices of `argv` that were stored to. -/
  stored : List Nat

namespace CmdLine

variable (s : CmdLine)

/-- `argv[i] = p` -/
def store (i : Nat) (p : Option Nat) : CmdLine :=
  { s with argv := Function.update s.argv i p, stored := s.stored ++ [i] }

/-- `*next = 0` -/
def cut (next : Nat) : CmdLine := { s with cmdStr := Function.update s.cmdStr next 0 }

/-- The first loop: `argv` is cleared. -/
def clearArgv : CmdLine := (List.range maxArgNr).foldl (fun s i => s.store i none) s

end CmdLine

/-- The outer loop, with the characters from `next` on. -/
def parseLoop (token : Byte) (s : CmdLine) (argc next : Nat) (chars : List Byte) : Int × CmdLine :=
  if hword : chars.dropWhile (· == token) = [] then (argc, s)
  else
    let next := next + (chars.length - (chars.dropWhile (· == token)).length)
    let s := s.store argc (some next)
    let behind := (chars.dropWhile (· == token)).dropWhile (· != token)
    let next := next + ((chars.dropWhile (· == token)).length - behind.length)
    let s := if behind = [] then s else s.cut next
    if argc > maxArgNr then (-1, s) else parseLoop token s (argc + 1) (next + 1) behind.tail
termination_by chars.length
decreasing_by
  have := length_afterWord_lt hword
  rw [List.length_tail]
  omega

/-- A string in memory, with its end. -/
def stringMem (str : List Byte) : Nat → Byte := fun k => str.getD k 0

/-- `cmd_parse`; `argv` is what is there before. -/
def cmdParse (cmdStr : List Byte) (argv : Nat → Option Nat) (token : Byte) : Int × CmdLine :=
  parseLoop token (CmdLine.clearArgv ⟨stringMem cmdStr, argv, []⟩) 0 0 cmdStr

/-- The string `str` is in memory at `a`. -/
def StringAt (mem : Nat → Byte) (a : Nat) (str : List Byte) : Prop :=
  ∀ k ≤ str.length, mem (a + k) = stringMem str k

/-- The string that begins at `p`, of at most `left` characters. -/
def stringFrom (mem : Nat → Byte) : Nat → Nat → List Byte
  | 0, _ => []
  | left + 1, p => if mem p = 0 then [] else mem p :: stringFrom mem left (p + 1)

/-- The command line is split into its words, or refused when there are too many. -/
structure Splits (cmdStr : List Byte) (token : Byte) (argc : Int) (s : CmdLine) : Prop where
  inside : ∀ i ∈ s.stored, i < maxArgNr
  count : (words token cmdStr).length ≤ maxArgNr → argc = (words token cmdStr).length
  args : (words token cmdStr).length ≤ maxArgNr → ∀ i w, (words token cmdStr)[i]? = some w →
    ∃ a, s.argv i = some a ∧ StringAt s.cmdStr a w
  rest : ∀ i, (words token cmdStr).length ≤ i → i < maxArgNr → s.argv i = none
  refused : maxArgNr < (words token cmdStr).length → argc = -1

variable {s : CmdLine} {token : Byte} {chars cmdStr : List Byte} {argc next i : Nat}

/-! ## Strings in memory -/

theorem stringMem_left {str str' : List Byte} {k : Nat} (h : k < str.length) :
    stringMem (str ++ str') k = stringMem str k :=
  List.getD_append _ _ _ _ h

theorem stringMem_right (str str' : List Byte) (k : Nat) :
    stringMem (str ++ str') (str.length + k) = stringMem str' k := by
  unfold stringMem
  rw [List.getD_append_right _ _ _ _ (Nat.le_add_right _ _), Nat.add_sub_cancel_left]

theorem stringMem_end (str : List Byte) : stringMem str str.length = 0 :=
  List.getD_eq_default _ _ (Nat.le_refl _)

theorem stringMem_tail (str : List Byte) (k : Nat) :
    stringMem str.tail k = stringMem str (k + 1) := by
  cases str with
  | nil => rfl
  | cons c rest => rfl

theorem StringAt.end_eq {mem : Nat → Byte} {a : Nat} {str : List Byte} (h : StringAt mem a str) :
    mem (a + str.length) = 0 := by
  rw [h _ (Nat.le_refl _), stringMem_end]

theorem StringAt.char_eq {mem : Nat → Byte} {a k : Nat} {str : List Byte} (h : StringAt mem a str)
    (hk : k < str.length) : mem (a + k) = str[k] := by
  rw [h k (Nat.le_of_lt hk)]
  simp [stringMem, hk]

/-- A string without its first character. -/
theorem StringAt.tail {mem : Nat → Byte} {a : Nat} {c : Byte} {str : List Byte}
    (h : StringAt mem a (c :: str)) : StringAt mem (a + 1) str := by
  intro k hk
  rw [Nat.add_assoc, Nat.add_comm 1 k, h (k + 1) (by simpa using hk)]
  rfl

/-- WHAT IS READ of a string is the string. -/
theorem StringAt.stringFrom_eq {mem : Nat → Byte} {a left : Nat} {str : List Byte}
    (h : StringAt mem a str) (plain : ∀ c ∈ str, c ≠ 0) (room : str.length < left) :
    stringFrom mem left a = str := by
  induction str generalizing a left with
  | nil =>
    obtain ⟨left, rfl⟩ := Nat.exists_eq_add_of_lt room
    exact if_pos h.end_eq
  | cons c str ih =>
    obtain ⟨left, rfl⟩ := Nat.exists_eq_add_of_lt room
    have first : mem a = c := h 0 (Nat.zero_le _)
    rw [stringFrom, first, if_neg (plain c List.mem_cons_self),
      ih h.tail fun c' hc' => plain c' (List.mem_cons_of_mem _ hc')]
    rw [List.length_cons] at room ⊢
    omega

/-- Separators, the first word, and what comes behind it. -/
theorem chars_split (token : Byte) (chars : List Byte) :
    chars = chars.takeWhile (· == token) ++
      ((chars.dropWhile (· == token)).takeWhile (· != token) ++
      (chars.dropWhile (· == token)).dropWhile (· != token)) := by
  rw [List.takeWhile_append_dropWhile, List.takeWhile_append_dropWhile]

/-! ## The loop -/

/-- What the loop leaves: the words from `chars` on are pointed at, and what was there before `next`
is as it was. -/
structure Parsed (token : Byte) (s : CmdLine) (argc next : Nat) (chars : List Byte)
    (r : Int × CmdLine) : Prop where
  count : r.1 = (argc + (words token chars).length : Nat)
  args : ∀ i w, (words token chars)[i]? = some w → ∃ a, r.2.argv (argc + i) = some a ∧
    StringAt r.2.cmdStr a w
  others : ∀ i, i < argc ∨ argc + (words token chars).length ≤ i → r.2.argv i = s.argv i
  before : ∀ k < next, r.2.cmdStr k = s.cmdStr k
  stored : ∀ i ∈ r.2.stored, i ∈ s.stored ∨ i < argc + (words token chars).length

/-- THE LOOP, up to one word more than there is room for. -/
theorem parseLoop_parsed (mem : chars ≠ [] → StringAt s.cmdStr next chars)
    (room : argc + (words token chars).length ≤ maxArgNr + 1) :
    Parsed token s argc next chars (parseLoop token s argc next chars) := by
  induction hlen : chars.length using Nat.strong_induction_on generalizing s argc next chars with
  | _ len ih =>
    subst hlen
    have step := words_step token chars
    rw [parseLoop]
    split
    next none =>
      rw [if_pos none] at step
      constructor
      · rw [step]
        rfl
      · intro i w h
        rw [step] at h
        cases h
      · intro i _
        rfl
      · intro k _
        rfl
      · intro i h
        exact .inl h
    next more =>
      rw [if_neg more] at step
      have split := chars_split token chars
      have shorter := length_afterWord_lt more
      set skipped := chars.takeWhile (· == token) with hskipped
      set word := (chars.dropWhile (· == token)).takeWhile (· != token) with hword
      set behind := (chars.dropWhile (· == token)).dropWhile (· != token) with hbehind
      have left : (chars.dropWhile (· == token)).length = word.length + behind.length := by
        rw [← List.length_append, hword, hbehind, List.takeWhile_append_dropWhile]
      have total : chars.length = skipped.length + (word.length + behind.length) := by
        conv_lhs => rw [split]
        rw [List.length_append, List.length_append]
      have start : next + (chars.length - (chars.dropWhile (· == token)).length) =
          next + skipped.length := by omega
      have stop : next + skipped.length + ((chars.dropWhile (· == token)).length - behind.length) =
          next + skipped.length + word.length := by
        omega
      have rest : words token behind.tail = words token behind := words_behind token _
      rw [step, List.length_cons] at room
      have few : ¬ argc > maxArgNr := by omega
      dsimp only
      rw [start, stop, if_neg few]
      set first := next + skipped.length with hfrom
      have nonempty : chars ≠ [] := fun h => more (by rw [h]; rfl)
      have charAt (k : Nat) (hk : k ≤ word.length + behind.length) :
          s.cmdStr (first + k) = stringMem (word ++ behind) k := by
        rw [hfrom, Nat.add_assoc, mem nonempty _ (by omega)]
        conv_lhs => rw [split]
        exact stringMem_right _ _ k
      -- the word is cut off, or ends with the string
      obtain ⟨s', hs', argv, stored, ended, kept⟩ : ∃ s' : CmdLine,
          (if behind = [] then s.store argc (some first)
            else (s.store argc (some first)).cut (first + word.length)) = s' ∧
            s'.argv = Function.update s.argv argc (some first) ∧ s'.stored = s.stored ++ [argc] ∧
            s'.cmdStr (first + word.length) = 0 ∧ ∀ k, k ≠ first + word.length →
              s'.cmdStr k = s.cmdStr k := by
        refine ⟨_, rfl, ?_⟩
        split
        next last =>
          refine ⟨rfl, rfl, ?_, fun _ _ => rfl⟩
          show s.cmdStr (first + word.length) = 0
          rw [charAt _ (by omega), last, List.append_nil]
          exact stringMem_end word
        next =>
          exact ⟨rfl, rfl, Function.update_self _ _ _, fun k hk => Function.update_of_ne hk _ _⟩
      rw [hs']
      have mem' (left : behind.tail ≠ []) :
          StringAt s'.cmdStr (first + word.length + 1) behind.tail := by
        intro k hk
        have pos : 0 < behind.tail.length := List.length_pos_iff.mpr left
        rw [List.length_tail] at hk pos
        rw [kept _ (by omega), stringMem_tail, ← stringMem_right word behind, ← charAt _ (by omega)]
        congr 1
        omega
      have done : Parsed token s' (argc + 1) (first + word.length + 1) behind.tail
          (parseLoop token s' (argc + 1) (first + word.length + 1) behind.tail) :=
        ih behind.tail.length (by rw [List.length_tail]; omega) mem' (by rw [rest]; omega) rfl
      constructor
      · rw [done.count, rest, step, List.length_cons]
        congr 1
        omega
      · intro i w hw
        rw [step] at hw
        cases i with
        | zero =>
          obtain rfl : word = w := Option.some.inj hw
          refine ⟨first, ?_, fun k hk => ?_⟩
          · rw [done.others _ (.inl (by omega)), argv]
            exact Function.update_self _ _ _
          · rw [done.before _ (by omega)]
            by_cases hend : k = word.length
            · rw [hend, ended, stringMem_end]
            · rw [kept _ (by omega), charAt _ (by omega), stringMem_left (by omega)]
        | succ i =>
          obtain ⟨a, ha, string⟩ := done.args i w (by rwa [rest])
          refine ⟨a, ?_, string⟩
          rw [← ha]
          congr 1
          omega
      · intro i hi
        rw [step, List.length_cons] at hi
        rw [done.others i (by rw [rest]; omega), argv, Function.update_of_ne (by omega)]
      · intro k hk
        rw [done.before k (by omega), kept k (by omega)]
      · intro i hi
        rw [step, List.length_cons]
        have later := done.stored i hi
        rw [rest] at later
        rcases later with h | h
        · rw [stored, List.mem_append, List.mem_singleton] at h
          rcases h with h | h
          · exact .inl h
          · exact .inr (by omega)
        · exact .inr (by omega)

/-- What was stored stays stored. -/
theorem parseLoop_stored (h : i ∈ s.stored) : i ∈ (parseLoop token s argc next chars).2.stored := by
  induction hlen : chars.length using Nat.strong_induction_on generalizing s argc next chars with
  | _ len ih =>
    subst hlen
    rw [parseLoop]
    split
    next => exact h
    next more =>
      have shorter := length_afterWord_lt more
      have kept (next : Nat) (p : Option Nat) (b : List Byte) :
          i ∈ (if b = [] then s.store argc p else (s.store argc p).cut next).stored := by
        split <;> exact List.mem_append_left _ h
      dsimp only
      split
      next => exact kept _ _ _
      next => exact ih _ (by rw [List.length_tail]; omega) (kept _ _ _) rfl

/-- A POINTER TOO MANY. With more words than there is room for, the entry behind `argv` is stored
to. -/
theorem parseLoop_beyond (room : argc ≤ maxArgNr)
    (many : maxArgNr < argc + (words token chars).length) :
    maxArgNr ∈ (parseLoop token s argc next chars).2.stored := by
  induction hlen : chars.length using Nat.strong_induction_on generalizing s argc next chars with
  | _ len ih =>
    subst hlen
    have step := words_step token chars
    rw [parseLoop]
    split
    next none =>
      rw [step, if_pos none, List.length_nil] at many
      omega
    next more =>
      rw [step, if_neg more, List.length_cons] at many
      have shorter := length_afterWord_lt more
      have few : ¬ argc > maxArgNr := by omega
      have here (next : Nat) (p : Option Nat) (b : List Byte) :
          argc ∈ (if b = [] then s.store argc p else (s.store argc p).cut next).stored := by
        split <;> exact List.mem_append_right _ List.mem_cons_self
      dsimp only
      rw [if_neg few]
      by_cases last : argc = maxArgNr
      · rw [← last]
        exact parseLoop_stored (here _ _ _)
      · exact ih _ (by rw [List.length_tail]; omega) (by omega) (by rw [words_behind]; omega) rfl

/-- Two words too many are noticed. -/
theorem parseLoop_refused (room : argc ≤ maxArgNr + 1)
    (many : maxArgNr + 1 < argc + (words token chars).length) :
    (parseLoop token s argc next chars).1 = -1 := by
  induction hlen : chars.length using Nat.strong_induction_on generalizing s argc next chars with
  | _ len ih =>
    subst hlen
    have step := words_step token chars
    rw [parseLoop]
    split
    next none =>
      rw [step, if_pos none, List.length_nil] at many
      omega
    next more =>
      rw [step, if_neg more, List.length_cons] at many
      have shorter := length_afterWord_lt more
      dsimp only
      split
      next => rfl
      next few =>
        exact ih _ (by rw [List.length_tail]; omega) (by omega) (by rw [words_behind]; omega) rfl

/-- What comes behind the string is as it was. -/
theorem parseLoop_behind {k : Nat} (hk : next + chars.length ≤ k) :
    (parseLoop token s argc next chars).2.cmdStr k = s.cmdStr k := by
  induction hlen : chars.length using Nat.strong_induction_on generalizing s argc next chars with
  | _ len ih =>
    subst hlen
    rw [parseLoop]
    split
    next => rfl
    next more =>
      have shorter := length_afterWord_lt more
      have skip := List.length_dropWhile_le (· == token) chars
      have word := List.length_dropWhile_le (· != token) (chars.dropWhile (· == token))
      set behind := (chars.dropWhile (· == token)).dropWhile (· != token) with hbehind
      set stop :=
        next + (chars.length - (chars.dropWhile (· == token)).length) +
          ((chars.dropWhile (· == token)).length - behind.length)
        with hstop
      have kept (p : Option Nat) : (if behind = [] then s.store argc p
          else (s.store argc p).cut stop).cmdStr k = s.cmdStr k := by
        split
        next => rfl
        next left =>
          have pos : 0 < behind.length := List.length_pos_iff.mpr left
          exact Function.update_of_ne (by omega) _ _
      dsimp only
      rw [← hstop]
      split
      next => exact kept _
      next =>
        by_cases last : behind.tail = []
        · rw [last, parseLoop]
          exact kept _
        · have pos : 0 < behind.tail.length := List.length_pos_iff.mpr last
          rw [List.length_tail] at pos
          rw [ih behind.tail.length (by rw [List.length_tail]; omega)
            (by rw [List.length_tail]; omega) rfl]
          exact kept _

/-! ## The whole call -/

/-- What clearing comes to. -/
theorem foldl_store (l : List Nat) (s : CmdLine) : l.foldl (fun s i => s.store i none) s =
    ⟨s.cmdStr, fun i => if i ∈ l then none else s.argv i, s.stored ++ l⟩ := by
  induction l generalizing s with
  | nil => simp
  | cons j l ih =>
    rw [List.foldl_cons, ih]
    unfold CmdLine.store
    rw [List.append_assoc, CmdLine.mk.injEq]
    refine ⟨rfl, ?_, rfl⟩
    funext i
    by_cases hij : i = j <;> simp [hij]

theorem clearArgv_eq (s : CmdLine) :
    s.clearArgv = ⟨s.cmdStr, fun i => if i < maxArgNr then none
      else s.argv i, s.stored ++ List.range maxArgNr⟩ := by
  unfold CmdLine.clearArgv
  rw [foldl_store]
  simp only [List.mem_range]

theorem cmdParse_parsed (argv : Nat → Option Nat)
    (room : (words token cmdStr).length ≤ maxArgNr + 1) :
    Parsed token (CmdLine.clearArgv ⟨stringMem cmdStr, argv, []⟩) 0 0 cmdStr
      (cmdParse cmdStr argv token) := by
  apply parseLoop_parsed _ (by omega)
  intro _ k _
  rw [clearArgv_eq, Nat.zero_add]

/-- COMMAND SPLITTING is safe and exact if and only if there are no more words than `argv` has
entries. -/
theorem cmd_parse_iff (cmdStr : List Byte) (argv : Nat → Option Nat) (token : Byte) :
    Splits cmdStr token (cmdParse cmdStr argv token).1 (cmdParse cmdStr argv token).2 ↔
    (words token cmdStr).length ≤ maxArgNr := by
  constructor
  · intro splits
    by_contra many
    have beyond : maxArgNr ∈ (cmdParse cmdStr argv token).2.stored :=
      parseLoop_beyond (Nat.zero_le _) (by omega)
    exact Nat.lt_irrefl _ (splits.inside _ beyond)
  · intro room
    have done := cmdParse_parsed argv (Nat.le_succ_of_le room)
    rw [clearArgv_eq] at done
    constructor
    · intro i hi
      rcases done.stored i hi with h | h
      · simpa using h
      · omega
    · intro _
      rw [done.count, Nat.zero_add]
    · intro _ i w hw
      have := done.args i w hw
      rwa [Nat.zero_add] at this
    · intro i hlen hi
      rw [done.others i (.inr (by omega))]
      exact if_pos hi
    · intro many
      omega

/-- Seventeen words. -/
def longLine : List Byte := (List.replicate 17 [120, 32]).flatten

theorem longLine_words : (words 32 longLine).length = maxArgNr + 1 := by
  decide

/-- The seventeenth pointer is stored behind `argv`, and seventeen is the answer. -/
theorem seventeen_words : (cmdParse longLine (fun _ => none) 32).1 = 17 ∧
    maxArgNr ∈ (cmdParse longLine (fun _ => none) 32).2.stored ∧
    ¬ ∀ (cmdStr : List Byte) (argv : Nat → Option Nat) (token : Byte),
      Splits cmdStr token (cmdParse cmdStr argv token).1 (cmdParse cmdStr argv token).2 := by
  have many : maxArgNr < 0 + (words 32 longLine).length := by
    rw [longLine_words]
    decide
  have beyond : maxArgNr ∈ (cmdParse longLine (fun _ => none) 32).2.stored :=
    parseLoop_beyond (Nat.zero_le _) many
  refine ⟨?_, beyond, fun claim => ?_⟩
  · rw [(cmdParse_parsed _ (Nat.le_of_eq longLine_words)).count, longLine_words]
    rfl
  · exact Nat.lt_irrefl _ ((claim longLine (fun _ => none) 32).inside _ beyond)

end SeekingOs.Shell
