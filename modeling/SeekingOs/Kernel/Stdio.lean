import Mathlib.Data.Nat.Digits.Lemmas
import SeekingOs.Kernel.Strings

/-!
# `vsprintf` of `lib/stdio.c`

The characters of a format and of its arguments are written one behind the other into `str`, which
may hold anything before. Only `%s` writes a `NUL`, the one `strcpy` copies: behind any other last
item the string goes on with what the array held there, which `strlen` counts in.

A format with matching arguments is a list of `Item`s. `vsprintfLoop_eq` says what is written, and
`formatted_iff` when it is the string that was asked for.
-/

namespace SeekingOs.Stdio

open Lib

def percent : Byte := 37

/-- An argument on the stack. -/
inductive Arg where
  /-- A slot of four bytes. -/
  | word (w : BitVec 32)
  /-- The address of a string. -/
  | string (s : List Byte)

/-- `va_arg(ap, int)` -/
def vaWord : List Arg → Except Fault (BitVec 32 × List Arg)
  | .word w :: ap => .ok (w, ap)
  | _ => .error (.outOfBounds "va_arg")

/-- `va_arg(ap, char*)` -/
def vaString : List Arg → Except Fault (List Byte × List Arg)
  | .string s :: ap => .ok (s, ap)
  | _ => .error (.outOfBounds "va_arg")

/-- `m + '0'` or `m - 10 + 'A'` -/
def digit (m : Nat) : Byte :=
  if m < 10 then BitVec.ofNat 8 (m + 48) else BitVec.ofNat 8 (m - 10 + 65)

/-- `itoa`, with the array and the place to write to. The bases are 10 and 16. -/
def itoa (size base : Nat) (two : 2 ≤ base) (value : Nat) (str : Nat → Byte) (bufPtr : Nat) :
    Except Fault ((Nat → Byte) × Nat) := do
  let m := value % base
  let i := value / base
  let (str, bufPtr) ← if _h : i ≠ 0 then itoa size base two i str bufPtr else .ok (str, bufPtr)
  let str ← storeChar "itoa" size str bufPtr (digit m)
  return (str, bufPtr + 1)
termination_by value
decreasing_by exact Nat.div_lt_self (Nat.pos_of_ne_zero fun zero => _h (by simp [i, zero])) two

/-- The loop of `vsprintf`, with the characters of the format that are left. -/
def vsprintfLoop (size : Nat) : List Byte → List Arg → (Nat → Byte) → Nat →
    Except Fault ((Nat → Byte) × Nat)
  | [], _, str, bufPtr => .ok (str, bufPtr)
  | indexChar :: format, ap, str, bufPtr =>
    if indexChar ≠ percent then do
      let str ← storeChar "vsprintf" size str bufPtr indexChar
      vsprintfLoop size format ap str (bufPtr + 1)
    else
      match format with
      | [] => .ok (str, bufPtr)
      | indexChar :: format' =>
        if indexChar = 120 then do
          let (argInt, ap) ← vaWord ap
          let (str, bufPtr) ← itoa size 16 (by decide) argInt.toNat str bufPtr
          vsprintfLoop size format' ap str bufPtr
        else if indexChar = 115 then do
          let (argStr, ap) ← vaString ap
          let str ← strcpyFrom "strcpy" size str bufPtr argStr
          vsprintfLoop size format' ap str (bufPtr + argStr.length)
        else if indexChar = 99 then do
          let (argInt, ap) ← vaWord ap
          let str ← storeChar "vsprintf" size str bufPtr (argInt.setWidth 8)
          vsprintfLoop size format' ap str (bufPtr + 1)
        else if indexChar = 100 then do
          let (argInt, ap) ← vaWord ap
          if argInt.toInt < 0 then
            let argInt := 0 - argInt
            let str ← storeChar "vsprintf" size str bufPtr 45
            let (str, bufPtr) ← itoa size 10 (by decide) argInt.toNat str (bufPtr + 1)
            vsprintfLoop size format' ap str bufPtr
          else
            let (str, bufPtr) ← itoa size 10 (by decide) argInt.toNat str bufPtr
            vsprintfLoop size format' ap str bufPtr
        else vsprintfLoop size (indexChar :: format') ap str bufPtr

/-- `vsprintf`: what it returns, and `str`. -/
def vsprintf (size : Nat) (str : Nat → Byte) (format : List Byte) (ap : List Arg) :
    Except Fault (Nat × (Nat → Byte)) := do
  let (str, _) ← vsprintfLoop size format ap str 0
  let length ← strlen size str
  return (length, str)

/-! ## Numbers -/

/-- A number in a base, without leading zeros. -/
def numeral (base value : Nat) : List Byte :=
  if value = 0 then [digit 0] else (Nat.digits base value).reverse.map digit

/-- What a digit stands for. -/
def digitValue (c : Byte) : Nat := if c.toNat < 58 then c.toNat - 48 else c.toNat - 55

/-- Digits read as a number. -/
def readBack (base : Nat) (chars : List Byte) : Nat :=
  chars.foldl (fun value c => base * value + digitValue c) 0

variable {size base value p : Nat} {str : Nat → Byte}

/-- The last digit, and those before it. -/
theorem numeral_eq (two : 2 ≤ base) :
    numeral base value = (if value / base ≠ 0 then numeral base (value / base) else []) ++
      [digit (value % base)] := by
  by_cases zero : value = 0
  · subst zero
    simp [numeral]
  · rw [numeral, if_neg zero, Nat.digits_def' two (Nat.pos_of_ne_zero zero), List.reverse_cons,
      List.map_append]
    congr 1
    by_cases last : value / base = 0
    · simp [last]
    · simp [last, numeral]

/-- The digits before the last one are those of a smaller number. -/
theorem div_lt_of_ne_zero (two : 2 ≤ base) (more : value / base ≠ 0) : value / base < value := by
  apply Nat.div_lt_self _ two
  rcases Nat.eq_zero_or_pos value with rfl | pos
  · exact absurd (Nat.zero_div base) more
  · exact pos

theorem numeral_pos (two : 2 ≤ base) (value : Nat) : 0 < (numeral base value).length := by
  rw [numeral_eq two, List.length_append, List.length_singleton]
  exact Nat.succ_pos _

/-- `itoa` WRITES THE NUMERAL. -/
theorem itoa_eq (two : 2 ≤ base) (room : p + (numeral base value).length ≤ size) :
    itoa size base two value str p =
      .ok (writeAt str p (numeral base value), p + (numeral base value).length) := by
  induction value using Nat.strong_induction_on generalizing str p with
  | _ value ih =>
    rw [itoa]
    rw [numeral_eq two] at room ⊢
    by_cases more : value / base ≠ 0
    · have less := div_lt_of_ne_zero two more
      rw [if_pos more, List.length_append, List.length_singleton] at room
      rw [dif_pos more, if_pos more, ih _ less (by omega), ok_bind]
      dsimp only
      rw [storeChar_eq _ (by omega), ok_bind, writeAt_append, List.length_append]
      rfl
    · rw [if_neg more] at room
      rw [dif_neg more, if_neg more, ok_bind]
      dsimp only
      rw [storeChar_eq _ (by simpa using room), ok_bind]
      rfl

theorem digitValue_digit {m : Nat} (h : m < 16) : digitValue (digit m) = m := by
  have all : ∀ m < 16, digitValue (digit m) = m := by decide
  exact all m h

/-- READING BACK what `itoa` writes gives the number. -/
theorem readBack_numeral (two : 2 ≤ base) (most : base ≤ 16) :
    readBack base (numeral base value) = value := by
  induction value using Nat.strong_induction_on with
  | _ value ih =>
    have last : value % base < 16 := Nat.lt_of_lt_of_le (Nat.mod_lt _ (by omega)) most
    have split := Nat.div_add_mod value base
    rw [numeral_eq two]
    by_cases more : value / base ≠ 0
    · have less := div_lt_of_ne_zero two more
      have before : (numeral base (value / base)).foldl (fun value c => base * value + digitValue c)
          0 = value / base := ih _ less
      rw [if_pos more, readBack, List.foldl_append, before, List.foldl_cons, List.foldl_nil,
        digitValue_digit last]
      exact split
    · rw [not_not] at more
      rw [if_neg (not_not.mpr more), readBack, List.nil_append, List.foldl_cons, List.foldl_nil,
        digitValue_digit last, Nat.mul_zero,
        Nat.zero_add]
      rw [more, Nat.mul_zero, Nat.zero_add] at split
      exact split

/-- Only the numeral of 0 begins with a 0. -/
theorem numeral_head (two : 2 ≤ base) (most : base ≤ 16)
    (zero : (numeral base value).head? = some (digit 0)) : value = 0 := by
  induction value using Nat.strong_induction_on with
  | _ value ih =>
    have split := Nat.div_add_mod value base
    rw [numeral_eq two] at zero
    by_cases more : value / base ≠ 0
    · have less := div_lt_of_ne_zero two more
      have nonempty : numeral base (value / base) ≠ [] := List.length_pos_iff.mp (numeral_pos two _)
      rw [if_pos more, List.head?_append_of_ne_nil _ nonempty] at zero
      exact absurd (ih _ less zero) more
    · rw [not_not] at more
      rw [if_neg (not_not.mpr more)] at zero
      have same := congrArg digitValue (Option.some.inj zero)
      rw [digitValue_digit (Nat.lt_of_lt_of_le (Nat.mod_lt _ (by omega)) most),
        digitValue_digit (by decide)] at same
      rw [more, same, Nat.mul_zero] at split
      exact split.symm

theorem digit_ne_zero {m : Nat} (h : m < 16) : digit m ≠ 0 := by
  have all : ∀ m < 16, digit m ≠ 0 := by decide
  exact all m h

/-- There is no `NUL` in a numeral. -/
theorem numeral_noNul (two : 2 ≤ base) (most : base ≤ 16) : 0 ∉ numeral base value := by
  unfold numeral
  split
  next => decide
  next =>
    intro h
    obtain ⟨m, hm, zero⟩ := List.mem_map.mp h
    have small := Nat.digits_lt_base two (List.mem_reverse.mp hm)
    exact digit_ne_zero (Nat.lt_of_lt_of_le small most) zero

/-! ## Items -/

/-- An ordinary character, or a specifier with its argument. -/
inductive Item where
  | plain (c : { c : Byte // c ≠ 0 ∧ c ≠ percent })
  | dec (w : BitVec 32)
  | hex (w : BitVec 32)
  | str (s : { s : List Byte // 0 ∉ s })
  | chr (w : { w : BitVec 32 // w.setWidth 8 ≠ (0 : Byte) })

namespace Item

/-- How it stands in the format. -/
def format : Item → List Byte
  | .plain c => [c.val]
  | .dec _ => [percent, 100]
  | .hex _ => [percent, 120]
  | .str _ => [percent, 115]
  | .chr _ => [percent, 99]

/-- Its argument on the stack. -/
def args : Item → List Arg
  | .plain _ => []
  | .dec w => [.word w]
  | .hex w => [.word w]
  | .str s => [.string s.val]
  | .chr w => [.word w.val]

/-- What is asked for. -/
def rendering : Item → List Byte
  | .plain c => [c.val]
  | .dec w => (if w.toInt < 0 then [45] else []) ++ numeral 10 w.toInt.natAbs
  | .hex w => numeral 16 w.toNat
  | .str s => s.val
  | .chr w => [w.val.setWidth 8]

/-- The `NUL` that it leaves behind what it writes. -/
def nul : Item → List Byte
  | .str _ => [0]
  | _ => []

end Item

/-- The format, the arguments and the output of a list of items. -/
def formatOf (items : List Item) : List Byte := items.flatMap Item.format
def argsOf (items : List Item) : List Arg := items.flatMap Item.args
def renderingOf (items : List Item) : List Byte := items.flatMap Item.rendering

/-- Behind the output stands the `NUL` of the last item, if that leaves one. -/
def nulOf (items : List Item) : List Byte := (items.getLast?.map Item.nul).getD []

variable {items : List Item} {item : Item}

theorem rendering_noNul (item : Item) : 0 ∉ item.rendering := by
  cases item with
  | plain c => simpa [Item.rendering] using c.property.1.symm
  | dec w =>
    rw [Item.rendering, List.mem_append, not_or]
    refine ⟨?_, numeral_noNul (by decide) (by decide)⟩
    split <;> decide
  | hex w => exact numeral_noNul (by decide) (by decide)
  | str s => exact s.property
  | chr w => simpa [Item.rendering] using w.property.symm

theorem renderingOf_noNul (items : List Item) : 0 ∉ renderingOf items := by
  intro h
  obtain ⟨item, _, zero⟩ := List.mem_flatMap.mp h
  exact rendering_noNul item zero

/-- The least int is its own negative, and reads as 2^31. -/
theorem toNat_neg {w : BitVec 32} (neg : w.toInt < 0) : (0 - w).toNat = w.toInt.natAbs := by
  have low := BitVec.toInt_eq_toNat_cond w
  have bound := w.isLt
  have diff : (0 - w).toNat = (2 ^ 32 - w.toNat + 0) % 2 ^ 32 := BitVec.toNat_sub 0 w
  split at low <;> omega

theorem toNat_pos {w : BitVec 32} (pos : ¬ w.toInt < 0) : w.toNat = w.toInt.natAbs := by
  have low := BitVec.toInt_eq_toNat_cond w
  have bound := w.isLt
  split at low <;> omega

/-! ## The loop -/

/-- ONE ITEM is read and written. -/
theorem vsprintfLoop_item {format : List Byte} {ap : List Arg}
    (room : p + item.rendering.length < size) :
    vsprintfLoop size (item.format ++ format) (item.args ++ ap) str p =
      vsprintfLoop size format ap (writeAt str p (item.rendering ++ item.nul))
        (p + item.rendering.length) := by
  cases item with
  | plain c =>
    show vsprintfLoop size (c.val :: format) ap str p = _
    have short : p < size := Nat.lt_of_le_of_lt (Nat.le_add_right _ _) room
    rw [vsprintfLoop.eq_def]
    dsimp only
    rw [if_pos c.property.2, storeChar_eq _ short, ok_bind]
    rfl
  | dec w =>
    have nul : (Item.dec w).nul = [] := rfl
    show vsprintfLoop size (percent :: 100 :: format) (.word w :: ap) str p = _
    rw [vsprintfLoop, if_neg (not_not.mpr rfl)]
    dsimp only
    rw [if_neg (by decide), if_neg (by decide), if_neg (by decide), if_pos rfl, vaWord, ok_bind]
    dsimp only
    by_cases neg : w.toInt < 0
    · have shape : (Item.dec w).rendering = [45] ++ numeral 10 (0 - w).toNat := by
        rw [Item.rendering, if_pos neg, toNat_neg neg]
      rw [shape, List.length_append, List.length_singleton] at room
      rw [if_pos neg, storeChar_eq _ (by omega), ok_bind, itoa_eq _ (by omega), ok_bind, shape]
      dsimp only
      have joins := writeAt_append str p [45] (numeral 10 (0 - w).toNat)
      rw [List.length_singleton] at joins
      rw [joins, nul, List.append_nil, List.length_append, List.length_singleton, Nat.add_assoc]
    · have shape : (Item.dec w).rendering = numeral 10 w.toNat := by
        rw [Item.rendering, if_neg neg, toNat_pos neg, List.nil_append]
      rw [shape] at room
      rw [if_neg neg, itoa_eq _ (by omega), ok_bind, shape, nul, List.append_nil]
  | hex w =>
    have nul : (Item.hex w).nul = [] := rfl
    have short : p + (numeral 16 w.toNat).length ≤ size := Nat.le_of_lt room
    show vsprintfLoop size (percent :: 120 :: format) (.word w :: ap) str p = _
    rw [vsprintfLoop, if_neg (not_not.mpr rfl)]
    dsimp only
    rw [if_pos rfl, vaWord, ok_bind]
    dsimp only
    rw [itoa_eq _ short, ok_bind, Item.rendering, nul, List.append_nil]
  | str s =>
    have short : p + s.val.length < size := room
    show vsprintfLoop size (percent :: 115 :: format) (.string s.val :: ap) str p = _
    rw [vsprintfLoop, if_neg (not_not.mpr rfl)]
    dsimp only
    rw [if_neg (by decide), if_pos rfl, vaString, ok_bind]
    dsimp only
    rw [strcpyFrom_writeAt "strcpy" short, ok_bind]
    rfl
  | chr w =>
    show vsprintfLoop size (percent :: 99 :: format) (.word w.val :: ap) str p = _
    rw [vsprintfLoop, if_neg (not_not.mpr rfl)]
    dsimp only
    rw [if_neg (by decide), if_neg (by decide), if_pos rfl, vaWord, ok_bind]
    dsimp only
    rw [storeChar_eq _ (Nat.lt_of_le_of_lt (Nat.le_add_right _ _) room), ok_bind]
    rfl

theorem length_nul_le (item : Item) : item.nul.length ≤ 1 := by
  cases item with
  | str s => exact Nat.le_refl 1
  | _ => exact Nat.zero_le 1

/-- Every item writes something. -/
theorem item_written_pos (item : Item) : 0 < (item.rendering ++ item.nul).length := by
  cases item with
  | plain c => exact Nat.one_pos
  | dec w =>
    have pos : 0 < (numeral 10 w.toInt.natAbs).length := numeral_pos (by decide) _
    simp only [Item.rendering, List.length_append]
    omega
  | hex w =>
    have pos : 0 < (numeral 16 w.toNat).length := numeral_pos (by decide) _
    simp only [Item.rendering, List.length_append]
    omega
  | str s => simp [Item.nul]
  | chr w => exact Nat.one_pos

theorem written_pos (item : Item) (items : List Item) :
    0 < (renderingOf (item :: items) ++ nulOf (item :: items)).length := by
  induction items generalizing item with
  | nil => simpa [renderingOf, nulOf] using item_written_pos item
  | cons next items ih =>
    have rest := ih next
    have parts : renderingOf (item :: next :: items) =
        item.rendering ++ renderingOf (next :: items) := List.flatMap_cons
    have last : nulOf (item :: next :: items) = nulOf (next :: items) := by
      rw [nulOf, nulOf, List.getLast?_cons_cons]
    rw [parts, last, List.append_assoc, List.length_append]
    omega

/-- THE WHOLE LOOP: the output, and behind it what the last item leaves. -/
theorem vsprintfLoop_eq (room : p + (renderingOf items).length < size) :
    vsprintfLoop size (formatOf items) (argsOf items) str p =
      .ok (writeAt str p (renderingOf items ++ nulOf items), p + (renderingOf items).length) := by
  induction items generalizing str p with
  | nil => exact congrArg (fun a => Except.ok (a, p)) (writeAt_nil str p).symm
  | cons item items ih =>
    have parts : renderingOf (item :: items) = item.rendering ++ renderingOf items :=
      List.flatMap_cons
    have formats : formatOf (item :: items) = item.format ++ formatOf items := List.flatMap_cons
    have args : argsOf (item :: items) = item.args ++ argsOf items := List.flatMap_cons
    rw [parts, List.length_append] at room
    rw [formats, args, vsprintfLoop_item (by omega), ih (by omega), parts, List.length_append,
      Nat.add_assoc]
    congr 2
    cases items with
    | nil =>
      have none : renderingOf [] ++ nulOf [] = [] := rfl
      rw [none, writeAt_nil]
      simp [renderingOf, nulOf]
    | cons next items =>
      -- what this item leaves behind its output is written over
      have last : nulOf (item :: next :: items) = nulOf (next :: items) := by
        rw [nulOf, nulOf, List.getLast?_cons_cons]
      have covers :
          item.nul.length ≤ (renderingOf (next :: items) ++ nulOf (next :: items)).length := by
        have pos := written_pos next items
        have le := length_nul_le item
        omega
      rw [writeAt_writeAt _ _ _ covers, last, List.append_assoc]

/-! ## The whole -/

/-- An array holds a string. -/
structure HoldsString (str : Nat → Byte) (out : List Byte) : Prop where
  chars : ∀ k, k < out.length → out[k]? = some (str k)
  terminated : str out.length = 0

/-- `vsprintf` leaves what was asked for and returns its length. -/
def Formatted (size : Nat) (str : Nat → Byte) (items : List Item) : Prop :=
  ∃ str', vsprintf size str (formatOf items) (argsOf items) =
    .ok ((renderingOf items).length, str') ∧ HoldsString str' (renderingOf items)

/-- What stands behind the output at the end: the last item's `NUL`, or what stood there before. -/
theorem behind_output (items : List Item) (str : Nat → Byte) :
    writeAt str 0 (renderingOf items ++ nulOf items) (renderingOf items).length = 0 ↔
      (∃ s, items.getLast? = some (.str s)) ∨ str (renderingOf items).length = 0 := by
  have here : (renderingOf items ++ nulOf items)[(renderingOf items).length]? =
      (nulOf items)[0]? := by
    rw [List.getElem?_append_right (Nat.le_refl _), Nat.sub_self]
  rw [writeAt, if_neg (Nat.not_lt_zero _), Nat.sub_zero, here, nulOf]
  cases last : items.getLast? with
  | none => simp
  | some item => cases item <;> simp [Item.nul]

/-- The string is the one asked for exactly when a `NUL` ends it. -/
theorem formatted_iff (room : (renderingOf items).length < size) :
    Formatted size str items ↔ (∃ s, items.getLast? = some (.str s)) ∨
    str (renderingOf items).length = 0 := by
  have loop := @vsprintfLoop_eq size 0 str items (by omega)
  rw [← behind_output]
  have chars : ∀ k, k < (renderingOf items).length →
      (renderingOf items)[k]? = some (writeAt str 0 (renderingOf items ++ nulOf items) k) := by
    intro k hk
    rw [writeAt, if_neg (Nat.not_lt_zero _), Nat.sub_zero, List.getElem?_append_left hk,
      List.getElem?_eq_getElem hk]
    rfl
  constructor
  · rintro ⟨str', runs, holds⟩
    rw [vsprintf, loop, ok_bind] at runs
    obtain ⟨length, _, answer⟩ := bind_eq_ok.mp runs
    cases answer
    exact holds.terminated
  · intro ends
    have string : HasLength size (writeAt str 0 (renderingOf items ++ nulOf items))
        (renderingOf items).length := by
      refine ⟨room, fun k hk zero => ?_, ends⟩
      have among := List.mem_of_getElem? (chars k hk)
      rw [zero] at among
      exact renderingOf_noNul items among
    refine ⟨_, ?_, chars, ends⟩
    rw [vsprintf, loop, ok_bind]
    dsimp only
    rw [string.strlen_eq]
    rfl

/-- FORMATTED OUTPUT. For every list of items and every array with room for the output, `vsprintf`
leaves the output as a string and returns its length exactly when the last item is `%s` or the byte
behind the output was 0 before. Digits read back give the number in any case, and only 0 begins with
a 0. -/
theorem vsprintf_formats_iff (items : List Item) (size : Nat) (str : Nat → Byte)
    (room : (renderingOf items).length < size) :
    (Formatted size str items ↔ (∃ s, items.getLast? = some (.str s)) ∨
      str (renderingOf items).length = 0) ∧
      ∀ base value, base = 10 ∨ base = 16 →
        readBack base (numeral base value) = value ∧
        ((numeral base value).head? = some (digit 0) → value = 0) := by
  refine ⟨formatted_iff room, fun base value either => ?_⟩
  have two : 2 ≤ base := by rcases either with rfl | rfl <;> decide
  have most : base ≤ 16 := by rcases either with rfl | rfl <;> decide
  exact ⟨readBack_numeral two most, numeral_head two most⟩

/-- A letter and a number, into an array of zeros. -/
theorem vsprintf_formats_iff_seven :
    (Formatted 64 (fun _ => 0) [.plain ⟨97, by decide⟩, .dec 7] ↔
      (∃ s, [Item.plain ⟨97, by decide⟩, .dec 7].getLast? = some (.str s)) ∨
        (0 : Byte) = 0) ∧
      ∀ base value, base = 10 ∨ base = 16 →
        readBack base (numeral base value) = value ∧
        ((numeral base value).head? = some (digit 0) → value = 0) :=
  vsprintf_formats_iff [.plain ⟨97, by decide⟩, .dec 7] 64 (fun _ => 0)
    (by simp [renderingOf, Item.rendering, numeral])

/-- A line feed as the last character of the format, into an array that was not cleared. -/
theorem vsprintf_runs_on :
    ¬ ∀ (items : List Item) (size : Nat) (str : Nat → Byte), (renderingOf items).length < size →
    Formatted size str items := by
  intro claim
  have formatted := claim [.plain ⟨10, by decide⟩] 64 (fun _ => 120) (by decide)
  rcases (formatted_iff (by decide)).mp formatted with ⟨s, last⟩ | zero
  · cases last
  · cases zero

end SeekingOs.Stdio
