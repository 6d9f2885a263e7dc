import Mathlib.Algebra.Group.Int.Defs
import Mathlib.Algebra.GroupWithZero.Nat
import Mathlib.Data.List.Basic
import SeekingOs.Lib.Outcome

/-!
# What every part of the kernel shares

Faults, the `ASSERT` of `kernel/debug.h` and the fixed-width casts of C.

A fault is the end of the run: `panic_spin` turns interrupts off and loops for
ever, and an exception handler without a registered function does the same.
-/

namespace SeekingOs

open Lib

/-- `uint8_t` -/
abbrev Byte := BitVec 8

/-- What stops the kernel. The texts are the ones the source prints. -/
inductive Fault where
  /-- `ASSERT(cond)` in the function `func`. -/
  | assert (func cond : String)
  /-- `PANIC(msg)`, or `panic(msg)` of `assert.h`. -/
  | panic (func msg : String)
  /-- A read or write through an address with nothing behind it. -/
  | pageFault (func : String)
  /-- An index outside its array. C leaves open what is written there. -/
  | outOfBounds (func : String)
  deriving DecidableEq, Repr

/-- `ASSERT(cond)`. A build with `NDEBUG` compiles it out. -/
def assertThat (ndebug : Bool) (cond : Prop) [Decidable cond] (func text : String) :
    Except Fault Unit :=
  if ndebug || decide cond then .ok () else .error (.assert func text)

/-- The assertion passes when its condition holds, in every build. -/
@[simp] theorem assertThat_of {ndebug : Bool} {cond : Prop} [Decidable cond] {func text : String}
    (h : cond) : assertThat ndebug cond func text = .ok () := by
  simp [assertThat, h]

/-- In a build without `NDEBUG` a passed assertion is a fact. -/
theorem assertThat_ok {cond : Prop} [Decidable cond] {func text : String} {u : Unit}
    (h : assertThat false cond func text = .ok u) : cond := by
  by_contra hc
  simp [assertThat, hc] at h

/-- An assertion that may fail, in a build without `NDEBUG`. -/
theorem ensures_assertThat {E : Fault → Prop} {Q : Unit → Prop} {cond : Prop} [Decidable cond]
    {func text : String} (fails : ¬ cond → E (.assert func text)) (passes : cond → Q ()) :
    Ensures E Q (assertThat false cond func text) := by
  unfold assertThat
  by_cases h : cond
  · simp [h, passes h]
  · simp [h, fails h]

/-- `uint32_t` arithmetic wraps. -/
def u32 (n : Int) : Nat := (n % 4294967296).toNat

theorem u32_lt (n : Int) : u32 n < 2 ^ 32 := by
  unfold u32
  omega

/-- A number that fits is kept. -/
theorem u32_of_lt {n : Nat} (h : n < 2 ^ 32) : u32 n = n := by
  unfold u32
  omega

/-- `DIV_ROUND_UP` of `global.h`. -/
def divRoundUp (x step : Nat) : Nat := (x + step - 1) / step

/-- The cast to a signed type of `w` bits. -/
def toSigned (w : Nat) (n : Int) : Int := (n + 2 ^ (w - 1)) % 2 ^ w - 2 ^ (w - 1)

end SeekingOs
