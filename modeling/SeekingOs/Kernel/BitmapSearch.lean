import Mathlib.Tactic.Linarith
import SeekingOs.Kernel.Bitmap
import SeekingOs.Lib.Loop

/-!
# `bitmap_scan` as the machine runs it

`Kernel.Bitmap` says what the allocators use of a bitmap. Here its functions read byte by byte from
an array with an end, count in 32 bits, and loop until they leave: a read behind the last byte is a
fault and a loop may go on for ever. The two agree (`bitmapScan_eq`, `bitmapSet_eq`).
-/

namespace SeekingOs.BitmapSearch

open Lib

/-- `btmp->bits[i]` -/
def byteAt (b : Bitmap) (func : String) (i : Nat) : Except Fault Byte :=
  match b.bits[i]? with
  | some byte => .ok byte
  | none => .error (.outOfBounds func)

/-- `bitmap_scan_test` -/
def bitmapScanTest (b : Bitmap) (bitIdx : Nat) : Except Fault Bool := do
  let byteIdx := bitIdx / 8
  let bitOdd := bitIdx % 8
  let byte ← byteAt b "bitmap_scan_test" byteIdx
  return byte &&& (1#8 <<< bitOdd) != 0#8

/-- The first loop of `bitmap_scan`. The byte is read before the index is compared. -/
def byteTurn (b : Bitmap) (idxByte : Nat) : Except Fault (Turn Nat Nat) := do
  let byte ← byteAt b "bitmap_scan" idxByte
  return if 0xff#8 = byte ∧ idxByte < b.btmpBytesLen then .again (u32 (idxByte + 1))
    else .leave idxByte

/-- The second loop. -/
def bitTurn (b : Bitmap) (idxByte idxBit : Nat) : Except Fault (Turn Nat Nat) := do
  let byte ← byteAt b "bitmap_scan" idxByte
  return if byte &&& (1#8 <<< idxBit) != 0#8 then .again (idxBit + 1) else .leave idxBit

/-- The variables of the last loop. -/
structure Tally where
  bitLeft : Nat
  nextBit : Nat
  count : Nat

/-- The last loop; it leaves with `bit_idx_start`. -/
def runTurn (b : Bitmap) (cnt : Nat) (t : Tally) : Except Fault (Turn Tally Int) :=
  if 0 < t.bitLeft then do
    let bitLeft := t.bitLeft - 1
    let used ← bitmapScanTest b t.nextBit
    let count := if !used then u32 (t.count + 1) else 0
    if count = cnt then
      return .leave (toSigned 32 (u32 (t.nextBit - cnt + 1)))
    return .again ⟨bitLeft, u32 (t.nextBit + 1), count⟩
  else return .leave (-1)

/-- `bitmap_scan` -/
def bitmapScan (turns : Nat) (ndebug : Bool) (b : Bitmap) (cnt : Nat) : Except (Cut Fault) Int := do
  once (assertThat ndebug (1 ≤ cnt) "bitmap_scan" "cnt >= 1")
  let idxByte ← whileLoop (byteTurn b) turns 0
  once (assertThat ndebug (idxByte < b.btmpBytesLen) "bitmap_scan"
    "idx_byte < btmp->btmp_bytes_len")
  if idxByte = b.btmpBytesLen then
    return -1
  let idxBit ← whileLoop (bitTurn b idxByte) turns 0
  let bitIdxStart := toSigned 32 (u32 (idxByte * 8 + idxBit))
  if cnt = 1 then
    return bitIdxStart
  let bitLeft := u32 (b.btmpBytesLen * 8 - bitIdxStart - 1)
  let nextBit := u32 (bitIdxStart + 1)
  whileLoop (runTurn b cnt) turns ⟨bitLeft, nextBit, 1⟩

/-- `bitmap_set` -/
def bitmapSet (ndebug : Bool) (b : Bitmap) (bitIdx value : Nat) : Except Fault Bitmap := do
  assertThat ndebug (value = 0 ∨ value = 1) "bitmap_set" "value == 0 || value == 1"
  let byteIdx := bitIdx / 8
  let bitOdd := bitIdx % 8
  let byte ← byteAt b "bitmap_set" byteIdx
  if value ≠ 0 then
    return ⟨b.bits.set byteIdx (byte ||| (1#8 <<< bitOdd))⟩
  else
    return ⟨b.bits.set byteIdx (byte &&& ~~~(1#8 <<< bitOdd))⟩

/-- The loop of the callers that take a run: `cnt` bits from `start` on are set, one by one. -/
def setRun (ndebug : Bool) (start cnt : Nat) (b : Bitmap) : Except Fault Bitmap :=
  upTo (fun i b => bitmapSet ndebug b (start + i) 1) cnt b

variable {b : Bitmap} {ndebug : Bool} {cnt turns : Nat}

/-! ## Reads inside -/

theorem byteAt_of_lt {func : String} {i : Nat} (h : i < b.btmpBytesLen) :
    byteAt b func i = .ok (b.bits.getD i 0) := by
  have inside : i < b.bits.length := h
  simp [byteAt, inside]

theorem bitmapScanTest_of_lt {i : Nat} (h : i < b.size) : bitmapScanTest b i = .ok (b.test i) := by
  have inside : i / 8 < b.btmpBytesLen := by
    simp only [Bitmap.size, Bitmap.btmpBytesLen] at h ⊢
    omega
  rw [bitmapScanTest, byteAt_of_lt inside, ← bitmapScanTest_eq]
  rfl

/-- A bit number of a bitmap shorter than 2^28 bytes fits a word. -/
theorem u32_small {n : Nat} (h : n < 2 ^ 31) : u32 n = n := u32_of_lt (Nat.lt_trans h (by decide))

theorem toSigned_small {n : Nat} (h : n < 2 ^ 31) : toSigned 32 n = n := by
  unfold toSigned
  omega

/-! ## The loops -/

/-- The first loop, from a byte behind which a byte other than `0xff` is still to come. -/
theorem byteLoop_eq (short : b.btmpBytesLen < 2 ^ 28) (room : scanBytes b.bits < b.btmpBytesLen)
    (enough : b.btmpBytesLen < turns) :
    whileLoop (byteTurn b) turns 0 = .ok (scanBytes b.bits) := by
  refine whileLoop_eq (fun i => i ≤ scanBytes b.bits) (fun i => b.btmpBytesLen - i)
    (fun _ => scanBytes b.bits) ?_ (Nat.zero_le _) (by omega)
  intro i here
  have inside : i < b.btmpBytesLen := by omega
  rw [byteTurn, byteAt_of_lt inside]
  by_cases before : i < scanBytes b.bits
  · right
    rw [scanBytes_before b.bits i before]
    refine ⟨i + 1, ?_, before, rfl, by omega⟩
    have next : u32 (i + 1 : Int) = i + 1 := u32_small (n := i + 1) (by omega)
    simp [inside, next]
  · left
    obtain rfl : i = scanBytes b.bits := by omega
    have other : ¬ 0xff#8 = b.bits.getD (scanBytes b.bits) 0 := Ne.symm (scanBytes_at b.bits room)
    rw [ok_bind, if_neg fun h => other h.1]
    rfl

/-- The second loop, in a byte of the bitmap. Behind bit 7 the mask is empty, so it leaves there at
the latest. -/
theorem bitLoop_eq {idxByte : Nat} (inside : idxByte < b.btmpBytesLen) (enough : 8 < turns) :
    whileLoop (bitTurn b idxByte) turns 0 = .ok (scanBits (b.bits.getD idxByte 0) 8 0) := by
  generalize byte : b.bits.getD idxByte 0 = by8
  refine whileLoop_eq (fun k => k ≤ 8) (fun k => 8 - k) (fun k => scanBits by8 (8 - k) k) ?_
    (Nat.zero_le _) (by omega)
  intro k here
  rw [bitTurn, byteAt_of_lt inside, byte, ok_bind]
  rcases Nat.lt_or_eq_of_le here with lt | rfl
  · obtain ⟨left, rest⟩ : ∃ left, 8 - k = left + 1 := ⟨7 - k, by omega⟩
    have next : 8 - (k + 1) = left := by omega
    by_cases set : (by8 &&& (1#8 <<< k) != 0#8) = true
    · right
      refine ⟨k + 1, by rw [if_pos set]; rfl, lt, ?_, by omega⟩
      simp only [rest, next, scanBits, set, ↓reduceIte]
    · left
      simp only [rest, scanBits, set]
      rfl
  · left
    have empty : (1#8 <<< 8 : Byte) = 0#8 := rfl
    rw [if_neg (by simp [empty])]
    rfl

/-- The last loop, with every bit from `nextBit` on still to be judged. -/
theorem runLoop_eq (short : b.size < 2 ^ 31) {t : Tally} (all : t.nextBit + t.bitLeft = b.size)
    (counted : t.count ≤ t.nextBit) (enough : b.size < turns) :
    whileLoop (runTurn b cnt) turns t =
      .ok (match scanRun b cnt t.bitLeft t.nextBit t.count with
        | some s => (s : Int)
        | none => -1) := by
  refine whileLoop_eq (fun t : Tally => t.nextBit + t.bitLeft = b.size ∧
    t.count ≤ t.nextBit) Tally.bitLeft
    (fun t =>
      match scanRun b cnt t.bitLeft t.nextBit t.count with | some s => (s : Int) | none => -1) ?_
    ⟨all, counted⟩ (Nat.lt_of_le_of_lt (by omega : t.bitLeft ≤ b.size) enough)
  rintro ⟨bitLeft, nextBit, count⟩ ⟨all, counted⟩
  simp only at all counted ⊢
  cases bitLeft with
  | zero => left; rfl
  | succ bitLeft =>
    have inside : nextBit < b.size := by omega
    have next : u32 (nextBit + 1 : Int) = nextBit + 1 := u32_small (n := nextBit + 1) (by omega)
    have more : u32 (count + 1 : Int) = count + 1 := u32_small (n := count + 1) (by omega)
    simp only [runTurn, Nat.zero_lt_succ, ↓reduceIte, bitmapScanTest_of_lt inside, ok_bind, more,
      next, scanRun,
      bitmapScanTest_eq]
    -- the count after this bit
    obtain ⟨count', new, le⟩ : ∃ count', (if b.test nextBit = true then 0 else count + 1) = count' ∧
      count' ≤ nextBit + 1 :=
      ⟨_, rfl, by split <;> omega⟩
    have same : (if (!b.test nextBit) = true then count + 1 else 0) = count' := by
      rw [← new]
      cases b.test nextBit <;> rfl
    simp only [new, same]
    by_cases done : count' = cnt
    · left
      have small : nextBit + 1 - cnt < 2 ^ 31 := by omega
      have start : u32 (nextBit - cnt + 1 : Int) = nextBit + 1 - cnt := by
        rw [show (nextBit - cnt + 1 : Int) = ((nextBit + 1 - cnt : Nat) : Int) by omega]
        exact u32_small small
      simp only [done, ↓reduceIte, start, toSigned_small small]
      rfl
    · right
      simp only [done, ↓reduceIte]
      refine ⟨⟨bitLeft, nextBit + 1, count'⟩, rfl, ⟨?_, le⟩, rfl, Nat.lt_succ_self bitLeft⟩
      show nextBit + 1 + bitLeft = b.size
      omega

/-- WHAT THE MACHINE ANSWERS: what `Kernel.Bitmap` says, with `-1` for none. -/
theorem bitmapScan_eq (short : b.btmpBytesLen < 2 ^ 28) (room : ∃ i, i < b.size ∧ b.test i = false)
    (pos : 1 ≤ cnt) (enough : b.size < turns) :
    bitmapScan turns ndebug b cnt =
      .ok (match scanAnswer b cnt with | some s => (s : Int) | none => -1) := by
  have bytes : b.size = 8 * b.btmpBytesLen := rfl
  have stops : scanBytes b.bits < b.btmpBytesLen := by
    obtain ⟨i, hi, zero⟩ := room
    by_contra full
    rw [test_of_scanBytes (by omega)] at zero
    cases zero
  have first := firstZero_spec b stops
  have inside := first.free.1
  unfold bitmapScan scanAnswer
  rw [assertThat_of pos, once_ok, ok_bind, byteLoop_eq short stops (by omega), ok_bind,
    assertThat_of stops, once_ok, ok_bind,
    if_neg (by omega), bitLoop_eq stops (by omega), ok_bind]
  simp only [Nat.ne_of_lt stops, ↓reduceIte]
  generalize begins : scanBytes b.bits * 8 + scanBits (b.bits.getD (scanBytes b.bits) 0) 8 0 =
    start at first inside
  have small : start < 2 ^ 31 := by omega
  have signed :
      toSigned 32
        (u32 ((scanBytes b.bits : Int) * 8 +
          (scanBits (b.bits.getD (scanBytes b.bits) 0) 8 0 : Nat))) = start := by
    rw [show (scanBytes b.bits : Int) * 8 +
      (scanBits (b.bits.getD (scanBytes b.bits) 0) 8 0 : Nat) = (start : Int) by omega,
      u32_small small, toSigned_small small]
  rw [signed]
  by_cases one : cnt = 1
  · simp only [one, ↓reduceIte]
    rfl
  · have left : u32 (b.btmpBytesLen * 8 - start - 1 : Int) = b.btmpBytesLen * 8 - start - 1 := by
      rw [show (b.btmpBytesLen * 8 - start - 1 : Int) =
        ((b.btmpBytesLen * 8 - start - 1 : Nat) : Int) by omega]
      exact u32_small (by omega)
    have next : u32 (start + 1 : Int) = start + 1 := u32_small (n := start + 1) (by omega)
    simp only [one, ↓reduceIte, left, next]
    exact runLoop_eq (by omega) (show start + 1 + (b.btmpBytesLen * 8 - start - 1) =
      b.size by omega)
      (show 1 ≤ start + 1 by omega) enough

/-! ## Taking the run -/

theorem bitmapSet_eq {i value : Nat} (inside : i < b.size) (flag : value = 0 ∨ value = 1) :
    bitmapSet ndebug b i value = .ok (SeekingOs.bitmapSet b i (decide (value = 1))) := by
  have byte : i / 8 < b.btmpBytesLen := by
    simp only [Bitmap.size, Bitmap.btmpBytesLen] at inside ⊢
    omega
  simp only [bitmapSet, assertThat_of flag, ok_bind, byteAt_of_lt byte]
  rcases flag with rfl | rfl
  · rfl
  · rfl

/-- The bits of the run are set, and no other bit changes. -/
theorem setRun_spec {start : Nat} (inside : start + cnt ≤ b.size) :
    Total (fun b' : Bitmap => b'.size = b.size ∧
      ∀ i, b'.test i = if start ≤ i ∧ i < start + cnt then true else b.test i)
      (setRun ndebug start cnt b) := by
  refine Ensures.upTo (I := fun n (b' : Bitmap) => b'.size = b.size ∧
    ∀ i, b'.test i = if start ≤ i ∧ i < start + n then true else b.test i) ⟨rfl, fun i => ?_⟩ ?_
  · rw [if_neg (by omega)]
  · intro n hn b' ⟨size, bits⟩
    have here : start + n < b'.size := by omega
    rw [bitmapSet_eq here (Or.inr rfl)]
    refine ⟨(size_bitmapSet b' _ _).trans size, fun i => ?_⟩
    rw [test_bitmapSet here, bits]
    by_cases new : i = start + n
    · rw [if_pos new, if_pos (by omega)]
      rfl
    · rw [if_neg new]
      exact if_congr (by omega) rfl rfl

/-- FIRST FIT. With a zero bit in a bitmap below 2^28 bytes, `bitmap_scan` leaves its loops and
reads inside the array. It answers -1 exactly when `cnt` zero bits in a row exist nowhere, and the
start of the first such run otherwise; taking the run changes no bit outside it. -/
theorem bitmap_scan_first_fit (ndebug : Bool) (b : Bitmap) (cnt turns : Nat)
    (short : b.btmpBytesLen < 2 ^ 28) (room : ∃ i, i < b.size ∧ b.test i = false) (pos : 1 ≤ cnt)
    (enough : b.size < turns) :
    ∃ r : Int, bitmapScan turns ndebug b cnt = .ok r ∧ (r = -1 ↔ ∀ s, ¬ b.FreeRun cnt s) ∧
      (r ≠ -1 → ∃ s : Nat, r = s ∧ b.FirstRun cnt s ∧
        Total (fun b' : Bitmap => b'.size = b.size ∧
          ∀ i, b'.test i = if s ≤ i ∧ i < s + cnt then true else b.test i)
          (setRun ndebug s cnt b)) := by
  refine ⟨_, bitmapScan_eq short room pos enough, ?_⟩
  have spec := scanAnswer_spec b pos
  cases answer : scanAnswer b cnt with
  | none =>
    rw [answer] at spec
    exact ⟨⟨fun _ => spec, fun _ => rfl⟩, fun h => absurd rfl h⟩
  | some s =>
    rw [answer] at spec
    refine ⟨⟨fun h => ?_, fun none => absurd spec.free (none s)⟩,
      fun _ => ⟨s, rfl, spec, setRun_spec spec.free.1⟩⟩
    simp only at h
    omega

theorem bitmap_scan_first_fit_three : ∃ r : Int, bitmapScan 17 false ⟨[0xd7, 0xfc]⟩ 3 = .ok r ∧
    (r = -1 ↔ ∀ s, ¬ Bitmap.FreeRun ⟨[0xd7, 0xfc]⟩ 3 s) ∧
    (r ≠ -1 → ∃ s : Nat, r = s ∧ Bitmap.FirstRun ⟨[0xd7, 0xfc]⟩ 3 s ∧
      Total (fun b' : Bitmap => b'.size = 16 ∧
        ∀ i, b'.test i = if s ≤ i ∧ i < s + 3 then true else Bitmap.test ⟨[0xd7, 0xfc]⟩ i)
        (setRun false s 3 ⟨[0xd7, 0xfc]⟩)) :=
  bitmap_scan_first_fit false ⟨[0xd7, 0xfc]⟩ 3 17 (by decide) ⟨3, by decide, by decide⟩
    (by decide) (by decide)

end SeekingOs.BitmapSearch
