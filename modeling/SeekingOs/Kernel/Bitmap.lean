import SeekingOs.Kernel.Base

/-!
# `lib/kernel/bitmap.c`

A bitmap is an array of bytes; bit `i` is bit `i % 8` of byte `i / 8`.
`bitmap_scan` first skips the bytes that are `0xff`, then looks for the first
zero bit of the byte it stopped at, and only for `cnt > 1` goes on bit by bit.

The spec lemmas speak of `Bitmap.test` alone, so no later module unfolds a loop:

- `bitmapScan_one`, `bitmapScan_some`, `bitmapScan_none`: the answer is the
  start of the first run of `cnt` zero bits, and `-1` means there is none;
- `test_bitmapSet`: setting a bit changes that bit and no other.
-/

namespace SeekingOs

open Lib

/-- `struct bitmap`; `btmp_bytes_len` is the length of `bits`. -/
structure Bitmap where
  bits : List Byte
  deriving DecidableEq, Repr

namespace Bitmap

/-- `btmp_bytes_len` -/
def btmpBytesLen (b : Bitmap) : Nat := b.bits.length

/-- The number of bits. -/
def size (b : Bitmap) : Nat := 8 * b.bits.length

/-- Bit `i`, false outside. -/
def test (b : Bitmap) (i : Nat) : Bool := (b.bits.getD (i / 8) 0).getLsbD (i % 8)

end Bitmap

/-- `bitmap_init` -/
def bitmapInit (b : Bitmap) : Bitmap := ⟨List.replicate b.bits.length 0⟩

/-- `bitmap_scan_test` -/
def bitmapScanTest (b : Bitmap) (bitIdx : Nat) : Bool :=
  b.bits.getD (bitIdx / 8) 0 &&& (1#8 <<< (bitIdx % 8)) != 0#8

/-- The first loop of `bitmap_scan`: the index of the first byte other than `0xff`,
the number of bytes if there is none. -/
def scanBytes : List Byte → Nat
  | [] => 0
  | b :: bs => if b = 0xff#8 then scanBytes bs + 1 else 0

/-- The second loop: the first zero bit of a byte. -/
def scanBits (byte : Byte) : Nat → Nat → Nat
  | 0, idxBit => idxBit
  | fuel + 1, idxBit =>
    if byte &&& (1#8 <<< idxBit) != 0#8 then scanBits byte fuel (idxBit + 1) else idxBit

/-- The last loop, `bit_left` bits to go: `count` zero bits end just before `nextBit`. -/
def scanRun (b : Bitmap) (cnt : Nat) : Nat → Nat → Nat → Option Nat
  | 0, _, _ => none
  | bitLeft + 1, nextBit, count =>
    let count' := if bitmapScanTest b nextBit then 0 else count + 1
    if count' = cnt then some (nextBit + 1 - cnt) else scanRun b cnt bitLeft (nextBit + 1) count'

/-- What `bitmap_scan` returns once its assertions have passed; `none` is `-1`. -/
def scanAnswer (b : Bitmap) (cnt : Nat) : Option Nat :=
  let idxByte := scanBytes b.bits
  if idxByte = b.btmpBytesLen then none
  else
    let bitIdxStart := idxByte * 8 + scanBits (b.bits.getD idxByte 0) 8 0
    if cnt = 1 then some bitIdxStart
    else scanRun b cnt (b.btmpBytesLen * 8 - bitIdxStart - 1) (bitIdxStart + 1) 1

/-- `bitmap_scan` -/
def bitmapScan (ndebug : Bool) (b : Bitmap) (cnt : Nat) : Except Fault (Option Nat) := do
  assertThat ndebug (1 ≤ cnt) "bitmap_scan" "cnt >= 1"
  assertThat ndebug (scanBytes b.bits < b.btmpBytesLen) "bitmap_scan"
    "idx_byte < btmp->btmp_bytes_len"
  return scanAnswer b cnt

/-- `bitmap_set`, `value` being 0 or 1. -/
def bitmapSet (b : Bitmap) (bitIdx : Nat) (value : Bool) : Bitmap :=
  let byte := b.bits.getD (bitIdx / 8) 0
  let mask := 1#8 <<< (bitIdx % 8)
  ⟨b.bits.set (bitIdx / 8) (if value then byte ||| mask else byte &&& ~~~mask)⟩

/-! ## Reading and setting a bit -/

/-- Masking a byte with one bit asks for that bit. -/
theorem and_mask_ne_zero (byte : Byte) (k : Nat) (hk : k < 8) :
    (byte &&& (1#8 <<< k) != 0#8) = byte.getLsbD k := by
  cases h : byte.getLsbD k with
  | true =>
    simp only [bne_iff_ne, ne_eq]
    intro hz
    have hk' := congrArg (·.getLsbD k) hz
    simp only [BitVec.getLsbD_and, h, BitVec.getLsbD_shiftLeft, Bool.true_and] at hk'
    simp [hk] at hk'
  | false =>
    simp only [bne_eq_false_iff_eq]
    ext i hi
    by_cases hik : i = k
    · subst hik
      simp only [BitVec.getElem_and, BitVec.getElem_zero, Bool.and_eq_false_imp]
      intro hb
      rw [← BitVec.getLsbD_eq_getElem, h] at hb
      cases hb
    · simp only [BitVec.getElem_and, BitVec.getElem_shiftLeft, BitVec.getElem_zero,
        Bool.and_eq_false_imp]
      intro _
      by_cases hlt : i < k
      · simp [hlt]
      · have : i - k ≠ 0 := by omega
        simp [hlt, this]

theorem bitmapScanTest_eq (b : Bitmap) (i : Nat) : bitmapScanTest b i = b.test i :=
  and_mask_ne_zero _ _ (Nat.mod_lt _ (by decide))

@[simp] theorem size_bitmapSet (b : Bitmap) (i : Nat) (v : Bool) :
    (bitmapSet b i v).size = b.size := by
  simp [bitmapSet, Bitmap.size]

@[simp] theorem btmpBytesLen_bitmapSet (b : Bitmap) (i : Nat) (v : Bool) :
    (bitmapSet b i v).btmpBytesLen = b.btmpBytesLen := by
  simp [bitmapSet, Bitmap.btmpBytesLen]

/-- Setting a bit changes that bit and no other. -/
theorem test_bitmapSet {b : Bitmap} {i : Nat} (hi : i < b.size) (v : Bool) (j : Nat) :
    (bitmapSet b i v).test j = if j = i then v else b.test j := by
  have hlen : i / 8 < b.bits.length := by
    unfold Bitmap.size at hi; omega
  unfold bitmapSet Bitmap.test
  by_cases hbyte : j / 8 = i / 8
  · simp only [hbyte, List.getD_eq_getElem?_getD, List.getElem?_set_self hlen, Option.getD_some]
    by_cases hbit : j % 8 = i % 8
    · have hji : j = i := by omega
      subst hji
      have h8 : j % 8 < 8 := Nat.mod_lt _ (by decide)
      cases v <;> simp [h8]
    · have hji : j ≠ i := fun h => hbit (by rw [h])
      have h8 : j % 8 < 8 := Nat.mod_lt _ (by decide)
      have hmask : (1#8 <<< (i % 8)).getLsbD (j % 8) = false := by
        by_cases hlt : j % 8 < i % 8
        · simp [hlt]
        · have : j % 8 - i % 8 ≠ 0 := by omega
          simp [hlt, this]
      cases v <;> simp only [Bool.false_eq_true, ↓reduceIte, BitVec.getLsbD_and, BitVec.getLsbD_or,
        BitVec.getLsbD_not, hmask, h8, decide_true, Bool.not_false, Bool.and_true,
        Bool.or_false, hji]
  · have hji : j ≠ i := fun h => hbyte (by rw [h])
    simp [hji, List.getElem?_set_ne (Ne.symm hbyte)]

/-- A bit outside the bitmap reads as zero. -/
theorem test_eq_false_of_size_le {b : Bitmap} {i : Nat} (h : b.size ≤ i) : b.test i = false := by
  have : b.bits.length ≤ i / 8 := by unfold Bitmap.size at h; omega
  simp [Bitmap.test, List.getElem?_eq_none this]

/-- Two bitmaps of one length with the same bits are the same bytes. -/
theorem Bitmap.ext_test {b c : Bitmap} (hlen : b.bits.length = c.bits.length)
    (h : ∀ i, i < b.size → b.test i = c.test i) : b = c := by
  obtain ⟨bs⟩ := b
  obtain ⟨cs⟩ := c
  congr 1
  refine List.ext_getElem hlen fun k hk hk' => ?_
  apply BitVec.eq_of_getLsbD_eq
  intro i hi
  have := h (8 * k + i) (by unfold Bitmap.size; simp only at *; omega)
  have hdiv : (8 * k + i) / 8 = k := by omega
  have hmod : (8 * k + i) % 8 = i := by omega
  simpa only [Bitmap.test, hdiv, hmod, List.getD_eq_getElem?_getD, List.getElem?_eq_getElem hk,
    List.getElem?_eq_getElem hk', Option.getD_some] using this

/-! ## The search -/

/-- A byte all of whose eight bits are set is `0xff`. -/
theorem eq_ff_of_all {byte : Byte} (h : ∀ k < 8, byte.getLsbD k = true) : byte = 0xff#8 := by
  apply BitVec.eq_of_getLsbD_eq
  intro i hi
  rw [h i hi]
  have : ∀ i < 8, (0xff#8).getLsbD i = true := by decide
  exact (this i hi).symm

theorem scanBytes_le (bs : List Byte) : scanBytes bs ≤ bs.length := by
  induction bs with
  | nil => exact Nat.le_refl 0
  | cons b bs ih =>
    unfold scanBytes
    split
    · simpa using ih
    · exact Nat.zero_le _

/-- Every byte the first loop passes is `0xff`. -/
theorem scanBytes_before (bs : List Byte) : ∀ i, i < scanBytes bs → bs.getD i 0 = 0xff#8 := by
  induction bs with
  | nil => intro i hi; exact absurd hi (Nat.not_lt_zero i)
  | cons b bs ih =>
    intro i hi
    unfold scanBytes at hi
    split at hi
    next hb =>
      cases i with
      | zero => simpa using hb
      | succ i => simpa using ih i (by omega)
    next hb => exact absurd hi (Nat.not_lt_zero i)

/-- The byte it stops at is not. -/
theorem scanBytes_at (bs : List Byte) (h : scanBytes bs < bs.length) :
    bs.getD (scanBytes bs) 0 ≠ 0xff#8 := by
  induction bs with
  | nil => exact absurd h (Nat.not_lt_zero 0)
  | cons b bs ih =>
    unfold scanBytes at h ⊢
    split
    next hb =>
      rw [if_pos hb] at h
      simpa using ih (by simpa using h)
    next hb => simpa using hb

/-- The second loop finds the first zero bit from where it starts. -/
theorem scanBits_spec (byte : Byte) : ∀ (fuel start : Nat), start + fuel = 8 →
    (∃ k, start ≤ k ∧ k < 8 ∧ byte.getLsbD k = false) →
    start ≤ scanBits byte fuel start ∧ scanBits byte fuel start < 8 ∧
      byte.getLsbD (scanBits byte fuel start) = false ∧
      ∀ j, start ≤ j → j < scanBits byte fuel start → byte.getLsbD j = true := by
  intro fuel
  induction fuel with
  | zero =>
    intro start hs hex
    obtain ⟨k, h1, h2, _⟩ := hex
    omega
  | succ fuel ih =>
    intro start hs hex
    unfold scanBits
    rw [and_mask_ne_zero byte start (by omega)]
    cases hb : byte.getLsbD start with
    | false =>
      refine ⟨Nat.le_refl _, by simp only [Bool.false_eq_true, ↓reduceIte]; omega, ?_, ?_⟩
      · simpa using hb
      · intro j h1 h2
        simp only [Bool.false_eq_true, ↓reduceIte] at h2
        omega
    | true =>
      obtain ⟨k, hk1, hk2, hk⟩ := hex
      have hne : k ≠ start := fun h => by rw [h, hb] at hk; cases hk
      obtain ⟨i1, i2, i3, i4⟩ := ih (start + 1) (by omega) ⟨k, by omega, hk2, hk⟩
      simp only [↓reduceIte]
      refine ⟨by omega, i2, i3, fun j h1 h2 => ?_⟩
      by_cases hj : j = start
      · rw [hj]; exact hb
      · exact i4 j (by omega) h2

/-- Bits `s` to `s + cnt - 1` all exist and are zero. -/
def Bitmap.FreeRun (b : Bitmap) (cnt s : Nat) : Prop :=
  s + cnt ≤ b.size ∧ ∀ i, s ≤ i → i < s + cnt → b.test i = false

/-- `s` starts the first such run. -/
structure Bitmap.FirstRun (b : Bitmap) (cnt s : Nat) : Prop where
  free : b.FreeRun cnt s
  least : ∀ t, t < s → ¬ b.FreeRun cnt t

/-- The two loops together find the first zero bit. -/
theorem firstZero_spec (b : Bitmap) (h : scanBytes b.bits < b.bits.length) :
    b.FirstRun 1 (scanBytes b.bits * 8 + scanBits (b.bits.getD (scanBytes b.bits) 0) 8 0) := by
  generalize hby : b.bits.getD (scanBytes b.bits) 0 = byte
  have hne : byte ≠ 0xff#8 := hby ▸ scanBytes_at b.bits h
  have hex : ∃ k, 0 ≤ k ∧ k < 8 ∧ byte.getLsbD k = false := by
    by_contra hno
    refine hne (eq_ff_of_all fun k hk => ?_)
    by_contra hf
    exact hno ⟨k, Nat.zero_le k, hk, by simpa using hf⟩
  obtain ⟨_, hlt, hzero, hbefore⟩ := scanBits_spec byte 8 0 rfl hex
  generalize hbit : scanBits byte 8 0 = bit at hlt hzero hbefore
  have hdiv : (scanBytes b.bits * 8 + bit) / 8 = scanBytes b.bits := by omega
  have hmod : (scanBytes b.bits * 8 + bit) % 8 = bit := by omega
  refine ⟨⟨by unfold Bitmap.size; omega, fun i h1 h2 => ?_⟩, fun t ht hfree => ?_⟩
  · have : i = scanBytes b.bits * 8 + bit := by omega
    rw [this]
    unfold Bitmap.test
    rw [hdiv, hmod, hby]
    exact hzero
  · have hone := hfree.2 t (Nat.le_refl t) (Nat.lt_succ_self t)
    unfold Bitmap.test at hone
    by_cases hfirst : t / 8 < scanBytes b.bits
    · rw [scanBytes_before b.bits _ hfirst] at hone
      have : ∀ i < 8, (0xff#8).getLsbD i = true := by decide
      rw [this _ (Nat.mod_lt _ (by decide))] at hone
      cases hone
    · have heq : t / 8 = scanBytes b.bits := by omega
      rw [heq, hby, hbefore (t % 8) (Nat.zero_le _) (by omega)] at hone
      cases hone

/-- THE LOOP INVARIANT of the last loop: `count` zero bits end just before
`nextBit`, the bit before them is set (or the run starts at the first zero bit),
and no run of `cnt` ends by `nextBit`. From there it finds the first run, or
shows that there is none. -/
theorem scanRun_spec (b : Bitmap) (cnt : Nat) : ∀ (left next count : Nat),
    next + left = b.size → count < cnt → count ≤ next →
    (∀ i, next - count ≤ i → i < next → b.test i = false) →
    (∀ t, t < next - count → ¬ b.FreeRun cnt t) →
    match scanRun b cnt left next count with
    | some s => b.FirstRun cnt s
    | none => ∀ t, ¬ b.FreeRun cnt t := by
  intro left
  induction left with
  | zero =>
    intro next count hsize hlt hle hzero hleast
    simp only [scanRun]
    intro t hfree
    by_cases ht : t < next - count
    · exact hleast t ht hfree
    · have := hfree.1
      omega
  | succ left ih =>
    intro next count hsize hlt hle hzero hleast
    unfold scanRun
    rw [bitmapScanTest_eq]
    cases hb : b.test next with
    | true =>
      -- the run is broken: nothing that contains `next` is free
      have hcnt : ¬ (0 = cnt) := by omega
      simp only [↓reduceIte, hcnt]
      refine ih (next + 1) 0 (by omega) (by omega) (by omega) (fun i h1 h2 => by omega)
        fun t ht hfree => ?_
      by_cases hearly : t < next - count
      · exact hleast t hearly hfree
      · have := hfree.2 next (by omega) (by omega)
        rw [hb] at this
        cases this
    | false =>
      simp only [Bool.false_eq_true, ↓reduceIte]
      have hzero' : ∀ i, next + 1 - (count + 1) ≤ i → i < next + 1 → b.test i = false := by
        intro i h1 h2
        by_cases hi : i = next
        · rw [hi]; exact hb
        · exact hzero i (by omega) (by omega)
      by_cases hdone : count + 1 = cnt
      · simp only [hdone, ↓reduceIte]
        refine ⟨⟨by omega, fun i h1 h2 => hzero' i (by omega) (by omega)⟩,
          fun t ht => hleast t (by omega)⟩
      · simp only [hdone, ↓reduceIte]
        exact ih (next + 1) (count + 1) (by omega) (by omega) (by omega) hzero' fun t ht =>
          hleast t (by omega)

theorem Bitmap.FreeRun.mono {b : Bitmap} {cnt c s : Nat} (h : b.FreeRun cnt s) (hc : c ≤ cnt) :
    b.FreeRun c s :=
  ⟨Nat.le_trans (by omega) h.1, fun i h1 h2 => h.2 i h1 (by omega)⟩

/-- A byte the first loop passes holds no zero bit. -/
theorem test_of_scanBytes {b : Bitmap} {i : Nat} (h : i / 8 < scanBytes b.bits) :
    b.test i = true := by
  unfold Bitmap.test
  rw [scanBytes_before b.bits _ h]
  have : ∀ i < 8, (0xff#8).getLsbD i = true := by decide
  exact this _ (Nat.mod_lt _ (by decide))

/-- WHAT `bitmap_scan` ANSWERS: the start of the first run of `cnt` zero bits, or
`-1` when there is no such run. -/
theorem scanAnswer_spec (b : Bitmap) {cnt : Nat} (hcnt : 1 ≤ cnt) :
    match scanAnswer b cnt with
    | some s => b.FirstRun cnt s
    | none => ∀ t, ¬ b.FreeRun cnt t := by
  have hle := scanBytes_le b.bits
  unfold scanAnswer Bitmap.btmpBytesLen
  by_cases hfull : scanBytes b.bits = b.bits.length
  · simp only [hfull, ↓reduceIte]
    intro t hfree
    have hin := hfree.1
    unfold Bitmap.size at hin
    have hone := hfree.2 t (Nat.le_refl t) (by omega)
    rw [test_of_scanBytes (by omega)] at hone
    cases hone
  · simp only [hfull, ↓reduceIte]
    have hfirst := firstZero_spec b (by omega)
    generalize scanBytes b.bits * 8 + scanBits (b.bits.getD (scanBytes b.bits) 0) 8 0 =
      start at hfirst ⊢
    by_cases hc : cnt = 1
    · simp only [hc, ↓reduceIte]
      exact hfirst
    · simp only [hc, ↓reduceIte]
      have hin := hfirst.free.1
      have hsize : b.bits.length * 8 = b.size := by unfold Bitmap.size; omega
      rw [hsize]
      refine scanRun_spec b cnt _ _ 1 (by omega) (by omega) (by omega) (fun i h1 h2 => ?_)
        fun t ht hfree => ?_
      · exact hfirst.free.2 i (by omega) (by omega)
      · exact hfirst.least t (by omega) (hfree.mono hcnt)

theorem bitmapScan_ok {ndebug : Bool} {b : Bitmap} {cnt : Nat} {r : Option Nat}
    (h : bitmapScan ndebug b cnt = .ok r) : r = scanAnswer b cnt := by
  unfold bitmapScan at h
  obtain ⟨_, _, h⟩ := bind_eq_ok.mp h
  obtain ⟨_, _, h⟩ := bind_eq_ok.mp h
  exact (Except.ok.inj h).symm

/-- With a zero bit somewhere the assertions of `bitmap_scan` pass. -/
theorem bitmapScan_total {ndebug : Bool} {b : Bitmap} {cnt : Nat} (hcnt : 1 ≤ cnt)
    (hfree : ∃ i, i < b.size ∧ b.test i = false) :
    bitmapScan ndebug b cnt = .ok (scanAnswer b cnt) := by
  obtain ⟨i, hi, hb⟩ := hfree
  have hlt : scanBytes b.bits < b.btmpBytesLen := by
    by_contra hge
    unfold Bitmap.size at hi
    unfold Bitmap.btmpBytesLen at hge
    rw [test_of_scanBytes (by omega)] at hb
    cases hb
  unfold bitmapScan
  rw [assertThat_of hcnt, assertThat_of hlt]
  rfl

/-- A bitmap with a run of `cnt` zero bits: the scan answers the first one. -/
theorem bitmapScan_some {ndebug : Bool} {b : Bitmap} {cnt t : Nat} (hcnt : 1 ≤ cnt)
    (hfree : b.FreeRun cnt t) : ∃ s, bitmapScan ndebug b cnt = .ok (some s) ∧ b.FirstRun cnt s := by
  have hscan : bitmapScan ndebug b cnt = .ok (scanAnswer b cnt) := bitmapScan_total hcnt
    ⟨t, by have := hfree.1; omega, hfree.2 t (Nat.le_refl t) (by omega)⟩
  have hspec := scanAnswer_spec b hcnt
  rw [hscan]
  cases hr : scanAnswer b cnt with
  | none => rw [hr] at hspec; exact absurd hfree (hspec t)
  | some s => rw [hr] at hspec; exact ⟨s, rfl, hspec⟩

/-- With assertions compiled in, a scan for one bit never answers `-1`: a full
bitmap stops the kernel instead. -/
theorem bitmapScan_one {b : Bitmap} {r : Option Nat} (h : bitmapScan false b 1 = .ok r) :
    ∃ s, r = some s ∧ s < b.size ∧ b.test s = false ∧ ∀ t < s, b.test t = true := by
  have hr := bitmapScan_ok h
  have hspec := scanAnswer_spec b (Nat.le_refl 1)
  rw [← hr] at hspec
  cases r with
  | some s =>
    have hin := hspec.free.1
    refine ⟨s, rfl, by omega, hspec.free.2 s (Nat.le_refl s) (by omega), fun t ht => ?_⟩
    by_contra hf
    refine hspec.least t ht ⟨by omega, fun i h1 h2 => ?_⟩
    rw [show i = t by omega]
    simpa using hf
  | none =>
    -- the assertion leaves a byte other than `0xff`
    exfalso
    unfold bitmapScan at h
    obtain ⟨_, _, h⟩ := bind_eq_ok.mp h
    obtain ⟨_, hlt, _⟩ := bind_eq_ok.mp h
    have hfirst := firstZero_spec b (assertThat_ok hlt)
    exact hspec _ hfirst.free

end SeekingOs
