import Mathlib.Tactic.Linarith
import SeekingOs.Kernel.Base
import SeekingOs.Lib.Loop

/-!
# How `boot/loader.s` finds the memory size

Two of the three ways to ask the BIOS. The first reads a list of memory areas and keeps the highest
end (`findMaxMemArea`); the second asks for two sizes, one in ax and one in bx, and adds them up
(`e801`). A definition is a run of instructions in the order of the source, on 32-bit registers of
which 16-bit instructions change the low half only.

`findMaxMemArea_eq` says what the first way answers and `e801_edx` what the second one does.
-/

namespace SeekingOs.Loader

open Lib

/-! ## Registers -/

/-- The registers that this part of the loader uses. -/
structure Regs where
  eax : BitVec 32
  ebx : BitVec 32
  ecx : BitVec 32
  edx : BitVec 32
  esi : BitVec 32
  deriving DecidableEq, Repr

/-- The low half of a register. -/
def low (r : BitVec 32) : BitVec 16 := r.setWidth 16

/-- A register after its low half is written. -/
def setLow (r : BitVec 32) (half : BitVec 16) : BitVec 32 := low (r >>> 16) ++ half

namespace Regs

/-- `mul cx`: the product of ax and cx goes to dx and ax. -/
def mulCx (r : Regs) : Regs :=
  let product := (low r.eax).setWidth 32 * (low r.ecx).setWidth 32
  { r with edx := setLow r.edx (low (product >>> 16)), eax := setLow r.eax (low product) }

/-- `mul ecx`: the product of eax and ecx goes to edx and eax. -/
def mulEcx (r : Regs) : Regs :=
  let product := r.eax.setWidth 64 * r.ecx.setWidth 64
  { r with edx := (product >>> 32).setWidth 32, eax := product.setWidth 32 }

end Regs

/-! ## The list of memory areas -/

/-- The fields of an address range descriptor that are read. -/
structure Ards where
  baseAddLow : BitVec 32
  lengthLow : BitVec 32
  deriving DecidableEq, Repr

/-- Where an area ends, in 32 bits. -/
def Ards.last (a : Ards) : BitVec 32 := a.baseAddLow + a.lengthLow

/-- The registers of the loop; `ebx` is the number of the descriptor it points at. -/
structure Areas where
  cx : BitVec 16
  ebx : Nat
  edx : BitVec 32

/-- A turn of `.find_max_mem_area`, on the descriptors in `ards_buf`. -/
def areaTurn (ardsBuf : List Ards) (r : Areas) : Except Fault (Turn Areas (BitVec 32)) :=
  match ardsBuf[r.ebx]? with
  | none => .error (.outOfBounds ".find_max_mem_area")
  | some ards =>
    let eax := ards.baseAddLow + ards.lengthLow
    -- `jge` compares signed numbers
    let edx := if eax.toInt ≤ r.edx.toInt then r.edx else eax
    let cx := r.cx - 1#16
    if cx = 0#16 then .ok (.leave edx) else .ok (.again ⟨cx, r.ebx + 1, edx⟩)

/-- From the list of areas to `.mem_get_ok`, where edx is stored in `total_mem_bytes`. -/
def findMaxMemArea (turns : Nat) (ardsBuf : List Ards) : Except (Cut Fault) (BitVec 32) :=
  whileLoop (areaTurn ardsBuf) turns ⟨BitVec.ofNat 16 ardsBuf.length, 0, 0#32⟩

/-! ## The two sizes -/

/-- `.e820_failed_so_try_e801`, from where the BIOS has answered in the registers `r`. -/
def e801 (r : Regs) : Regs :=
  let r := { r with ecx := setLow r.ecx 0x400#16 }
  let r := r.mulCx
  let r := { r with edx := r.edx <<< 16 }
  let r := { r with eax := r.eax &&& 0x0000ffff#32 }
  let r := { r with edx := r.edx ||| r.eax }
  -- edx holds the product now, and the rest goes on with eax
  let r := { r with eax := r.eax + 0x100000#32 }
  let r := { r with esi := r.eax }
  let r := { r with eax := 0#32 }
  let r := { r with eax := setLow r.eax (low r.ebx) }
  let r := { r with ecx := 0x10000#32 }
  let r := r.mulEcx
  let r := { r with esi := r.esi + r.eax }
  { r with edx := r.esi }

/-! ## What the first way answers -/

/-- The higher of two ends, as `cmp` and `jge` take them. -/
def higher (edx eax : BitVec 32) : BitVec 32 := if eax.toInt ≤ edx.toInt then edx else eax

/-- The highest end of a list of areas, `edx` for one. -/
def highest (edx : BitVec 32) (areas : List Ards) : BitVec 32 :=
  areas.foldl (fun edx a => higher edx a.last) edx

theorem higher_toInt (edx eax : BitVec 32) : (higher edx eax).toInt = max edx.toInt eax.toInt := by
  unfold higher
  split
  next le => exact (max_eq_left le).symm
  next lt => exact (max_eq_right (Int.le_of_lt (Int.not_le.mp lt))).symm

/-- No end is above the highest one. -/
theorem highest_ge (areas : List Ards) (edx : BitVec 32) :
    edx.toInt ≤ (highest edx areas).toInt ∧
    ∀ a ∈ areas, a.last.toInt ≤ (highest edx areas).toInt := by
  induction areas generalizing edx with
  | nil => exact ⟨Int.le_refl _, fun a ha => absurd ha List.not_mem_nil⟩
  | cons area areas ih =>
    obtain ⟨above, all⟩ := ih (higher edx area.last)
    rw [higher_toInt] at above
    refine ⟨Int.le_trans (le_max_left _ _) above, fun a ha => ?_⟩
    rcases List.mem_cons.mp ha with rfl | ha
    · exact Int.le_trans (le_max_right _ _) above
    · exact all a ha

/-- A bound on the ends is one on the highest. -/
theorem highest_le {bound : Int} (areas : List Ards) (edx : BitVec 32) (start : edx.toInt ≤ bound)
    (all : ∀ a ∈ areas, a.last.toInt ≤ bound) : (highest edx areas).toInt ≤ bound := by
  induction areas generalizing edx with
  | nil => exact start
  | cons area areas ih =>
    refine ih (higher edx area.last) ?_ fun a ha => all a (List.mem_cons_of_mem _ ha)
    rw [higher_toInt]
    exact max_le start (all area List.mem_cons_self)

/-- THE LOOP. A list that `cx` can count is gone through to its end. -/
theorem findMaxMemArea_eq {turns : Nat} {areas : List Ards} (nonempty : areas ≠ [])
    (counted : areas.length < 2 ^ 16) (enough : areas.length < turns) :
    findMaxMemArea turns areas = .ok (highest 0#32 areas) := by
  have pos : 0 < areas.length := List.length_pos_iff.mpr nonempty
  unfold findMaxMemArea
  refine whileLoop_eq (fun r : Areas => r.ebx < areas.length ∧ r.cx.toNat = areas.length - r.ebx)
    (fun r => areas.length - r.ebx) (fun r => highest r.edx (areas.drop r.ebx)) ?_ ⟨pos, ?_⟩
      (by simpa using enough)
  · rintro ⟨cx, i, edx⟩ ⟨inside, left⟩
    simp only at inside left ⊢
    have rest : areas.drop i = areas[i] :: areas.drop (i + 1) := List.drop_eq_getElem_cons inside
    have less : (cx - 1#16).toNat = areas.length - (i + 1) := by
      have ne : cx ≠ 0#16 := by
        rintro rfl
        simp only [BitVec.toNat_ofNat, Nat.zero_mod] at left
        omega
      rw [BitVec.toNat_sub_of_le (by bv_omega)]
      simp only [left, BitVec.toNat_ofNat]
      omega
    simp only [areaTurn, List.getElem?_eq_getElem inside, rest, highest, List.foldl_cons]
    by_cases done : cx - 1#16 = 0#16
    · left
      rw [done] at less
      have none : areas.drop (i + 1) = [] := List.drop_eq_nil_of_le (by simp at less; omega)
      simp only [done, ↓reduceIte, none, List.foldl_nil]
      rfl
    · right
      refine ⟨_, if_neg done, ⟨?_, less⟩, rfl, by simp only; omega⟩
      simp only
      by_contra more
      exact done (BitVec.eq_of_toNat_eq (by simp only [less, BitVec.toNat_ofNat]; omega))
  · simp only [BitVec.toNat_ofNat, Nat.sub_zero]
    exact Nat.mod_eq_of_lt counted

/-- The first way answers the end of the highest area. -/
theorem highest_eq {areas : List Ards} {a : Ards} (has : a ∈ areas) (pos : 0 ≤ a.last.toInt)
    (top : ∀ b ∈ areas, b.last.toInt ≤ a.last.toInt) : highest 0#32 areas = a.last := by
  apply BitVec.eq_of_toInt_eq
  apply Int.le_antisymm
  · exact highest_le areas 0#32 pos top
  · exact (highest_ge areas 0#32).2 a has

/-! ## What the second way answers -/

theorem toNat_setLow (r : BitVec 32) (half : BitVec 16) :
    (setLow r half).toNat = (low (r >>> 16)).toNat * 65536 + half.toNat := by
  unfold setLow
  rw [BitVec.toNat_append, ← Nat.shiftLeft_add_eq_or_of_lt half.isLt, Nat.shiftLeft_eq]

@[simp] theorem low_setLow (r : BitVec 32) (half : BitVec 16) : low (setLow r half) = half := by
  apply BitVec.eq_of_toNat_eq
  have bound := half.isLt
  rw [low, BitVec.toNat_setWidth, toNat_setLow]
  omega

/-- What 16-bit instructions leave of a register once its high half is masked out. -/
theorem setLow_and (r : BitVec 32) (half : BitVec 16) :
    setLow r half &&& 0x0000ffff#32 = half.setWidth 32 := by
  apply BitVec.eq_of_toNat_eq
  have bound := half.isLt
  rw [BitVec.toNat_and, show (0x0000ffff#32).toNat = 2 ^ 16 - 1 from rfl,
    Nat.and_two_pow_sub_one_eq_mod, toNat_setLow,
    BitVec.toNat_setWidth]
  omega

/-- `xor eax,eax` and `mov ax,bx` -/
theorem setLow_zero (half : BitVec 16) : setLow 0#32 half = half.setWidth 32 := by
  apply BitVec.eq_of_toNat_eq
  have bound := half.isLt
  have high : (low (0#32 >>> 16)).toNat = 0 := rfl
  rw [toNat_setLow, high, BitVec.toNat_setWidth]
  omega

/-- The product of a number of 64 KB units fits into eax. -/
theorem toNat_units (half : BitVec 16) :
    (((half.setWidth 32).setWidth 64 * (0x10000#32).setWidth 64).setWidth 32).toNat =
      half.toNat * 65536 := by
  have bound := half.isLt
  have unit : ((0x10000#32).setWidth 64).toNat = 65536 := rfl
  rw [BitVec.toNat_setWidth, BitVec.toNat_mul, unit, BitVec.toNat_setWidth, BitVec.toNat_setWidth]
  omega

/-- What `esi` is added up from: the low half of one product, and another product. -/
theorem e801_edx_eq (r : Regs) : (e801 r).edx =
    (setLow r.eax (low ((low r.eax).setWidth 32 * (low (setLow r.ecx 0x400#16)).setWidth 32)) &&&
      0x0000ffff#32) + 0x100000#32 +
      ((setLow 0#32 (low r.ebx)).setWidth 64 * (0x10000#32).setWidth 64).setWidth 32 := rfl

/-- THE SUM. Of the product of ax only the low half is added to the first MB: its high half is in
edx, which is written anew. -/
theorem e801_edx (r : Regs) : (e801 r).edx.toNat =
    ((low r.eax).toNat * 1024 % 65536 + 0x100000 + (low r.ebx).toNat * 65536) % 2 ^ 32 := by
  have ax := (low r.eax).isLt
  have bx := (low r.ebx).isLt
  have product : (low ((low r.eax).setWidth 32 * (0x400#16).setWidth 32)).toNat =
      (low r.eax).toNat * 1024 % 65536 := by
    simp only [low, BitVec.toNat_setWidth, BitVec.toNat_mul, BitVec.toNat_ofNat, Nat.reducePow,
      Nat.reduceMod]
    omega
  rw [e801_edx_eq, low_setLow, setLow_and, setLow_zero, BitVec.toNat_add, toNat_units,
    BitVec.toNat_add, BitVec.toNat_setWidth, product,
    BitVec.toNat_ofNat]
  omega

/-! ## The two ways side by side -/

/-- What the BIOS reports of a memory of `size` bytes: a list of areas, and two sizes in `r`. -/
structure Reports (size : Nat) (areas : List Ards) (r : Regs) : Prop where
  least : 16 * 2 ^ 20 ≤ size
  most : size < 2 ^ 31
  whole : 65536 ∣ size
  last : ∃ a ∈ areas, a.last.toNat = size
  top : ∀ a ∈ areas, a.last.toInt ≤ size
  counted : areas.length < 2 ^ 16
  ax : (low r.eax).toNat = 15 * 1024
  bx : (low r.ebx).toNat = (size - 16 * 2 ^ 20) / 65536

/-- Both ways store the size of the memory in `total_mem_bytes`. -/
def Agree (size : Nat) (areas : List Ards) (r : Regs) : Prop :=
  (∃ turns, findMaxMemArea turns areas = .ok (BitVec.ofNat 32 size)) ∧
    (e801 r).edx = BitVec.ofNat 32 size

variable {size : Nat} {areas : List Ards} {r : Regs}

/-- The first way stores the size of the memory. -/
theorem findMaxMemArea_size (report : Reports size areas r) {turns : Nat}
    (enough : areas.length < turns) : findMaxMemArea turns areas = .ok (BitVec.ofNat 32 size) := by
  obtain ⟨a, has, last⟩ := report.last
  have most := report.most
  have value : a.last.toInt = size := by
    rw [BitVec.toInt_eq_toNat_of_lt (by omega), last]
  rw [findMaxMemArea_eq (List.ne_nil_of_mem has) report.counted enough,
    highest_eq has (by omega) fun b hb => value ▸ report.top b hb, ← last, BitVec.ofNat_toNat,
    BitVec.setWidth_eq]

/-- The second way stores 15 MB less. -/
theorem e801_size (report : Reports size areas r) : (e801 r).edx.toNat = size - 15 * 2 ^ 20 := by
  obtain ⟨least, most, ⟨units, rfl⟩, _, _, _, ax, bx⟩ := report
  rw [e801_edx, ax, bx]
  omega

/-- THE 15 MB ARE LOST. Whatever the memory, the list gives its size and the two sizes give 15 MB
less, so the two ways never agree. -/
theorem paths_differ (report : Reports size areas r) :
    findMaxMemArea (areas.length + 1) areas = .ok (BitVec.ofNat 32 size) ∧
      (e801 r).edx.toNat = size - 15 * 2 ^ 20 ∧ ¬ Agree size areas r := by
  have second := e801_size report
  refine ⟨findMaxMemArea_size report (Nat.lt_succ_self _), second, fun ⟨_, agree⟩ => ?_⟩
  have least := report.least
  have most := report.most
  have value : (e801 r).edx.toNat = size := by
    rw [agree, BitVec.toNat_ofNat]
    exact Nat.mod_eq_of_lt (by omega)
  omega

/-- A memory of 32 MB, with the usual hole below the first MB. -/
theorem reports_32MB :
    Reports 0x2000000 [⟨0, 0x9fc00⟩, ⟨0x100000, 0x1f00000⟩] ⟨0x3c00, 0x100, 0x3c00, 0x100, 0⟩ where
  least := by decide
  most := by decide
  whole := by decide
  last := ⟨⟨0x100000, 0x1f00000⟩, by decide, rfl⟩
  top := by decide
  counted := by decide
  ax := rfl
  bx := rfl

theorem paths_differ_32MB :
    findMaxMemArea 3 [⟨0, 0x9fc00⟩, ⟨0x100000, 0x1f00000⟩] = .ok (BitVec.ofNat 32 0x2000000) ∧
      (e801 ⟨0x3c00, 0x100, 0x3c00, 0x100, 0⟩).edx.toNat = 0x2000000 - 15 * 2 ^ 20 ∧
      ¬ Agree 0x2000000 [⟨0, 0x9fc00⟩, ⟨0x100000, 0x1f00000⟩] ⟨0x3c00, 0x100, 0x3c00, 0x100, 0⟩ :=
  paths_differ reports_32MB

theorem paths_may_differ : ¬ ∀ size areas r, Reports size areas r → Agree size areas r := by
  intro agree
  obtain ⟨_, second⟩ := agree _ _ _ reports_32MB
  exact absurd second (by decide)

end SeekingOs.Loader
