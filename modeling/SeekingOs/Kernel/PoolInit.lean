import SeekingOs.Kernel.Base
import Mathlib.Data.Finset.Card
import Mathlib.Order.Interval.Finset.Nat

/-!
# `mem_pool_init`

The memory behind the first two megabytes is divided between the two pools, and three bitmaps are
put one behind the other below the task structure of the main thread. The counts of pages are kept
in `uint16_t`.

Addresses are in bytes here, as in the source; the other modules count in pages.
-/

namespace SeekingOs

/-- The cast to `uint16_t`. -/
def u16 (n : Nat) : Nat := n % 65536

/-- `MEM_BITMAP_BASE` -/
def memBitmapBase : Nat := 0xc009a000

/-- Where the task structure of the main thread is. -/
def mainPcb : Nat := 0xc009e000

/-- `struct bitmap`, with the address of its bits. -/
structure BitmapAt where
  bits : Nat
  btmpBytesLen : Nat
  deriving DecidableEq, Repr

/-- `struct pool`, without its lock. -/
structure PoolAt where
  poolBitmap : BitmapAt
  phyAddrStart : Nat
  poolSize : Nat
  deriving DecidableEq, Repr

/-- What `mem_pool_init` leaves: the two pools, the bitmap of the kernel's addresses and the memory
that the bits are in. -/
structure PoolsAt where
  kernelPool : PoolAt
  userPool : PoolAt
  vaddrBitmap : BitmapAt
  vaddrStart : Nat
  mem : Nat → Byte

/-- `bitmap_init` -/
def clearBits (mem : Nat → Byte) (b : BitmapAt) : Nat → Byte :=
  fun a => if b.bits ≤ a ∧ a < b.bits + b.btmpBytesLen then 0 else mem a

/-- `used_mem`: 256 pages of tables and the low megabyte. -/
def usedMem : Nat := 4096 * 256 + 0x100000

/-- `mem_pool_init` -/
def memPoolInit (allMem : Nat) (mem : Nat → Byte) : PoolsAt :=
  let freeMem := u32 (allMem - usedMem : Int)
  let allFreePages := u16 (freeMem / 4096)
  let kernelFreePages := u16 (allFreePages / 2)
  let userFreePages := u16 (allFreePages - kernelFreePages)
  let kbmLenth := u16 (kernelFreePages / 8)
  let ubmLenth := u16 (userFreePages / 8)
  let kpStart := usedMem
  let upStart := u32 (kpStart + kernelFreePages * 4096 : Nat)
  let kernelPool := ⟨⟨memBitmapBase, kbmLenth⟩, kpStart, kernelFreePages * 4096⟩
  let userPool := ⟨⟨memBitmapBase + kbmLenth, ubmLenth⟩, upStart, userFreePages * 4096⟩
  let mem := clearBits (clearBits mem kernelPool.poolBitmap) userPool.poolBitmap
  let vaddrBitmap := ⟨memBitmapBase + kbmLenth + ubmLenth, kbmLenth⟩
  ⟨kernelPool, userPool, vaddrBitmap, 0xc0100000, clearBits mem vaddrBitmap⟩

namespace PoolAt

/-- The frame that `palloc` answers for a bit. -/
def frameAt (pool : PoolAt) (bitIdx : Nat) : Nat := u32 (pool.phyAddrStart + bitIdx * 4096 : Nat)

/-- A bit of the bitmap stands for the frame at `a`. -/
def Represents (pool : PoolAt) (a : Nat) : Prop :=
  ∃ i < 8 * pool.poolBitmap.btmpBytesLen, pool.frameAt i = a

instance (pool : PoolAt) (a : Nat) : Decidable (pool.Represents a) :=
  inferInstanceAs (Decidable (∃ i < 8 * pool.poolBitmap.btmpBytesLen, pool.frameAt i = a))

end PoolAt

/-- The bytes of the two bitmaps are different ones. -/
def BitmapAt.Apart (b b' : BitmapAt) : Prop :=
  b.bits + b.btmpBytesLen ≤ b'.bits ∨ b'.bits + b'.btmpBytesLen ≤ b.bits

/-- The bits stand for frames of the free memory, each for another. -/
structure PoolAt.Inside (pool : PoolAt) (allMem : Nat) : Prop where
  frames : ∀ a, pool.Represents a → usedMem ≤ a ∧ a + 4096 ≤ allMem ∧ a % 4096 = 0
  injective : ∀ i < 8 * pool.poolBitmap.btmpBytesLen, ∀ j < 8 * pool.poolBitmap.btmpBytesLen,
    pool.frameAt i = pool.frameAt j → i = j

/-- The frames of the machine behind the memory that is used. -/
def freeFrames (allMem : Nat) : Finset Nat := Finset.Ico (usedMem / 4096) (allMem / 4096)

/-- Those that no bit stands for. -/
def PoolsAt.lost (s : PoolsAt) (allMem : Nat) : Finset Nat :=
  (freeFrames allMem).filter fun f => ¬ (s.kernelPool.Represents (4096 * f) ∨
    s.userPool.Represents (4096 * f))

/-- The pools cover the memory. -/
structure PoolsAt.Covers (s : PoolsAt) (allMem : Nat) : Prop where
  kernel : s.kernelPool.Inside allMem
  user : s.userPool.Inside allMem
  disjoint : ∀ a, ¬ (s.kernelPool.Represents a ∧ s.userPool.Represents a)
  kernelUser : s.kernelPool.poolBitmap.Apart s.userPool.poolBitmap
  kernelVaddr : s.kernelPool.poolBitmap.Apart s.vaddrBitmap
  userVaddr : s.userPool.poolBitmap.Apart s.vaddrBitmap
  below : ∀ b ∈ [s.kernelPool.poolBitmap, s.userPool.poolBitmap, s.vaddrBitmap], b.bits +
    b.btmpBytesLen ≤ mainPcb ∧
    ∀ k < b.btmpBytesLen, s.mem (b.bits + k) = 0
  lostFew : (s.lost allMem).card ≤ 16

variable {allMem : Nat} {mem : Nat → Byte}

/-! ## What the fields are -/

/-- The pages that `mem_pool_init` counts. -/
def countedPages (allMem : Nat) : Nat := (allMem - usedMem) / 4096 % 65536

/-- The fields, without the casts that lose nothing. -/
structure PoolsAt.Fields (s : PoolsAt) (n : Nat) : Prop where
  kernelPool : s.kernelPool = ⟨⟨memBitmapBase, n / 2 / 8⟩, usedMem, n / 2 * 4096⟩
  userPool : s.userPool = ⟨⟨memBitmapBase + n / 2 / 8, (n - n / 2) / 8⟩, usedMem + n / 2 * 4096,
    (n - n / 2) * 4096⟩
  vaddrBitmap : s.vaddrBitmap = ⟨memBitmapBase + n / 2 / 8 + (n - n / 2) / 8, n / 2 / 8⟩

theorem u16_of_lt {n : Nat} (h : n < 65536) : u16 n = n := Nat.mod_eq_of_lt h

theorem memPoolInit_fields (mem : Nat → Byte) (h4 : 0x400000 ≤ allMem)
    (h512 : allMem ≤ 0x20000000) : (memPoolInit allMem mem).Fields (countedPages allMem) := by
  have hfree : u32 (allMem - usedMem : Int) = allMem - usedMem := by
    unfold u32 usedMem
    omega
  have hcount : u16 ((allMem - usedMem) / 4096) = countedPages allMem := rfl
  have hlt : countedPages allMem < 65536 := Nat.mod_lt _ (by decide)
  have hk : u16 (countedPages allMem / 2) = countedPages allMem / 2 := u16_of_lt (by omega)
  have hu : u16 (countedPages allMem - countedPages allMem / 2) =
      countedPages allMem - countedPages allMem / 2 := u16_of_lt (by omega)
  have hkb : u16 (countedPages allMem / 2 / 8) = countedPages allMem / 2 / 8 := u16_of_lt (by omega)
  have hub : u16 ((countedPages allMem - countedPages allMem / 2) / 8) =
      (countedPages allMem - countedPages allMem / 2) / 8 :=
    u16_of_lt (by omega)
  have hup : u32 (usedMem + countedPages allMem / 2 * 4096 : Nat) =
      usedMem + countedPages allMem / 2 * 4096 :=
    u32_of_lt (by unfold usedMem; omega)
  unfold memPoolInit
  dsimp only
  rw [hfree, hcount, hk, hu, hkb, hub, hup]
  exact ⟨rfl, rfl, rfl⟩

/-! ## One pool -/

namespace PoolAt

variable {pool : PoolAt} {a : Nat}

/-- Below 4 GB the addresses do not wrap. -/
theorem frameAt_eq (fits : pool.phyAddrStart + 8 * pool.poolBitmap.btmpBytesLen * 4096 ≤ 2 ^ 32)
    {i : Nat} (hi : i < 8 * pool.poolBitmap.btmpBytesLen) :
    pool.frameAt i = pool.phyAddrStart + i * 4096 :=
  u32_of_lt (by omega)

/-- The frames that the bits stand for, one behind the other. -/
theorem represents_iff
    (fits : pool.phyAddrStart + 8 * pool.poolBitmap.btmpBytesLen * 4096 ≤ 2 ^ 32) :
    pool.Represents a ↔ ∃ i < 8 * pool.poolBitmap.btmpBytesLen, pool.phyAddrStart + i * 4096 =
      a := by
  constructor
  · rintro ⟨i, hi, ha⟩
    exact ⟨i, hi, (frameAt_eq fits hi).symm.trans ha⟩
  · rintro ⟨i, hi, ha⟩
    exact ⟨i, hi, (frameAt_eq fits hi).trans ha⟩

theorem inside_of_fits {allMem : Nat}
    (fits : pool.phyAddrStart + 8 * pool.poolBitmap.btmpBytesLen * 4096 ≤ allMem)
    (h32 : allMem ≤ 2 ^ 32) (start : usedMem ≤ pool.phyAddrStart)
    (aligned : pool.phyAddrStart % 4096 = 0) : pool.Inside allMem := by
  have fits' := fits.trans h32
  constructor
  · intro a ha
    obtain ⟨i, hi, rfl⟩ := (represents_iff fits').mp ha
    omega
  · intro i hi j hj heq
    rw [frameAt_eq fits' hi, frameAt_eq fits' hj] at heq
    omega

end PoolAt

/-! ## The bitmaps -/

theorem clearBits_zero {b : BitmapAt} {a : Nat}
    (h : b.bits ≤ a ∧ a < b.bits + b.btmpBytesLen ∨ mem a = 0) : clearBits mem b a = 0 := by
  unfold clearBits
  split
  · rfl
  · rename_i hout
    exact h.resolve_left hout

/-- All three bitmaps are clear. -/
theorem memPoolInit_clear (allMem : Nat) (mem : Nat → Byte) {b : BitmapAt}
    (hb : b ∈ [(memPoolInit allMem mem).kernelPool.poolBitmap,
      (memPoolInit allMem mem).userPool.poolBitmap, (memPoolInit allMem mem).vaddrBitmap]) {k : Nat}
    (hk : k < b.btmpBytesLen) : (memPoolInit allMem mem).mem (b.bits + k) = 0 := by
  have hmem : (memPoolInit allMem mem).mem =
      clearBits (clearBits (clearBits mem (memPoolInit allMem mem).kernelPool.poolBitmap)
    (memPoolInit allMem mem).userPool.poolBitmap) (memPoolInit allMem mem).vaddrBitmap := rfl
  have hin : b.bits ≤ b.bits + k ∧ b.bits + k < b.bits + b.btmpBytesLen :=
    ⟨Nat.le_add_right _ _, Nat.add_lt_add_left hk _⟩
  rw [hmem]
  simp only [List.mem_cons, List.not_mem_nil, or_false] at hb
  obtain rfl | rfl | rfl := hb
  · exact clearBits_zero (.inr (clearBits_zero (.inr (clearBits_zero (.inl hin)))))
  · exact clearBits_zero (.inr (clearBits_zero (.inl hin)))
  · exact clearBits_zero (.inl hin)

/-! ## The frames -/

/-- The pages that are counted are there. -/
theorem countedPages_le (h4 : 0x400000 ≤ allMem) :
    usedMem + countedPages allMem * 4096 ≤ allMem := by
  have h := Nat.mod_le ((allMem - usedMem) / 4096) 65536
  unfold countedPages
  unfold usedMem at h ⊢
  omega

/-- Up to 258 MB all pages are counted. -/
theorem countedPages_eq (h : allMem < 0x10200000) :
    countedPages allMem = (allMem - usedMem) / 4096 := by
  apply Nat.mod_eq_of_lt
  unfold usedMem
  omega

/-- From there on 65536 of them are not. -/
theorem countedPages_wrap (h : 0x10200000 ≤ allMem) (h512 : allMem ≤ 0x20000000) :
    countedPages allMem + 65536 = (allMem - usedMem) / 4096 := by
  unfold countedPages usedMem
  omega

namespace PoolsAt

variable {s : PoolsAt} {n a : Nat}

/-- What the bits of the kernel's pool stand for. -/
theorem Fields.kernel_represents (h : s.Fields n) (hn : n < 65536) :
    s.kernelPool.Represents a ↔ ∃ i < 8 * (n / 2 / 8), usedMem + i * 4096 = a := by
  rw [h.kernelPool]
  exact PoolAt.represents_iff (by unfold usedMem; dsimp only; omega)

/-- And those of the user's. -/
theorem Fields.user_represents (h : s.Fields n) (hn : n < 65536) :
    s.userPool.Represents a ↔
    ∃ i < 8 * ((n - n / 2) / 8), usedMem + n / 2 * 4096 + i * 4096 = a := by
  rw [h.userPool]
  exact PoolAt.represents_iff (by unfold usedMem; dsimp only; omega)

/-- When all pages are counted, what the two divisions leave is lost and no more. -/
theorem Fields.lost_few (h : s.Fields n) (hn : n < 65536) (hall : n = (allMem - usedMem) / 4096)
    (h4 : 0x400000 ≤ allMem) : (s.lost allMem).card ≤ 16 := by
  have hsub : s.lost allMem ⊆ Finset.Ico (512 + 8 * (n / 2 / 8)) (512 + n / 2) ∪
      Finset.Ico (512 + n / 2 + 8 * ((n - n / 2) / 8)) (512 + n) := by
    intro f hf
    unfold lost freeFrames usedMem at hf
    rw [Finset.mem_filter, Finset.mem_Ico, h.kernel_represents hn, h.user_represents hn] at hf
    obtain ⟨⟨hlow, hhigh⟩, hnot⟩ := hf
    unfold usedMem at hall hnot
    rw [Finset.mem_union, Finset.mem_Ico, Finset.mem_Ico]
    by_contra hout
    apply hnot
    by_cases hk : f < 512 + n / 2
    · exact .inl ⟨f - 512, by omega, by omega⟩
    · exact .inr ⟨f - 512 - n / 2, by omega, by omega⟩
  refine (Finset.card_le_card hsub).trans ((Finset.card_union_le _ _).trans ?_)
  rw [Nat.card_Ico, Nat.card_Ico]
  omega

/-- THE PAGES THAT ARE NOT COUNTED are lost. -/
theorem Fields.lost_many (h : s.Fields n) (hn : n < 65536)
    (hwrap : n + 65536 = (allMem - usedMem) / 4096) : 65536 ≤ (s.lost allMem).card := by
  have hsub : Finset.Ico (512 + n) (512 + n + 65536) ⊆ s.lost allMem := by
    intro f hf
    rw [Finset.mem_Ico] at hf
    unfold lost freeFrames
    rw [Finset.mem_filter, Finset.mem_Ico, h.kernel_represents hn, h.user_represents hn]
    unfold usedMem at hwrap ⊢
    refine ⟨by omega, ?_⟩
    rintro (⟨i, hi, heq⟩ | ⟨i, hi, heq⟩)
    · omega
    · omega
  have hcard := Finset.card_le_card hsub
  rwa [Nat.card_Ico, Nat.add_sub_cancel_left] at hcard

end PoolsAt

/-- All but the frames that are lost holds of every size. -/
theorem memPoolInit_covers (mem : Nat → Byte) (h4 : 0x400000 ≤ allMem) (h512 : allMem ≤ 0x20000000)
    (few : ((memPoolInit allMem mem).lost allMem).card ≤ 16) :
    (memPoolInit allMem mem).Covers allMem := by
  have h := memPoolInit_fields mem h4 h512
  have hn : countedPages allMem < 65536 := Nat.mod_lt _ (by decide)
  have hle := countedPages_le h4
  have h32 : allMem ≤ 2 ^ 32 := by omega
  have hkernel : 8 * (countedPages allMem / 2 / 8) ≤ countedPages allMem := by omega
  have huser : countedPages allMem / 2 + 8 * ((countedPages allMem - countedPages allMem / 2) / 8) ≤
      countedPages allMem := by omega
  constructor
  · rw [h.kernelPool]
    apply PoolAt.inside_of_fits
    · exact (Nat.add_le_add_left (Nat.mul_le_mul_right 4096 hkernel) usedMem).trans hle
    · exact h32
    · exact Nat.le_refl _
    · show usedMem % 4096 = 0
      decide
  · rw [h.userPool]
    apply PoolAt.inside_of_fits
    · refine Nat.le_trans ?_ hle
      dsimp only
      rw [Nat.add_assoc, ← Nat.add_mul]
      exact Nat.add_le_add_left (Nat.mul_le_mul_right 4096 huser) usedMem
    · exact h32
    · exact Nat.le_add_right _ _
    · unfold usedMem
      dsimp only
      omega
  · rintro a ⟨hk, hu⟩
    obtain ⟨i, hi, rfl⟩ := (h.kernel_represents hn).mp hk
    obtain ⟨j, hj, heq⟩ := (h.user_represents hn).mp hu
    omega
  · rw [h.kernelPool, h.userPool]
    exact .inl (Nat.le_refl _)
  · rw [h.kernelPool, h.vaddrBitmap]
    exact .inl (Nat.le_add_right _ _)
  · rw [h.userPool, h.vaddrBitmap]
    exact .inl (Nat.le_refl _)
  · intro b hb
    refine ⟨?_, fun k hk => memPoolInit_clear allMem mem hb hk⟩
    rw [h.kernelPool, h.userPool, h.vaddrBitmap] at hb
    simp only [List.mem_cons, List.not_mem_nil, or_false] at hb
    unfold memBitmapBase at hb
    unfold mainPcb
    obtain rfl | rfl | rfl := hb
    · dsimp only
      omega
    · dsimp only
      omega
    · dsimp only
      omega
  · exact few

/-- THE POOLS COVER THE MEMORY up to 258 MB, and from there on they do not. -/
theorem pools_cover_iff (allMem : Nat) (mem : Nat → Byte) (h4 : 0x400000 ≤ allMem)
    (h512 : allMem ≤ 0x20000000) :
    (memPoolInit allMem mem).Covers allMem ↔ allMem < 0x10200000 := by
  have h := memPoolInit_fields mem h4 h512
  have hn : countedPages allMem < 65536 := Nat.mod_lt _ (by decide)
  constructor
  · intro hcovers
    by_contra hlarge
    have hlost := h.lost_many hn (countedPages_wrap (by omega) h512)
    have hfew := hcovers.lostFew
    omega
  · intro hsmall
    exact memPoolInit_covers mem h4 h512 (h.lost_few hn (countedPages_eq hsmall) h4)

theorem pools_cover_32MB : (memPoolInit 0x2000000 fun _ => 0).Covers 0x2000000 :=
  (pools_cover_iff 0x2000000 _ (by decide) (by decide)).mpr (by decide)

/-- At 512 MB half of the machine has no bit. -/
theorem lost_512MB : ¬ (memPoolInit 0x20000000 fun _ => 0).Covers 0x20000000 := by
  intro hcovers
  have h := memPoolInit_fields (fun _ => 0) (show 0x400000 ≤ 0x20000000 by decide) (Nat.le_refl _)
  have hlost :=
    h.lost_many (Nat.mod_lt _ (by decide)) (countedPages_wrap (by decide) (Nat.le_refl _))
  have hfew := hcovers.lostFew
  omega

end SeekingOs
