import SeekingOs.Kernel.Memory

/-!
# The page tables as the processor sees them

A directory has itself as its last entry, so its tables are pages of every address space. `pte_ptr`
and `pde_ptr` put the bit fields of an address together so that the walk of the processor goes
through the directory twice, once as a directory and once as a table.

Addresses are 32 bits here, and memory is words at physical addresses; all the addresses that are
used are multiples of 4. What a walk has found is not kept (there is no TLB).
-/

namespace SeekingOs.Paging

open Lib

/-- `uint32_t` -/
abbrev Word := BitVec 32

/-! ## The processor -/

/-- `PG_P_1` is set. -/
def Present (entry : Word) : Prop := entry &&& 1#32 ≠ 0#32

instance (entry : Word) : Decidable (Present entry) :=
  inferInstanceAs (Decidable (entry &&& 1#32 ≠ 0#32))

/-- The page, or the frame, of an address. -/
def pageOf (a : Word) : Word := a &&& 0xfffff000#32

/-- The place in the page. -/
def offsetOf (a : Word) : Word := a &&& 0x00000fff#32

/-- The high 10 bits of an address. -/
def dirIndex (v : Word) : Word := v >>> 22

/-- The middle 10 bits. -/
def tableIndex (v : Word) : Word := (v >>> 12) &&& 0x3ff#32

/-- Memory, the register of the directory, and the pool that tables are taken from. -/
structure Cpu where
  ram : Word → Word
  cr3 : Word
  kernelPool : Bitmap
  phyAddrStart : Word

namespace Cpu

variable (m : Cpu)

/-- Where the directory entry of an address is. -/
def dirEntry (v : Word) : Word := pageOf m.cr3 + dirIndex v * 4#32

/-- Where the table entry of an address is, when there is a table. -/
def tableEntry (v : Word) : Word := pageOf (m.ram (m.dirEntry v)) + tableIndex v * 4#32

/-- The two-level walk. -/
def walk (v : Word) : Option Word :=
  if Present (m.ram (m.dirEntry v)) then
    if Present (m.ram (m.tableEntry v)) then some (pageOf (m.ram (m.tableEntry v)) + offsetOf v)
    else none
  else none

/-- `*v` -/
def read (func : String) (v : Word) : Except Fault Word :=
  match m.walk v with
  | none => .error (.pageFault func)
  | some a => .ok (m.ram a)

/-- A word of memory is set. -/
def set (a w : Word) : Cpu := { m with ram := Function.update m.ram a w }

/-- `*v = w` -/
def write (func : String) (v w : Word) : Except Fault Cpu :=
  match m.walk v with
  | none => .error (.pageFault func)
  | some a => .ok (m.set a w)

/-- `memset(v, 0, 4 * n)`, in words -/
def clearWords (func : String) (m : Cpu) (v : Word) : Nat → Except Fault Cpu
  | 0 => .ok m
  | n + 1 => do
    let m ← m.write func v 0
    clearWords func m (v + 4#32) n

end Cpu

/-! ## `memory.c` -/

/-- `PDE_IDX` -/
def pdeIdx (addr : Word) : Word := (addr &&& 0xffc00000#32) >>> 22

/-- `PTE_IDX` -/
def pteIdx (addr : Word) : Word := (addr &&& 0x003ff000#32) >>> 12

/-- `pte_ptr` -/
def ptePtr (vaddr : Word) : Word :=
  0xffc00000#32 + ((vaddr &&& 0xffc00000#32) >>> 10) + pteIdx vaddr * 4#32

/-- `pde_ptr` -/
def pdePtr (vaddr : Word) : Word := 0xfffff000#32 + pdeIdx vaddr * 4#32

/-- `phyaddr | PG_US_U | PG_RW_W | PG_P_1` -/
def entryFor (phyaddr : Word) : Word := phyaddr ||| 4#32 ||| 2#32 ||| 1#32

namespace Cpu

variable (m : Cpu)

/-- `palloc(&kernel_pool)`; 0 is `NULL`. -/
def palloc : Except Fault (Word × Cpu) := do
  match ← bitmapScan false m.kernelPool 1 with
  | none => return (0, m)
  | some bitIdx =>
    return (m.phyAddrStart + BitVec.ofNat 32 bitIdx * 4096#32,
      { m with kernelPool := bitmapSet m.kernelPool bitIdx true })

/-- The table entry is filled in. The branch behind the assertion is taken. -/
def addEntry (vaddr pagePhyaddr : Word) : Except Fault Cpu := do
  let pte ← m.read "page_table_add" (ptePtr vaddr)
  assertThat false (¬ Present pte) "page_table_add" "!(*pte & 0x00000001)"
  m.write "page_table_add" (ptePtr vaddr) (entryFor pagePhyaddr)

/-- `page_table_add` -/
def pageTableAdd (vaddr pagePhyaddr : Word) : Except Fault Cpu := do
  let pde ← m.read "page_table_add" (pdePtr vaddr)
  if Present pde then m.addEntry vaddr pagePhyaddr
  else
    let (ptPhyaddr, m) ← m.palloc
    let m ← m.write "page_table_add" (pdePtr vaddr) (entryFor ptPhyaddr)
    let m ← clearWords "page_table_add" m (pageOf (ptePtr vaddr)) 1024
    m.addEntry vaddr pagePhyaddr

/-- `addr_v2p` -/
def addrV2p (vaddr : Word) : Except Fault Word := do
  let pte ← m.read "addr_v2p" (ptePtr vaddr)
  return pageOf pte + offsetOf vaddr

/-- Entry 1023 of the directory holds the directory's own frame. -/
structure SelfMapped : Prop where
  present : Present (m.ram (pageOf m.cr3 + 1023#32 * 4#32))
  frame : pageOf (m.ram (pageOf m.cr3 + 1023#32 * 4#32)) = pageOf m.cr3

/-- A frame that is neither the directory nor one of its tables. -/
structure Fresh (frame : Word) : Prop where
  aligned : pageOf frame = frame
  notDir : frame ≠ pageOf m.cr3
  notTable : ∀ v, Present (m.ram (m.dirEntry v)) → pageOf (m.ram (m.dirEntry v)) ≠ frame

/-- What the pool gives is a fresh frame. -/
def FreshFrame : Prop := ∃ frame m', m.palloc = .ok (frame, m') ∧ m.Fresh frame

end Cpu

/-! ## The fields of an address -/

theorem pageOf_toNat (a : Word) : (pageOf a).toNat = a.toNat / 4096 * 4096 := by
  have heq : pageOf a = (a >>> 12) <<< 12 := by
    apply BitVec.eq_of_getLsbD_eq
    intro i hi
    have mask : ∀ i < 32, (0xfffff000#32).getLsbD i = decide (12 ≤ i) := by decide
    unfold pageOf
    rw [BitVec.getLsbD_and, mask i hi, BitVec.getLsbD_shiftLeft, BitVec.getLsbD_ushiftRight]
    by_cases h : 12 ≤ i
    · simp [h, hi, Nat.not_lt.mpr h]
    · simp [h, Nat.lt_of_not_le h]
  have := a.isLt
  rw [heq, BitVec.toNat_shiftLeft, BitVec.toNat_ushiftRight, Nat.shiftLeft_eq,
    Nat.shiftRight_eq_div_pow]
  omega

theorem offsetOf_toNat (a : Word) : (offsetOf a).toNat = a.toNat % 4096 := by
  unfold offsetOf
  rw [BitVec.toNat_and]
  exact Nat.and_two_pow_sub_one_eq_mod a.toNat 12

theorem dirIndex_toNat (v : Word) : (dirIndex v).toNat = v.toNat / 4194304 := by
  unfold dirIndex
  rw [BitVec.toNat_ushiftRight, Nat.shiftRight_eq_div_pow]

theorem tableIndex_toNat (v : Word) : (tableIndex v).toNat = v.toNat / 4096 % 1024 := by
  unfold tableIndex
  rw [BitVec.toNat_and, BitVec.toNat_ushiftRight, Nat.shiftRight_eq_div_pow]
  exact Nat.and_two_pow_sub_one_eq_mod _ 10

/-- The macros take the fields that the processor does. -/
theorem pdeIdx_eq (v : Word) : pdeIdx v = dirIndex v := by
  apply BitVec.eq_of_getLsbD_eq
  intro i hi
  have mask : ∀ i < 32, (0xffc00000#32).getLsbD i = decide (22 ≤ i) := by decide
  unfold pdeIdx dirIndex
  rw [BitVec.getLsbD_ushiftRight, BitVec.getLsbD_and, BitVec.getLsbD_ushiftRight]
  by_cases h : 22 + i < 32
  · rw [mask _ h, decide_eq_true (Nat.le_add_right 22 i), Bool.and_true]
  · rw [BitVec.getLsbD_of_ge v _ (by omega), Bool.false_and]

theorem pteIdx_eq (v : Word) : pteIdx v = tableIndex v := by
  apply BitVec.eq_of_getLsbD_eq
  intro i hi
  have mask : ∀ i < 32, (0x003ff000#32).getLsbD i = (decide (12 ≤ i) && decide (i < 22)) := by
    decide
  have mask' : ∀ i < 32, (0x3ff#32).getLsbD i = decide (i < 10) := by decide
  unfold pteIdx tableIndex
  rw [BitVec.getLsbD_ushiftRight, BitVec.getLsbD_and, BitVec.getLsbD_and,
    BitVec.getLsbD_ushiftRight, mask' i hi]
  by_cases h : 12 + i < 32
  · rw [mask _ h]
    congr 1
    simp only [Nat.le_add_right, decide_true, Bool.true_and, decide_eq_decide]
    omega
  · rw [BitVec.getLsbD_of_ge v _ (by omega), Bool.false_and, Bool.false_and]

theorem high_toNat (v : Word) :
    ((v &&& 0xffc00000#32) >>> 10).toNat = v.toNat / 4194304 * 4096 := by
  have h : (v &&& 0xffc00000#32) >>> 10 = (pdeIdx v) <<< 12 := by
    apply BitVec.eq_of_getLsbD_eq
    intro i hi
    have mask : ∀ i < 32, (0xffc00000#32).getLsbD i = decide (22 ≤ i) := by decide
    unfold pdeIdx
    rw [BitVec.getLsbD_shiftLeft, BitVec.getLsbD_ushiftRight, BitVec.getLsbD_ushiftRight,
      BitVec.getLsbD_and, BitVec.getLsbD_and]
    by_cases h12 : i < 12
    · rw [mask _ (by omega), decide_eq_false (by omega)]
      simp [h12]
    · rw [show 22 + (i - 12) = 10 + i by omega]
      simp [h12, hi]
  have := v.isLt
  rw [h, pdeIdx_eq, BitVec.toNat_shiftLeft, dirIndex_toNat, Nat.shiftLeft_eq]
  omega

theorem ptePtr_toNat (v : Word) :
    (ptePtr v).toNat = 4290772992 + v.toNat / 4194304 * 4096 + v.toNat / 4096 % 1024 * 4 := by
  have := v.isLt
  unfold ptePtr
  rw [BitVec.toNat_add, BitVec.toNat_add, high_toNat, BitVec.toNat_mul, pteIdx_eq, tableIndex_toNat]
  simp only [BitVec.toNat_ofNat]
  omega

theorem pdePtr_toNat (v : Word) : (pdePtr v).toNat = 4294963200 + v.toNat / 4194304 * 4 := by
  have := v.isLt
  unfold pdePtr
  rw [BitVec.toNat_add, BitVec.toNat_mul, pdeIdx_eq, dirIndex_toNat]
  simp only [BitVec.toNat_ofNat]
  omega

/-- `pte_ptr`: the last entry of the directory, then the entry of the table, then the word. -/
theorem ptePtr_fields (v : Word) :
    dirIndex (ptePtr v) = 1023#32 ∧ tableIndex (ptePtr v) = dirIndex v ∧
    offsetOf (ptePtr v) = tableIndex v * 4#32 := by
  have := v.isLt
  refine ⟨?_, ?_, ?_⟩
  · apply BitVec.eq_of_toNat_eq
    rw [dirIndex_toNat, ptePtr_toNat, BitVec.toNat_ofNat]
    omega
  · apply BitVec.eq_of_toNat_eq
    rw [tableIndex_toNat, ptePtr_toNat, dirIndex_toNat]
    omega
  · apply BitVec.eq_of_toNat_eq
    rw [offsetOf_toNat, ptePtr_toNat, BitVec.toNat_mul, tableIndex_toNat, BitVec.toNat_ofNat]
    omega

/-- `pde_ptr`: the last entry of the directory twice, then the word. -/
theorem pdePtr_fields (v : Word) : dirIndex (pdePtr v) = 1023#32 ∧ tableIndex (pdePtr v) = 1023#32 ∧
    offsetOf (pdePtr v) = dirIndex v * 4#32 := by
  have := v.isLt
  refine ⟨?_, ?_, ?_⟩
  · apply BitVec.eq_of_toNat_eq
    rw [dirIndex_toNat, pdePtr_toNat, BitVec.toNat_ofNat]
    omega
  · apply BitVec.eq_of_toNat_eq
    rw [tableIndex_toNat, pdePtr_toNat, BitVec.toNat_ofNat]
    omega
  · apply BitVec.eq_of_toNat_eq
    rw [offsetOf_toNat, pdePtr_toNat, BitVec.toNat_mul, dirIndex_toNat, BitVec.toNat_ofNat]
    omega

theorem pageOf_pageOf (a : Word) : pageOf (pageOf a) = pageOf a := by
  apply BitVec.eq_of_toNat_eq
  rw [pageOf_toNat, pageOf_toNat]
  omega

/-- A word of a frame is in the frame. -/
theorem pageOf_add (f : Word) {i : Word} (hi : i.toNat < 1024) :
    pageOf (pageOf f + i * 4#32) = pageOf f := by
  have := f.isLt
  apply BitVec.eq_of_toNat_eq
  rw [pageOf_toNat, BitVec.toNat_add, BitVec.toNat_mul, pageOf_toNat, BitVec.toNat_ofNat]
  omega

theorem dirIndex_lt (v : Word) : (dirIndex v).toNat < 1024 := by
  have := v.isLt
  rw [dirIndex_toNat]
  omega

theorem tableIndex_lt (v : Word) : (tableIndex v).toNat < 1024 := by
  rw [tableIndex_toNat]
  omega

theorem present_entryFor (a : Word) : Present (entryFor a) := by
  unfold Present entryFor
  intro h
  have hbit := congrArg (BitVec.getLsbD · 0) h
  simp at hbit

/-- The frame of an entry. -/
theorem pageOf_entryFor (a : Word) : pageOf (entryFor a) = pageOf a := by
  apply BitVec.eq_of_getLsbD_eq
  intro i hi
  have mask : ∀ i < 32, (0xfffff000#32).getLsbD i = decide (12 ≤ i) := by decide
  have flags : ∀ i < 32, 12 ≤ i → (4#32).getLsbD i = false ∧ (2#32).getLsbD i = false ∧
      (1#32).getLsbD i = false := by decide
  unfold pageOf entryFor
  simp only [BitVec.getLsbD_and, BitVec.getLsbD_or, mask i hi]
  by_cases h : 12 ≤ i
  · obtain ⟨h4, h2, h1⟩ := flags i hi h
    rw [h4, h2, h1]
    simp
  · simp [h]

/-! ## The walk -/

namespace Cpu

variable {m m' : Cpu} {v u a w frame : Word}

theorem tableEntry_eq (m : Cpu) (v : Word) :
    m.tableEntry v = pageOf (m.ram (m.dirEntry v)) + tableIndex v * 4#32 := rfl

theorem walk_eq (hdir : Present (m.ram (m.dirEntry v)))
    (htable : Present (m.ram (m.tableEntry v))) :
    m.walk v = some (pageOf (m.ram (m.tableEntry v)) + offsetOf v) := by
  unfold walk
  rw [if_pos hdir, if_pos htable]

/-- What a walk has found on its way. -/
theorem of_walk (h : m.walk v = some a) :
    Present (m.ram (m.dirEntry v)) ∧ Present (m.ram (m.tableEntry v)) ∧
    a = pageOf (m.ram (m.tableEntry v)) + offsetOf v := by
  unfold walk at h
  split at h
  · rename_i hdir
    split at h
    · rename_i htable
      exact ⟨hdir, htable, (Option.some.inj h).symm⟩
    · cases h
  · cases h

/-- THE WALK of `pde_ptr(v)` reaches the directory entry of `v`. -/
theorem walk_pdePtr (self : m.SelfMapped) (v : Word) : m.walk (pdePtr v) = some (m.dirEntry v) := by
  obtain ⟨hdir, htable, hoff⟩ := pdePtr_fields v
  have hentry : m.dirEntry (pdePtr v) = pageOf m.cr3 + 1023#32 * 4#32 := by
    unfold dirEntry
    rw [hdir]
  have hentry' : m.tableEntry (pdePtr v) = pageOf m.cr3 + 1023#32 * 4#32 := by
    unfold tableEntry
    rw [hentry, self.frame, htable]
  rw [walk_eq (hentry ▸ self.present) (hentry' ▸ self.present), hentry', self.frame, hoff]
  rfl

/-- THE WALK of `pte_ptr(v)` reaches the table entry of `v`, when there is a table. -/
theorem walk_ptePtr (self : m.SelfMapped) (h : Present (m.ram (m.dirEntry v))) :
    m.walk (ptePtr v) = some (m.tableEntry v) := by
  obtain ⟨hdir, htable, hoff⟩ := ptePtr_fields v
  have hentry : m.dirEntry (ptePtr v) = pageOf m.cr3 + 1023#32 * 4#32 := by
    unfold dirEntry
    rw [hdir]
  have hentry' : m.tableEntry (ptePtr v) = m.dirEntry v := by
    unfold tableEntry
    rw [hentry, self.frame, htable]
    rfl
  rw [walk_eq (hentry ▸ self.present) (hentry' ▸ h), hentry', hoff]
  rfl

/-- `addr_v2p` agrees with the walk. -/
theorem addrV2p_of_walk (self : m.SelfMapped) (h : m.walk v = some a) : m.addrV2p v = .ok a := by
  obtain ⟨hdir, -, rfl⟩ := of_walk h
  unfold addrV2p read
  rw [walk_ptePtr self hdir]
  rfl

/-! ## What is kept -/

/-- The words that walks have found are as they were, and the directory is the same. -/
structure Keeps (m m' : Cpu) : Prop where
  cr3 : m'.cr3 = m.cr3
  dir : ∀ v, Present (m.ram (m.dirEntry v)) → m'.ram (m.dirEntry v) = m.ram (m.dirEntry v)
  table : ∀ v, Present (m.ram (m.dirEntry v)) → Present (m.ram (m.tableEntry v)) →
    m'.ram (m.tableEntry v) = m.ram (m.tableEntry v)

theorem Keeps.dirEntry (h : Keeps m m') (v : Word) : m'.dirEntry v = m.dirEntry v := by
  unfold Cpu.dirEntry
  rw [h.cr3]

theorem Keeps.tableEntry (h : Keeps m m') (hdir : Present (m.ram (m.dirEntry v))) :
    m'.tableEntry v = m.tableEntry v := by
  unfold Cpu.tableEntry
  rw [h.dirEntry, h.dir v hdir]

/-- Translations are kept. -/
theorem Keeps.walk (h : Keeps m m') (hwalk : m.walk v = some a) : m'.walk v = some a := by
  obtain ⟨hdir, htable, rfl⟩ := of_walk hwalk
  have hentry := h.tableEntry hdir
  have hpte := h.table v hdir htable
  rw [walk_eq (by rwa [h.dirEntry, h.dir v hdir]) (by rwa [hentry, hpte]), hentry, hpte]

/-- The last entry of the directory is the one of the highest addresses. -/
theorem selfEntry (m : Cpu) : m.dirEntry 0xffc00000#32 = pageOf m.cr3 + 1023#32 * 4#32 := rfl

theorem Keeps.selfMapped (h : Keeps m m') (self : m.SelfMapped) : m'.SelfMapped := by
  have hdir := h.dir 0xffc00000#32 (by rw [selfEntry]; exact self.present)
  rw [selfEntry] at hdir
  constructor
  · rw [h.cr3, hdir]
    exact self.present
  · rw [h.cr3, hdir]
    exact self.frame

theorem Keeps.trans {m'' : Cpu} (h : Keeps m m') (h' : Keeps m' m'') : Keeps m m'' where
  cr3 := h'.cr3.trans h.cr3
  dir := fun v hdir => by
    have h₁ := h.dir v hdir
    have h₂ := h'.dir v (by rwa [h.dirEntry, h₁])
    rw [h.dirEntry] at h₂
    exact h₂.trans h₁
  table := fun v hdir htable => by
    have h₁ := h.dir v hdir
    have ht := h.table v hdir htable
    have h₂ := h'.table v (by rwa [h.dirEntry, h₁]) (by rwa [h.tableEntry hdir, ht])
    rw [h.tableEntry hdir] at h₂
    exact h₂.trans ht

/-- A word that is not present is on no walk's way. -/
theorem keeps_set (free : ¬ Present (m.ram a)) (w : Word) : Keeps m (m.set a w) where
  cr3 := rfl
  dir := fun v hdir => Function.update_of_ne (fun heq => free (by rwa [← heq])) _ _
  table := fun v _ htable => Function.update_of_ne (fun heq => free (by rwa [← heq])) _ _

/-- Nor is a fresh frame: a table that was not there, in a fresh frame. -/
theorem keeps_newTable (fresh : m.Fresh frame) (free : ¬ Present (m.ram (m.dirEntry v)))
    (hcr3 : m'.cr3 = m.cr3) (h : ∀ a, pageOf a ≠ frame →
      m'.ram a = Function.update m.ram (m.dirEntry v) w a) : Keeps m m' where
  cr3 := hcr3
  dir := fun u hdir => by
    have hpage : pageOf (m.dirEntry u) ≠ frame := by
      unfold Cpu.dirEntry
      rw [pageOf_add _ (dirIndex_lt u)]
      exact fresh.notDir.symm
    rw [h _ hpage]
    exact Function.update_of_ne (fun heq => free (by rwa [← heq])) _ _
  table := fun u hdir htable => by
    have hpage : pageOf (m.tableEntry u) ≠ frame := by
      unfold Cpu.tableEntry
      rw [pageOf_add _ (tableIndex_lt u)]
      exact fresh.notTable u hdir
    rw [h _ hpage]
    exact Function.update_of_ne (fun heq => free (by rwa [← heq])) _ _

/-! ## The new table is cleared -/

/-- The words of the table that `pte_ptr` leads into. -/
theorem tableWord_fields (v : Word) {i : Nat} (hi : i < 1024) :
    dirIndex (pageOf (ptePtr v) + BitVec.ofNat 32 i * 4#32) = 1023#32 ∧
      tableIndex (pageOf (ptePtr v) + BitVec.ofNat 32 i * 4#32) = dirIndex v ∧
      offsetOf (pageOf (ptePtr v) + BitVec.ofNat 32 i * 4#32) = BitVec.ofNat 32 i * 4#32 := by
  have := v.isLt
  have hnat : (pageOf (ptePtr v) + BitVec.ofNat 32 i * 4#32).toNat =
      4290772992 + v.toNat / 4194304 * 4096 + i * 4 := by
    rw [BitVec.toNat_add, BitVec.toNat_mul, pageOf_toNat, ptePtr_toNat, BitVec.toNat_ofNat,
      BitVec.toNat_ofNat]
    omega
  refine ⟨?_, ?_, ?_⟩
  · apply BitVec.eq_of_toNat_eq
    rw [dirIndex_toNat, hnat, BitVec.toNat_ofNat]
    omega
  · apply BitVec.eq_of_toNat_eq
    rw [tableIndex_toNat, hnat, dirIndex_toNat]
    omega
  · apply BitVec.eq_of_toNat_eq
    rw [offsetOf_toNat, hnat, BitVec.toNat_mul, BitVec.toNat_ofNat, BitVec.toNat_ofNat]
    omega

/-- Such a word is reached as soon as the directory entry is there. -/
theorem walk_tableWord (self : m.SelfMapped) (hdir : Present (m.ram (m.dirEntry v))) {i : Nat}
    (hi : i < 1024) :
    m.walk (pageOf (ptePtr v) + BitVec.ofNat 32 i * 4#32) =
      some (pageOf (m.ram (m.dirEntry v)) + BitVec.ofNat 32 i * 4#32) := by
  obtain ⟨hhigh, hmid, hoff⟩ := tableWord_fields v hi
  have hentry : m.dirEntry (pageOf (ptePtr v) + BitVec.ofNat 32 i * 4#32) =
      pageOf m.cr3 + 1023#32 * 4#32 := by
    unfold Cpu.dirEntry
    rw [hhigh]
  have hentry' : m.tableEntry (pageOf (ptePtr v) + BitVec.ofNat 32 i * 4#32) = m.dirEntry v := by
    unfold Cpu.tableEntry
    rw [hentry, self.frame, hmid]
    rfl
  have hpresent : Present (m.ram (m.dirEntry (pageOf (ptePtr v) + BitVec.ofNat 32 i * 4#32))) := by
    rw [hentry]
    exact self.present
  have hpresent' :
      Present (m.ram (m.tableEntry (pageOf (ptePtr v) + BitVec.ofNat 32 i * 4#32))) := by
    rw [hentry']
    exact hdir
  rw [walk_eq hpresent hpresent', hentry', hoff]

theorem ofNat_lt {i : Nat} (hi : i < 1024) : (BitVec.ofNat 32 i).toNat < 1024 := by
  rw [BitVec.toNat_ofNat]
  omega

/-- THE LOOP: the words from the `i`-th on are cleared, and nothing outside the table is touched. -/
theorem clearWords_table {func : String} {i n : Nat} (self : m.SelfMapped)
    (hdir : Present (m.ram (m.dirEntry v))) (hframe : pageOf (m.ram (m.dirEntry v)) = frame)
    (notDir : frame ≠ pageOf m.cr3) (hn : i + n = 1024) :
    ∃ m', clearWords func m (pageOf (ptePtr v) + BitVec.ofNat 32 i * 4#32) n = .ok m' ∧
      m'.cr3 = m.cr3 ∧
      (∀ a, pageOf a ≠ frame → m'.ram a = m.ram a) ∧
      (∀ j, j < i → m'.ram (frame + BitVec.ofNat 32 j * 4#32) =
        m.ram (frame + BitVec.ofNat 32 j * 4#32)) ∧
      ∀ j, i ≤ j → j < 1024 → m'.ram (frame + BitVec.ofNat 32 j * 4#32) = 0 := by
  induction n generalizing m i with
  | zero =>
    refine ⟨m, rfl, rfl, fun _ _ => rfl, fun _ _ => rfl, ?_⟩
    intro j hj hlt
    rw [Nat.add_zero] at hn
    exact absurd hj (Nat.not_le.mpr (hn ▸ hlt))
  | succ n ih =>
    have hi : i < 1024 := by omega
    have halign : pageOf frame = frame := by
      rw [← hframe, pageOf_pageOf]
    have hpage : ∀ {j : Nat}, j < 1024 → pageOf (frame + BitVec.ofNat 32 j * 4#32) = frame := by
      intro j hj
      have h := pageOf_add frame (ofNat_lt hj)
      rwa [halign] at h
    have hother : ∀ {a : Word}, pageOf a ≠ frame →
        (m.set (frame + BitVec.ofNat 32 i * 4#32) 0).ram a = m.ram a := by
      intro a ha
      exact Function.update_of_ne (fun heq => ha (by rw [heq, hpage hi])) _ _
    have hdirPage : ∀ u, pageOf (m.dirEntry u) ≠ frame := by
      intro u
      unfold Cpu.dirEntry
      rw [pageOf_add _ (dirIndex_lt u)]
      exact notDir.symm
    have hself : (m.set (frame + BitVec.ofNat 32 i * 4#32) 0).SelfMapped := by
      have hsame := hother (hdirPage 0xffc00000#32)
      rw [selfEntry] at hsame
      constructor
      · exact (congrArg Present hsame).mpr self.present
      · exact (congrArg pageOf hsame).trans self.frame
    have hsame : (m.set (frame + BitVec.ofNat 32 i * 4#32) 0).ram (m.dirEntry v) =
        m.ram (m.dirEntry v) := hother (hdirPage v)
    obtain ⟨m', hclear, hcr3, hout, hbefore, hzero⟩ :=
      @ih (m.set (frame + BitVec.ofNat 32 i * 4#32) 0) (i + 1) hself
      ((congrArg Present hsame).mpr hdir) ((congrArg pageOf hsame).trans hframe) notDir (by omega)
    have hnext : pageOf (ptePtr v) + BitVec.ofNat 32 i * 4#32 + 4#32 =
        pageOf (ptePtr v) + BitVec.ofNat 32 (i + 1) * 4#32 := by
      apply BitVec.eq_of_toNat_eq
      simp only [BitVec.toNat_add, BitVec.toNat_mul, BitVec.toNat_ofNat]
      omega
    have hne : ∀ {j : Nat}, j < 1024 → j ≠ i →
        frame + BitVec.ofNat 32 j * 4#32 ≠ frame + BitVec.ofNat 32 i * 4#32 := by
      intro j hj hji heq
      have h := congrArg BitVec.toNat ((BitVec.add_right_inj frame).mp heq)
      simp only [BitVec.toNat_mul, BitVec.toNat_ofNat] at h
      omega
    refine ⟨m', ?_, hcr3, ?_, ?_, ?_⟩
    · rw [clearWords, write, walk_tableWord self hdir hi, hframe]
      dsimp only
      rw [ok_bind, hnext]
      exact hclear
    · intro a ha
      rw [hout a ha]
      exact hother ha
    · intro j hj
      rw [hbefore j (by omega)]
      exact Function.update_of_ne (hne (by omega) (by omega)) _ _
    · intro j hij hj
      by_cases heq : j = i
      · subst heq
        rw [hbefore j (by omega)]
        exact Function.update_self _ _ _
      · exact hzero j (by omega) hj

/-! ## `page_table_add` -/

/-- The entry of a table that is there. -/
theorem addEntry_eq (self : m.SelfMapped) (hdir : Present (m.ram (m.dirEntry v)))
    (free : ¬ Present (m.ram (m.tableEntry v))) (p : Word) :
    m.addEntry v p = .ok (m.set (m.tableEntry v) (entryFor p)) := by
  unfold addEntry read
  rw [walk_ptePtr self hdir]
  dsimp only
  rw [ok_bind, assertThat_of free, ok_bind, write, walk_ptePtr self hdir]

theorem samePage_fields (v : Word) {k : Nat} (hk : k < 4096) :
    dirIndex (pageOf v + BitVec.ofNat 32 k) = dirIndex v ∧
    tableIndex (pageOf v + BitVec.ofNat 32 k) = tableIndex v ∧
    offsetOf (pageOf v + BitVec.ofNat 32 k) = BitVec.ofNat 32 k := by
  have := v.isLt
  have hnat : (pageOf v + BitVec.ofNat 32 k).toNat = v.toNat / 4096 * 4096 + k := by
    rw [BitVec.toNat_add, pageOf_toNat, BitVec.toNat_ofNat]
    omega
  refine ⟨?_, ?_, ?_⟩
  · apply BitVec.eq_of_toNat_eq
    rw [dirIndex_toNat, dirIndex_toNat, hnat]
    omega
  · apply BitVec.eq_of_toNat_eq
    rw [tableIndex_toNat, tableIndex_toNat, hnat]
    omega
  · apply BitVec.eq_of_toNat_eq
    rw [offsetOf_toNat, hnat, BitVec.toNat_ofNat]
    omega

/-- The page is mapped then, and what was mapped before is as it was. -/
theorem addEntry_maps (self : m.SelfMapped) (hdir : Present (m.ram (m.dirEntry v)))
    (free : ¬ Present (m.ram (m.tableEntry v))) (p : Word) :
    ∃ m', m.addEntry v p = .ok m' ∧ Keeps m m' ∧
      ∀ k < 4096, m'.walk (pageOf v + BitVec.ofNat 32 k) = some (pageOf p + BitVec.ofNat 32 k) := by
  have hkeeps : Keeps m (m.set (m.tableEntry v) (entryFor p)) := keeps_set free _
  refine ⟨_, addEntry_eq self hdir free p, hkeeps, ?_⟩
  intro k hk
  obtain ⟨hhigh, hmid, hoff⟩ := samePage_fields v hk
  have hentry : (m.set (m.tableEntry v) (entryFor p)).dirEntry (pageOf v + BitVec.ofNat 32 k) =
      m.dirEntry v := by
    unfold Cpu.dirEntry
    rw [hhigh]
    rfl
  have hpde : (m.set (m.tableEntry v) (entryFor p)).ram (m.dirEntry v) = m.ram (m.dirEntry v) :=
    hkeeps.dir v hdir
  have hentry' : (m.set (m.tableEntry v) (entryFor p)).tableEntry (pageOf v + BitVec.ofNat 32 k) =
      m.tableEntry v := by
    rw [tableEntry_eq, hentry, hpde, hmid]
    rfl
  have hpte : (m.set (m.tableEntry v) (entryFor p)).ram (m.tableEntry v) = entryFor p :=
    Function.update_self _ _ _
  rw [walk_eq (by rw [hentry, hpde]; exact hdir) (by rw [hentry', hpte]; exact present_entryFor p),
    hentry', hpte, pageOf_entryFor, hoff]

theorem palloc_same {m' : Cpu} (h : m.palloc = .ok (frame, m')) :
    m'.ram = m.ram ∧ m'.cr3 = m.cr3 := by
  unfold palloc at h
  obtain ⟨answer, -, h⟩ := bind_eq_ok.mp h
  cases answer with
  | none =>
    cases h
    exact ⟨rfl, rfl⟩
  | some bitIdx =>
    cases h
    exact ⟨rfl, rfl⟩

/-- THE MAPPING IS ADDED, whether there is a table or not. -/
theorem pageTableAdd_maps (self : m.SelfMapped) (unmapped : m.walk v = none)
    (fresh : m.FreshFrame) (p : Word) :
    ∃ m', m.pageTableAdd v p = .ok m' ∧ Keeps m m' ∧
      ∀ k < 4096, m'.walk (pageOf v + BitVec.ofNat 32 k) = some (pageOf p + BitVec.ofNat 32 k) := by
  unfold pageTableAdd read
  rw [walk_pdePtr self v]
  dsimp only
  rw [ok_bind]
  by_cases hdir : Present (m.ram (m.dirEntry v))
  · rw [if_pos hdir]
    apply addEntry_maps self hdir
    intro htable
    rw [walk_eq hdir htable] at unmapped
    cases unmapped
  · rw [if_neg hdir]
    obtain ⟨frame, m₁, halloc, hfresh⟩ := fresh
    obtain ⟨hram, hcr3⟩ := palloc_same halloc
    have hentry : m₁.dirEntry v = m.dirEntry v := by
      unfold Cpu.dirEntry
      rw [hcr3]
    have self₁ : m₁.SelfMapped := by
      constructor
      · rw [hram, hcr3]
        exact self.present
      · rw [hram, hcr3]
        exact self.frame
    -- the directory entry
    have hfree : ¬ Present (m₁.ram (m₁.dirEntry v)) := by rwa [hentry, hram]
    have hkeeps : Keeps m₁ (m₁.set (m₁.dirEntry v) (entryFor frame)) := keeps_set hfree _
    have self₂ := hkeeps.selfMapped self₁
    have hpde : (m₁.set (m₁.dirEntry v) (entryFor frame)).ram (m₁.dirEntry v) = entryFor frame :=
      Function.update_self _ _ _
    have hframe : pageOf (entryFor frame) = frame := by
      rw [pageOf_entryFor, hfresh.aligned]
    -- the table
    obtain ⟨m₃, hclear, hcr3₃, hout, -, hzero⟩ :=
      @clearWords_table (m₁.set (m₁.dirEntry v) (entryFor frame)) v frame
        "page_table_add" 0 1024 self₂
      ((congrArg Present hpde).mpr (present_entryFor frame)) ((congrArg pageOf hpde).trans hframe)
      (by show frame ≠ pageOf m₁.cr3; rw [hcr3]; exact hfresh.notDir) rfl
    have hbase : pageOf (ptePtr v) + BitVec.ofNat 32 0 * 4#32 = pageOf (ptePtr v) := by simp
    rw [hbase] at hclear
    have hcr3' : m₃.cr3 = m.cr3 := hcr3₃.trans hcr3
    have hout' : ∀ a, pageOf a ≠ frame →
        m₃.ram a = Function.update m.ram (m.dirEntry v) (entryFor frame) a := by
      intro a ha
      rw [hout a ha, ← hentry, ← hram]
      rfl
    have hkeeps₃ : Keeps m m₃ := keeps_newTable hfresh hdir hcr3' hout'
    have self₃ := hkeeps₃.selfMapped self
    have hpde₃ : m₃.ram (m₃.dirEntry v) = entryFor frame := by
      rw [hkeeps₃.dirEntry,
        hout' _
          (by unfold Cpu.dirEntry; rw [pageOf_add _ (dirIndex_lt v)]; exact hfresh.notDir.symm)]
      exact Function.update_self _ _ _
    have hpte₃ : m₃.ram (m₃.tableEntry v) = 0 := by
      have hindex : BitVec.ofNat 32 (tableIndex v).toNat = tableIndex v := by simp
      unfold Cpu.tableEntry
      rw [hpde₃, hframe, ← hindex]
      exact hzero _ (Nat.zero_le _) (tableIndex_lt v)
    obtain ⟨m₄, hadd, hkeeps₄, hmaps⟩ :=
      addEntry_maps self₃ (by rw [hpde₃]; exact present_entryFor frame)
      (by rw [hpte₃]; decide) p
    refine ⟨m₄, ?_, hkeeps₃.trans hkeeps₄, hmaps⟩
    rw [halloc, ok_bind]
    dsimp only
    rw [write, walk_pdePtr self₁ v]
    dsimp only
    rw [ok_bind, hclear, ok_bind]
    exact hadd

/-- THE SELF-MAPPED TABLES ARE ADDRESSED CORRECTLY. `page_table_add(v, p)` maps the page that `v` is
in, also when `v` is not its first address, and also in the highest 4 MiB. -/
theorem selfMap_correct (self : m.SelfMapped) :
    (∀ v, Present (m.ram (m.dirEntry v)) → m.walk (ptePtr v) = some (m.tableEntry v)) ∧
    (∀ v, m.walk (pdePtr v) = some (m.dirEntry v)) ∧
    ∀ v p, m.walk v = none → pageOf p = p → m.FreshFrame →
      ∃ m', m.pageTableAdd v p = .ok m' ∧
        (∀ k < 4096, m'.addrV2p (pageOf v + BitVec.ofNat 32 k) = .ok (p + BitVec.ofNat 32 k)) ∧
        ∀ u a, m.walk u = some a → m'.walk u = some a ∧ m'.addrV2p u = .ok a := by
  refine ⟨fun v hdir => walk_ptePtr self hdir, walk_pdePtr self, ?_⟩
  intro v p unmapped aligned fresh
  obtain ⟨m', hadd, hkeeps, hmaps⟩ := pageTableAdd_maps self unmapped fresh p
  have self' := hkeeps.selfMapped self
  refine ⟨m', hadd, ?_, ?_⟩
  · intro k hk
    have h := hmaps k hk
    rw [aligned] at h
    exact addrV2p_of_walk self' h
  · intro u a hwalk
    have h := hkeeps.walk hwalk
    exact ⟨h, addrV2p_of_walk self' h⟩

/-- A directory with one table, and a pool with one frame. -/
def oneTable : Cpu where
  ram a := if a = 0x100ffc#32 then 0x100007#32 else if a = 0x100000#32 then 0x101007#32 else 0
  cr3 := 0x100000#32
  kernelPool := ⟨[0]⟩
  phyAddrStart := 0x200000#32

theorem oneTable_selfMapped : oneTable.SelfMapped := ⟨by decide, by decide⟩

theorem oneTable_ram (a : Word) : oneTable.ram a = 0x100007#32 ∨ oneTable.ram a = 0x101007#32 ∨
    oneTable.ram a = 0 := by
  unfold oneTable
  dsimp only
  split
  · exact .inl rfl
  · split
    · exact .inr (.inl rfl)
    · exact .inr (.inr rfl)

theorem oneTable_fresh : oneTable.FreshFrame := by
  refine ⟨_, _, rfl, by decide, by decide, ?_⟩
  intro v hdir hframe
  obtain h | h | h := oneTable_ram (oneTable.dirEntry v)
  · rw [h] at hframe
    exact absurd hframe (by decide)
  · rw [h] at hframe
    exact absurd hframe (by decide)
  · rw [h] at hdir
    exact absurd hdir (by decide)

theorem selfMap_oneTable : ∃ m', oneTable.pageTableAdd 0x1001#32 0x300000#32 = .ok m' ∧
    m'.addrV2p 0x1234#32 = .ok 0x300234#32 := by
  obtain ⟨m', hadd, hmaps, -⟩ :=
    (selfMap_correct oneTable_selfMapped).2.2 0x1001#32 0x300000#32 (by decide) (by decide)
      oneTable_fresh
  exact ⟨m', hadd, hmaps 0x234 (by omega)⟩

/-- FROM AN ADDRESS INSIDE A PAGE: the first byte of the frame is not what it is mapped to. -/
theorem insideAPage : oneTable.SelfMapped ∧ oneTable.walk 0x1001#32 = none ∧
    pageOf 0x300000#32 = 0x300000#32 ∧ oneTable.FreshFrame ∧
    (do (← oneTable.pageTableAdd 0x1001#32 0x300000#32).addrV2p (0x1001#32 + 0#32)) =
      .ok 0x300001#32 := by
  refine ⟨oneTable_selfMapped, by decide, by decide, oneTable_fresh, ?_⟩
  rfl

end Cpu

end SeekingOs.Paging
