import SeekingOs.Kernel.Pages

/-!
# The words that a new page writes

`page_table_add` writes the entry of the page and, where there is none, the entry of a new table. No
other entry of the running directory is written, and the pools give up exactly the frames that are
used.
-/

namespace SeekingOs

open Lib

namespace Memory

variable {m m' m₁ : Memory} {dirs : List Nat} {v f i t : Nat}

/-- A page of the process has been mapped: of its directory only the entry of the page's table is
written, and nothing below the pools. -/
structure TableWords (m m' : Memory) (v : Nat) : Prop where
  dir : ∀ i, i ≠ v / 1024 → m'.ram m.cr3 i = m.ram m.cr3 i
  low : ∀ g, g < m.kernelPool.phyAddrStart → m'.ram g = m.ram g

/-- A directory of a process comes from the pool of the kernel. -/
theorem Ordered.dir_inPool (ord : m.Ordered dirs) (run : m.cr3 ∈ dirs) :
    m.kernelPool.phyAddrStart ≤ m.cr3 := by
  obtain ⟨k, hk, hk', held⟩ := ord.dirs _ run
  have suits := ord.suits (.page kernelDir k) m.cr3 (valid_page_kernel hk hk') held
  unfold Suits at suits
  dsimp only at suits
  rw [if_pos rfl] at suits
  exact suits.1

/-- So do its tables. -/
theorem Ordered.table_inPool (ord : m.Ordered dirs) (run : m.cr3 ∈ dirs) (hi : i < 768)
    (h : m.tableAt m.cr3 i = some t) : m.kernelPool.phyAddrStart ≤ t := by
  have suits := ord.suits (.table m.cr3 i) t (.inl ⟨run, hi⟩) h
  have hne : m.cr3 ≠ kernelDir := by
    intro e
    exact ord.kernelDir_not_mem (e ▸ run)
  unfold Suits at suits
  dsimp only at suits
  rw [if_neg hne] at suits
  exact suits.1

/-- The tables of the kernel lie below the pools. -/
theorem Ordered.kernelTable_low (ord : m.Ordered dirs) (hi : 768 ≤ i) (hi' : i < 1024)
    (h : m.tableAt kernelDir i = some t) : t < m.kernelPool.phyAddrStart := by
  have suits := ord.suits (.table kernelDir i) t (.inr ⟨rfl, hi, hi'⟩) h
  unfold Suits at suits
  dsimp only at suits
  rwa [if_pos rfl] at suits

theorem addToTable_words (ord : m.Ordered dirs) (run : m.cr3 ∈ dirs) (hv : v < kernelStart)
    (table : m.tableAt m.cr3 (v / 1024) = some t) (h : m.addToTable v f = .ok m') :
    TableWords m m' v := by
  have hi : v / 1024 < 768 := by
    unfold kernelStart at hv
    omega
  have own : m.owner v = m.cr3 := if_pos hv
  have inPool := ord.table_inPool run hi table
  unfold addToTable at h
  rw [ord.read_pte (.inr run) (by omega) (by rw [own]; exact table), ok_bind] at h
  obtain ⟨_, _, h⟩ := bind_eq_ok.mp h
  rw [ord.write_pte (.inr run) (by omega) (by rw [own]; exact table)] at h
  cases h
  have other {g : Nat} (hg : g ≠ t) : (m.poke t (v % 1024) (entryWord f)).ram g = m.ram g :=
    Function.update_of_ne hg _ _
  constructor
  · intro i _
    rw [other]
    rintro rfl
    exact ord.table_not_dir (.inl ⟨run, hi⟩) (by omega) table (.inr run)
  · intro g hg
    apply other
    omega

/-- `page_table_add` writes the tables of the process. -/
theorem pageTableAdd_words (ord : m.Ordered dirs) (run : m.cr3 ∈ dirs) (hv : v < kernelStart)
    (h : m.pageTableAdd v f = .ok m') : TableWords m m' v := by
  have hi : v / 1024 < 768 := by
    unfold kernelStart at hv
    omega
  unfold pageTableAdd at h
  rw [ord.read_pde (.inr run), ok_bind] at h
  split at h
  next there => exact addToTable_words ord run hv (if_pos there) h
  next absent =>
    rw [Bool.not_eq_true] at absent
    have none : m.tableAt m.cr3 (v / 1024) = none := target_eq_none.mpr absent
    obtain ⟨⟨t, m₁⟩, hpalloc, h⟩ := bind_eq_ok.mp h
    have grant := palloc_ok ord.layout hpalloc
    have adds := newTable_adds ord run hi none grant
    obtain ⟨m₂, hwrite, h⟩ := bind_eq_ok.mp h
    obtain ⟨m₃, hclear, h⟩ := bind_eq_ok.mp h
    have both := (grant.ordered ord).newTable_writes (v := v) (.inr (grant.cr3 ▸ run)) (by omega) t
    rw [hwrite, ok_bind, hclear, Except.ok.injEq] at both
    subst both
    obtain ⟨table, htable⟩ := Option.isSome_iff_exists.mp adds.table
    have words :=
      addToTable_words adds.ordered (adds.cr3 ▸ run) hv (by rw [adds.cr3]; exact htable) h
    have notDir : m.cr3 ≠ t := by
      rintro rfl
      obtain ⟨q, hq, held, -⟩ := ord.heldDir (.inr run)
      exact grant.free (ord.taken hq held)
    have notLow : m.kernelPool.phyAddrStart ≤ t := grant.inPool.1
    have hcr3 : m₁.cr3 = m.cr3 := grant.cr3
    have ram (g i : Nat) (hg : g ≠ t) (hgi : ¬ (g = m.cr3 ∧ i = v / 1024)) :
        (m₁.withTable (v / 1024) t).ram g i = m.ram g i := by
      unfold withTable fill poke
      dsimp only
      rw [Function.update_of_ne hg, hcr3, grant.ram]
      by_cases hd : g = m.cr3
      · rw [hd, Function.update_self, Function.update_of_ne]
        intro e
        exact hgi ⟨hd, e⟩
      · rw [Function.update_of_ne hd]
    constructor
    · intro i hne
      have later := words.dir i hne
      rw [adds.cr3] at later
      rw [later]
      exact ram _ _ notDir fun h => hne h.2
    · intro g hg
      rw [words.low g (by rw [adds.shape.kernelStart]; exact hg)]
      funext i
      apply ram
      · omega
      · rintro ⟨rfl, -⟩
        have := ord.dir_inPool run
        omega

/-! ## The pools -/

/-- A write leaves the pools alone. -/
theorem write_pools {func : String} {at' : Nat × Nat} {w : Nat} (h : m.write func at' w = .ok m') :
    m'.kernelPool = m.kernelPool ∧ m'.userPool = m.userPool := by
  unfold Memory.write at h
  split at h
  · cases h
  · cases h
    exact ⟨rfl, rfl⟩

theorem writePage_pools {func : String} {words : Nat → Nat}
    (h : m.writePage func v words = .ok m') :
    m'.kernelPool = m.kernelPool ∧ m'.userPool = m.userPool := by
  unfold Memory.writePage at h
  split at h
  · cases h
  · cases h
    exact ⟨rfl, rfl⟩

theorem addToTable_pools (h : m.addToTable v f = .ok m') :
    m'.kernelPool = m.kernelPool ∧ m'.userPool = m.userPool := by
  unfold addToTable at h
  obtain ⟨_, -, h⟩ := bind_eq_ok.mp h
  obtain ⟨_, -, h⟩ := bind_eq_ok.mp h
  exact write_pools h

/-- A page whose table is not there costs exactly one frame of the kernel's pool. -/
theorem pageTableAdd_spends (ord : m.Ordered dirs) (run : IsDir dirs m.cr3)
    (none : m.tableAt m.cr3 (v / 1024) = none) (h : m.pageTableAdd v f = .ok m') :
    m'.kernelPool.freeCount + 1 = m.kernelPool.freeCount := by
  unfold pageTableAdd at h
  rw [ord.read_pde run, ok_bind, if_neg] at h
  · obtain ⟨⟨t, m₁⟩, hpalloc, h⟩ := bind_eq_ok.mp h
    obtain ⟨m₂, hwrite, h⟩ := bind_eq_ok.mp h
    obtain ⟨m₃, hclear, h⟩ := bind_eq_ok.mp h
    have count : m₁.kernelPool.freeCount + 1 = m.kernelPool.freeCount :=
      (palloc_ok ord.layout hpalloc).count
    rw [(addToTable_pools h).1, (writePage_pools hclear).1, (write_pools hwrite).1, count]
  · rw [Bool.not_eq_true]
    exact target_eq_none.mp none

end Memory

end SeekingOs
