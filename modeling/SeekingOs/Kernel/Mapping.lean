import Mathlib.Data.Finset.Card
import SeekingOs.Kernel.Frames

/-!
# What mapping a page does

A frame comes out of its pool and goes into one entry of one table; a table that is not there yet
comes out of the kernel's pool first. `Mapped` says it for a range of pages: their entries hold
frames that were free, all the other places hold what they held, and the pages that are there keep
their words.
-/

namespace SeekingOs

open Lib

/-- How many frames a pool has left. -/
def Pool.freeCount (pool : Pool) : Nat :=
  ((Finset.range pool.poolBitmap.size).filter fun i => pool.poolBitmap.test i = false).card

namespace Memory

variable {m m' m₁ : Memory} {dirs : List Nat} {p q : Place} {d i j o v w f g t n bitIdx : Nat}
  {pf : PoolFlags} {value : Bool}

/-! ## Bitmaps -/

@[simp] theorem size_setBits (b : Bitmap) (start : Nat) (value : Bool) (n : Nat) :
    (setBits b start value n).size = b.size := by
  induction n with
  | zero => rfl
  | succ n ih =>
    unfold setBits
    rw [size_bitmapSet, ih]

theorem test_setBits {b : Bitmap} {start : Nat} (h : start + n ≤ b.size) (j : Nat) :
    (setBits b start value n).test j = if start ≤ j ∧ j < start + n then value else b.test j := by
  induction n with
  | zero => rw [if_neg (by omega)]; rfl
  | succ n ih =>
    unfold setBits
    rw [test_bitmapSet (by rw [size_setBits]; omega), ih (by omega)]
    by_cases hj : j = start + n
    · rw [if_pos hj, if_pos (by omega)]
    · rw [if_neg hj]
      by_cases h' : start ≤ j ∧ j < start + n
      · rw [if_pos h', if_pos (by omega)]
      · rw [if_neg h', if_neg (by omega)]

/-! ## Pools -/

@[simp] theorem setPoolBit_ram : (m.setPoolBit bitIdx value pf).ram = m.ram := by cases pf <;> rfl

@[simp] theorem setPoolBit_cr3 : (m.setPoolBit bitIdx value pf).cr3 = m.cr3 := by cases pf <;> rfl

@[simp] theorem setPoolBit_kernelVaddr :
    (m.setPoolBit bitIdx value pf).kernelVaddr = m.kernelVaddr := by cases pf <;> rfl

@[simp] theorem setPoolBit_userVaddr : (m.setPoolBit bitIdx value pf).userVaddr = m.userVaddr := by
  cases pf <;> rfl

theorem setPoolBit_shape : SameShape m (m.setPoolBit bitIdx value pf) := by
  cases pf with
  | kernel => exact ⟨rfl, size_bitmapSet _ _ _, rfl, rfl, rfl, rfl⟩
  | user => exact ⟨rfl, rfl, rfl, size_bitmapSet _ _ _, rfl, rfl⟩

theorem setPoolBit_frameIn : (m.setPoolBit bitIdx value pf).frameIn p = m.frameIn p := by
  cases pf <;> rfl

/-- A frame of a pool lies in it. -/
theorem has_lt {pool : Pool} (h : pool.Has f) :
    pool.phyAddrStart ≤ f ∧ f < pool.phyAddrStart + pool.poolBitmap.size := by
  obtain ⟨hle, hbit⟩ := h
  refine ⟨hle, ?_⟩
  by_contra hc
  rw [test_eq_false_of_size_le (by omega)] at hbit
  cases hbit

theorem has_index {pool : Pool} : pool.Has (pool.phyAddrStart + bitIdx) ↔
    pool.poolBitmap.test bitIdx = true := by
  unfold Pool.Has
  rw [Nat.add_sub_cancel_left, and_iff_right (Nat.le_add_right _ _)]

/-- A bit of a pool is a bit of one frame. -/
theorem has_setBit {pool : Pool} (h : bitIdx < pool.poolBitmap.size) (g : Nat) :
    Pool.Has { pool with poolBitmap := bitmapSet pool.poolBitmap bitIdx value } g ↔
      if g = pool.phyAddrStart + bitIdx then value = true else pool.Has g := by
  unfold Pool.Has
  dsimp only
  rw [test_bitmapSet h]
  by_cases hg : g = pool.phyAddrStart + bitIdx
  · rw [if_pos hg, hg, Nat.add_sub_cancel_left, if_pos rfl, and_iff_right (Nat.le_add_right _ _)]
  · rw [if_neg hg]
    refine and_congr_right fun hle => ?_
    rw [if_neg (by omega)]

theorem Layout.taken_iff (lay : m.Layout) (h : bitIdx < (m.pool pf).poolBitmap.size) :
    m.Taken ((m.pool pf).phyAddrStart + bitIdx) ↔ (m.pool pf).poolBitmap.test bitIdx = true := by
  have apart := lay.apart
  rw [← has_index]
  unfold Taken
  cases pf with
  | kernel =>
    refine ⟨fun hc => ?_, fun hc => .inr (.inl hc)⟩
    rcases hc with hc | hc | hc
    · exact absurd hc (Nat.not_lt.mpr (Nat.le_add_right _ _))
    · exact hc
    · have := has_lt hc
      unfold pool at h this
      dsimp only at h this
      omega
  | user =>
    refine ⟨fun hc => ?_, fun hc => .inr (.inr hc)⟩
    rcases hc with hc | hc | hc
    · unfold pool at hc
      dsimp only at hc
      omega
    · have := has_lt hc
      unfold pool at this
      dsimp only at this
      omega
    · exact hc

theorem Layout.taken_setPoolBit (lay : m.Layout)
    (h : bitIdx < (m.pool pf).poolBitmap.size) (g : Nat) :
    (m.setPoolBit bitIdx value pf).Taken g ↔
    if g = (m.pool pf).phyAddrStart + bitIdx then value = true else m.Taken g := by
  have apart := lay.apart
  unfold Taken
  cases pf with
  | kernel =>
    change bitIdx < m.kernelPool.poolBitmap.size at h
    show g < m.kernelPool.phyAddrStart ∨
      Pool.Has { m.kernelPool with poolBitmap := bitmapSet m.kernelPool.poolBitmap bitIdx value }
        g ∨
      m.userPool.Has g ↔ if g = m.kernelPool.phyAddrStart + bitIdx then value = true else _
    rw [has_setBit h]
    by_cases hg : g = m.kernelPool.phyAddrStart + bitIdx
    · rw [if_pos hg, if_pos hg, or_iff_right (by omega), or_iff_left]
      intro hc
      have := has_lt hc
      omega
    · rw [if_neg hg, if_neg hg]
  | user =>
    change bitIdx < m.userPool.poolBitmap.size at h
    show g < m.kernelPool.phyAddrStart ∨ m.kernelPool.Has g ∨
      Pool.Has { m.userPool with poolBitmap := bitmapSet m.userPool.poolBitmap bitIdx value } g ↔
        if g = m.userPool.phyAddrStart + bitIdx then value = true else _
    rw [has_setBit h]
    by_cases hg : g = m.userPool.phyAddrStart + bitIdx
    · rw [if_pos hg, if_pos hg, or_iff_right (by omega), or_iff_right]
      intro hc
      have := has_lt hc
      omega
    · rw [if_neg hg, if_neg hg]

/-- One bit less is clear. -/
theorem freeCount_set {pool : Pool} (h : bitIdx < pool.poolBitmap.size)
    (clear : pool.poolBitmap.test bitIdx = false) :
    Pool.freeCount { pool with poolBitmap := bitmapSet pool.poolBitmap bitIdx true } + 1 =
      pool.freeCount := by
  have mem : bitIdx ∈ (Finset.range pool.poolBitmap.size).filter fun i =>
      pool.poolBitmap.test i = false :=
    Finset.mem_filter.mpr ⟨Finset.mem_range.mpr h, clear⟩
  have erase :
      ((Finset.range pool.poolBitmap.size).filter fun i =>
        (bitmapSet pool.poolBitmap bitIdx true).test i = false) =
      ((Finset.range pool.poolBitmap.size).filter fun i => pool.poolBitmap.test i = false).erase
        bitIdx := by
    ext i
    rw [Finset.mem_erase, Finset.mem_filter, Finset.mem_filter, test_bitmapSet h]
    by_cases hi : i = bitIdx
    · simp [hi]
    · simp [hi]
  have pos := Finset.card_pos.mpr ⟨_, mem⟩
  unfold Pool.freeCount
  dsimp only
  rw [size_bitmapSet, erase, Finset.card_erase_of_mem mem]
  omega

/-- The frame `f` has come out of a pool. -/
structure Granted (m : Memory) (pf : PoolFlags) (f : Nat) (m' : Memory) : Prop where
  inPool : m.InPool f pf
  free : ¬ m.Taken f
  taken : ∀ g, m'.Taken g ↔ g = f ∨ m.Taken g
  ram : m'.ram = m.ram
  cr3 : m'.cr3 = m.cr3
  kernelVaddr : m'.kernelVaddr = m.kernelVaddr
  userVaddr : m'.userVaddr = m.userVaddr
  shape : SameShape m m'
  count : (m'.pool pf).freeCount + 1 = (m.pool pf).freeCount
  other : ∀ pf', pf' ≠ pf → m'.pool pf' = m.pool pf'

theorem granted_set (lay : m.Layout) (h : bitIdx < (m.pool pf).poolBitmap.size)
    (clear : (m.pool pf).poolBitmap.test bitIdx = false) :
    Granted m pf ((m.pool pf).phyAddrStart + bitIdx) (m.setPoolBit bitIdx true pf) where
  inPool := by
    have apart := lay.apart
    cases pf with
    | kernel =>
      refine ⟨Nat.le_add_right _ _, ?_⟩
      unfold pool at h ⊢
      dsimp only at h ⊢
      omega
    | user => exact Nat.le_add_right _ _
  free := by rw [lay.taken_iff h, clear]; exact Bool.false_ne_true
  taken g := by
    rw [lay.taken_setPoolBit h]
    split
    next hg => exact iff_of_true rfl (.inl hg)
    next hg => rw [or_iff_right hg]
  ram := setPoolBit_ram
  cr3 := setPoolBit_cr3
  kernelVaddr := setPoolBit_kernelVaddr
  userVaddr := setPoolBit_userVaddr
  shape := setPoolBit_shape
  count := by cases pf <;> exact freeCount_set h clear
  other pf' hpf := by cases pf <;> cases pf' <;> first | rfl | exact absurd rfl hpf

theorem palloc_ok (lay : m.Layout) (h : m.palloc pf = .ok (f, m')) : Granted m pf f m' := by
  unfold palloc at h
  obtain ⟨r, hscan, h⟩ := bind_eq_ok.mp h
  obtain ⟨bitIdx, rfl, hlt, clear, -⟩ := bitmapScan_one hscan
  cases h
  exact granted_set lay hlt clear

/-- With a frame left there is one to be had. -/
theorem palloc_total (lay : m.Layout) (h : 0 < (m.pool pf).freeCount) :
    ∃ f m', m.palloc pf = .ok (f, m') ∧ Granted m pf f m' := by
  obtain ⟨i, hi⟩ := Finset.card_pos.mp h
  rw [Finset.mem_filter, Finset.mem_range] at hi
  have scan : bitmapScan false (m.pool pf).poolBitmap 1 = .ok _ :=
    bitmapScan_total (Nat.le_refl 1) ⟨i, hi⟩
  obtain ⟨bitIdx, some, hlt, clear, -⟩ := bitmapScan_one scan
  rw [some] at scan
  refine ⟨_, _, ?_, granted_set lay hlt clear⟩
  unfold palloc
  rw [scan]
  rfl

theorem Granted.ne_zero (g : Granted m pf f m') (lay : m.Layout) : f ≠ 0 := by
  have low := lay.low
  have apart := lay.apart
  have hin := g.inPool
  cases pf with
  | kernel =>
    have := hin.1
    omega
  | user =>
    change m.userPool.phyAddrStart ≤ f at hin
    omega

/-- A frame that has been taken and is in no place yet. -/
def Spare (m : Memory) (dirs : List Nat) (f : Nat) : Prop :=
  m.Taken f ∧ ∀ q, m.Valid dirs q → m.frameIn q ≠ some f

theorem Granted.frameIn (g : Granted m pf f m') (p : Place) : m'.frameIn p = m.frameIn p := by
  cases p with
  | table o i => unfold Memory.frameIn tableAt; rw [g.ram]
  | page o v => unfold Memory.frameIn pageAt tableAt; rw [g.ram]

theorem Granted.ordered (g : Granted m pf f m') (ord : m.Ordered dirs) : m'.Ordered dirs := by
  refine ord.change g.shape (fun d _ i _ _ => by rw [g.ram]) ?_
    (fun p _ _ h => .inl ((g.frameIn p).symm.trans h))
    fun d _ v _ h => (g.frameIn (.page kernelDir v)).trans h
  rw [hold_same g.shape fun q _ => g.frameIn q]
  exact ord.books.mono fun b hb c hc => (g.taken c).mpr (.inr (hb c hc))

theorem Granted.spare (g : Granted m pf f m') (ord : m.Ordered dirs) : Spare m' dirs f := by
  refine ⟨(g.taken f).mpr (.inl rfl), fun q hq h => g.free ?_⟩
  exact ord.taken (g.shape.valid.mp hq) ((g.frameIn q).symm.trans h)

theorem Granted.spare_other {c : Nat} (g : Granted m pf f m') (spare : Spare m dirs c) :
    Spare m' dirs c :=
  ⟨(g.taken c).mpr (.inr spare.1), fun q hq h =>
    spare.2 q (g.shape.valid.mp hq) ((g.frameIn q).symm.trans h)⟩

/-! ## Words of the running directory -/

/-- The directory that a page is counted under. -/
def owner (m : Memory) (v : Nat) : Nat := if v < kernelStart then m.cr3 else kernelDir

/-- The kernel's tables are shared. -/
theorem Ordered.tableAt_owner (ord : m.Ordered dirs) (run : IsDir dirs m.cr3)
    (hv : v / 1024 < 1023) : m.tableAt m.cr3 (v / 1024) = m.tableAt (m.owner v) (v / 1024) := by
  unfold owner
  split
  next => rfl
  next h =>
    unfold kernelStart at h
    rcases run with e | hmem
    · rw [e]
    · unfold tableAt
      rw [ord.shared _ hmem _ (by omega) hv]

theorem Ordered.pageAt_owner (ord : m.Ordered dirs) (run : IsDir dirs m.cr3)
    (hv : v / 1024 < 1023) : m.pageAt m.cr3 v = m.pageAt (m.owner v) v := by
  unfold pageAt
  rw [ord.tableAt_owner run hv]

/-- The directory as a table: its words are pages. -/
theorem Ordered.pageAt_self (ord : m.Ordered dirs) (run : IsDir dirs m.cr3) (hi : i < 1024) :
    m.pageAt m.cr3 (1023 * 1024 + i) = m.tableAt m.cr3 i := by
  have self : m.tableAt m.cr3 ((1023 * 1024 + i) / 1024) = some m.cr3 := by
    rw [show (1023 * 1024 + i) / 1024 = 1023 by omega]
    unfold tableAt
    rw [ord.self _ run, target_entryWord]
  rw [pageAt_table self, show (1023 * 1024 + i) % 1024 = i by omega]
  rfl

theorem Ordered.pageAt_dir (ord : m.Ordered dirs) (run : IsDir dirs m.cr3) :
    m.pageAt m.cr3 (pdePtr v).1 = some m.cr3 := by
  refine (ord.pageAt_self run (i := 1023) (by decide)).trans ?_
  unfold tableAt
  rw [ord.self _ run, target_entryWord]

theorem Ordered.read_pde (ord : m.Ordered dirs) (run : IsDir dirs m.cr3) (func : String) :
    m.read func (pdePtr v) = .ok (m.ram m.cr3 (v / 1024)) := by
  unfold read
  rw [ord.pageAt_dir run]
  rfl

theorem Ordered.write_pde (ord : m.Ordered dirs) (run : IsDir dirs m.cr3)
    (func : String) (w : Nat) : m.write func (pdePtr v) w = .ok (m.poke m.cr3 (v / 1024) w) := by
  unfold write
  rw [ord.pageAt_dir run]
  rfl

theorem Ordered.pageAt_tables (ord : m.Ordered dirs) (run : IsDir dirs m.cr3)
    (hv : v / 1024 < 1023) : m.pageAt m.cr3 (ptePtr v).1 = m.tableAt (m.owner v) (v / 1024) :=
  (ord.pageAt_self run (by omega)).trans (ord.tableAt_owner run hv)

theorem Ordered.read_pte (ord : m.Ordered dirs) (run : IsDir dirs m.cr3) (hv : v / 1024 < 1023)
    (h : m.tableAt (m.owner v) (v / 1024) = some t) (func : String) :
    m.read func (ptePtr v) = .ok (m.ram t (v % 1024)) := by
  unfold read
  rw [ord.pageAt_tables run hv, h]
  rfl

theorem Ordered.write_pte (ord : m.Ordered dirs) (run : IsDir dirs m.cr3) (hv : v / 1024 < 1023)
    (h : m.tableAt (m.owner v) (v / 1024) = some t) (func : String) (w : Nat) :
    m.write func (ptePtr v) w = .ok (m.poke t (v % 1024) w) := by
  unfold write
  rw [ord.pageAt_tables run hv, h]
  rfl

/-! ## One page -/

/-- Tables and bitmaps that an operation leaves as they were, and the words of the pages. -/
structure Keeps (m m' : Memory) (dirs : List Nat) : Prop where
  ordered : m'.Ordered dirs
  shape : SameShape m m'
  cr3 : m'.cr3 = m.cr3
  kernelVaddr : m'.kernelVaddr = m.kernelVaddr
  userVaddr : m'.userVaddr = m.userVaddr
  tables : ∀ d i t, m.Valid dirs (.table d i) → m.tableAt d i = some t → m'.tableAt d i = some t
  content : ∀ d w g, m.Valid dirs (.page d w) → m.pageAt d w = some g → g ∉ dirs →
    m'.ram g = m.ram g
  taken : ∀ g, m.Taken g → m'.Taken g

theorem Keeps.owner (k : Keeps m m' dirs) (v : Nat) : m'.owner v = m.owner v := by
  unfold Memory.owner
  rw [k.cr3]

/-- Page `v` of `o` has been mapped to frame `f`, and nothing else has. -/
structure MapsOne (m m' : Memory) (dirs : List Nat) (o v f : Nat) :
    Prop extends Keeps m m' dirs where
  fresh : m.pageAt o v = none
  pages : ∀ d w, m.Valid dirs (.page d w) → m'.pageAt d w = if d = o ∧ w = v then some f
    else m.pageAt d w
  spent : (m.kernelPool.freeCount ≤ m'.kernelPool.freeCount + 1) ∧ m'.userPool = m.userPool
  spared : (m.tableAt o (v / 1024)).isSome = true → m'.kernelPool = m.kernelPool

/-- A page that is counted under its owner. -/
def Mappable (m : Memory) (dirs : List Nat) (v : Nat) : Prop := m.Valid dirs (.page (m.owner v) v)

/-- A page of a frame is no table. -/
theorem Ordered.page_not_table (ord : m.Ordered dirs) (hp : m.Valid dirs (.page o v))
    (h : m.pageAt o v = some f) (ht : m.Valid dirs (.table d i)) : m.tableAt d i ≠ some f := by
  intro held
  cases ord.inj hp (q := .table d i) ht h held

theorem addToTable_mapsOne (ord : m.Ordered dirs) (mappable : m.Mappable dirs v)
    (table : m.tableAt (m.owner v) (v / 1024) = some t) (fresh : m.pageAt (m.owner v) v = none)
    (spare : Spare m dirs f) (suits : m.Suits (.page (m.owner v) v) f) :
    MapsOne m (m.poke t (v % 1024) (entryWord f)) dirs (m.owner v) v f := by
  obtain ⟨valid, hi⟩ := ord.layout.valid_table mappable
  have shape : SameShape m (m.poke t (v % 1024) (entryWord f)) := ⟨rfl, rfl, rfl, rfl, rfl, rfl⟩
  have index : 1024 * (v / 1024) + v % 1024 = v := by omega
  have frames {q : Place} (hq : m.Valid dirs q) :
      (m.poke t (v % 1024) (entryWord f)).frameIn q = if q = .page (m.owner v) v then some f
        else m.frameIn q := by
    rw [ord.frameIn_poke valid hi table _ hq, index, target_entryWord]
    by_cases h : q = .page (m.owner v) v
    · rw [if_pos ⟨h, by omega⟩, if_pos h]
    · rw [if_neg fun hc => h hc.1, if_neg h]
  have notDir := ord.table_not_dir valid hi table
  have ram {g : Nat} (h : g ≠ t) : (m.poke t (v % 1024) (entryWord f)).ram g = m.ram g :=
    Function.update_of_ne h _ _
  have pages (d w : Nat) (hw : m.Valid dirs (.page d w)) :
      (m.poke t (v % 1024) (entryWord f)).pageAt d w =
      if d = m.owner v ∧ w = v then some f else m.pageAt d w := by
    refine (frames hw).trans ?_
    by_cases h : d = m.owner v ∧ w = v
    · rw [if_pos h, if_pos (by rw [h.1, h.2])]
    · rw [if_neg h, if_neg fun e => h (Place.page.inj e)]
      rfl
  refine
    { ordered := ?_, shape, cr3 := rfl, kernelVaddr := rfl, userVaddr := rfl,
      tables := fun d i t' ht h => ?_, fresh, pages,
      content := fun d w g hw h _ => ram ?_, taken := fun _ h => h, spent := ⟨Nat.le_succ _, rfl⟩,
      spared := fun _ => rfl }
  · refine ord.change shape (fun d hd i _ _ => by rw [ram]; rintro rfl; exact notDir hd) ?_
      (fun q g hq h => ?_) fun d _ w hw h => ?_
    · rw [hold_update shape mappable fun q hq => frames hq]
      refine ord.books.place (fun g hg => ?_) fun q hq => ?_
      · cases block_inj.mp hg
        exact spare.1
      · unfold hold at hq
        split at hq
        next hv => exact spare.2 q hv (block_inj.mp hq)
        next => exact block_some_ne f hq.symm
    · rw [frames hq] at h
      split at h
      next e =>
        cases h
        rw [e]
        exact .inr suits
      next => exact .inl h
    · rw [pages _ _ hw, if_neg]
      · exact h
      · rintro ⟨e, rfl⟩
        rw [← e, h] at fresh
        cases fresh
  · refine (frames ht).trans ?_
    rw [if_neg nofun]
    exact h
  · rintro rfl
    exact ord.page_not_table hw h valid table

theorem addToTable_ok (ord : m.Ordered dirs) (run : IsDir dirs m.cr3) (mappable : m.Mappable dirs v)
    (table : m.tableAt (m.owner v) (v / 1024) = some t) (spare : Spare m dirs f)
    (suits : m.Suits (.page (m.owner v) v) f) (h : m.addToTable v f = .ok m') :
    MapsOne m m' dirs (m.owner v) v f := by
  obtain ⟨-, hi⟩ := ord.layout.valid_table mappable
  unfold addToTable at h
  rw [ord.read_pte run hi table, ok_bind] at h
  obtain ⟨_, absent, h⟩ := bind_eq_ok.mp h
  rw [ord.write_pte run hi table] at h
  cases h
  refine addToTable_mapsOne ord mappable table ?_ spare suits
  rw [pageAt_table table, target_eq_none]
  exact assertThat_ok absent

theorem addToTable_total (ord : m.Ordered dirs) (run : IsDir dirs m.cr3)
    (mappable : m.Mappable dirs v) (table : m.tableAt (m.owner v) (v / 1024) = some t)
    (fresh : m.pageAt (m.owner v) v = none) (f : Nat) : ∃ m', m.addToTable v f = .ok m' := by
  obtain ⟨-, hi⟩ := ord.layout.valid_table mappable
  rw [pageAt_table table, target_eq_none] at fresh
  unfold addToTable
  rw [ord.read_pte run hi table, ok_bind, assertThat_of fresh, ok_bind, ord.write_pte run hi table]
  exact ⟨_, rfl⟩

/-! ## A new table -/

/-- The new entry of the running directory makes the table a page. -/
theorem Ordered.pageAt_newTable (ord : m.Ordered dirs) (run : IsDir dirs m.cr3) (hi : i < 1023) :
    (m.poke m.cr3 i (entryWord t)).pageAt m.cr3 (1023 * 1024 + i) = some t := by
  have ram (k : Nat) : (m.poke m.cr3 i (entryWord t)).ram m.cr3 k = if k = i then entryWord t
      else m.ram m.cr3 k := by
    show Function.update m.ram m.cr3 _ m.cr3 k = _
    rw [Function.update_self, Function.update_apply]
  have self : (m.poke m.cr3 i (entryWord t)).tableAt m.cr3 ((1023 * 1024 + i) / 1024) =
      some m.cr3 := by
    unfold tableAt
    rw [show (1023 * 1024 + i) / 1024 = 1023 by omega, ram, if_neg (by omega), ord.self _ run,
      target_entryWord]
  rw [pageAt_table self, show (1023 * 1024 + i) % 1024 = i by omega, ram, if_pos rfl,
    target_entryWord]

/-- The state with a new table of the running directory. -/
def withTable (m : Memory) (i t : Nat) : Memory := (m.poke m.cr3 i (entryWord t)).fill t fun _ => 0

theorem newTable_keeps (ord : m.Ordered dirs) (run : m.cr3 ∈ dirs) (hi : i < 768)
    (none : m.tableAt m.cr3 i = none) (spare : Spare m dirs t) (inPool : m.InPool t .kernel) :
    Keeps m (m.withTable i t) dirs ∧ (m.withTable i t).tableAt m.cr3 i = some t ∧
      ∀ d w, m.Valid dirs (.page d w) → (m.withTable i t).pageAt d w = m.pageAt d w := by
  have shape : SameShape m (m.withTable i t) := ⟨rfl, rfl, rfl, rfl, rfl, rfl⟩
  have valid : m.Valid dirs (.table m.cr3 i) := .inl ⟨run, hi⟩
  have frames {q : Place} (hq : m.Valid dirs q) : (m.withTable i t).frameIn q = if q =
      .table m.cr3 i then some t else m.frameIn q :=
    ord.frameIn_newTable run none spare.2 hq
  have pages (d w : Nat) (hw : m.Valid dirs (.page d w)) : (m.withTable i t).pageAt d w =
      m.pageAt d w :=
    (frames hw).trans (if_neg nofun)
  have ne {c : Nat} (hc : IsDir dirs c) : c ≠ t := by
    rintro rfl
    obtain ⟨q, hq, held, -⟩ := ord.heldDir hc
    exact spare.2 q hq held
  have ram {c : Nat} (hc : c ≠ t) (hc' : c ≠ m.cr3) : (m.withTable i t).ram c = m.ram c := by
    show Function.update (Function.update m.ram m.cr3 _) t _ c = _
    rw [Function.update_of_ne hc, Function.update_of_ne hc']
  refine
    ⟨{ ordered := ?_, shape, cr3 := rfl, kernelVaddr := rfl, userVaddr := rfl,
       tables := fun d j t' ht h => ?_,
       content := fun d w g hw h hg => ram ?_ ?_, taken := fun _ h => h },
         (frames valid).trans (if_pos rfl), pages⟩
  · refine ord.change shape (fun d hd j hj _ => ?_) ?_ (fun q g hq h => ?_) fun d _ w hw h =>
      (pages _ _ hw).trans h
    · by_cases hdc : d = m.cr3
      · subst hdc
        show Function.update (Function.update m.ram m.cr3 _) t _ m.cr3 j = _
        rw [Function.update_of_ne (ne hd), Function.update_self, Function.update_of_ne (by omega)]
      · rw [ram (ne hd) hdc]
    · rw [hold_update shape valid fun q hq => frames hq]
      refine ord.books.place (fun g hg => ?_) fun q hq => ?_
      · cases block_inj.mp hg
        exact spare.1
      · unfold hold at hq
        split at hq
        next hv => exact spare.2 q hv (block_inj.mp hq)
        next => exact block_some_ne t hq.symm
    · rw [frames hq] at h
      split at h
      next e =>
        cases h
        rw [e]
        refine .inr ?_
        show if m.cr3 = kernelDir then _ else m.InPool t .kernel
        have notKernel : m.cr3 ≠ kernelDir := fun e => ord.kernelDir_not_mem (e ▸ run)
        rw [if_neg notKernel]
        exact inPool
      next => exact .inl h
  · refine (frames ht).trans ?_
    split
    next e =>
      obtain ⟨rfl, rfl⟩ := Place.table.inj e
      rw [none] at h
      cases h
    next => exact h
  · rintro rfl
    exact spare.2 _ hw h
  · rintro rfl
    exact hg run

theorem Keeps.trans (k : Keeps m m₁ dirs) (k' : Keeps m₁ m' dirs)
    (pages : ∀ d w g, m.Valid dirs (.page d w) → m.pageAt d w = some g → m₁.pageAt d w = some g) :
    Keeps m m' dirs where
  ordered := k'.ordered
  shape := k.shape.trans k'.shape
  cr3 := k'.cr3.trans k.cr3
  kernelVaddr := k'.kernelVaddr.trans k.kernelVaddr
  userVaddr := k'.userVaddr.trans k.userVaddr
  tables d i t hv h := k'.tables d i t (k.shape.valid.mpr hv) (k.tables d i t hv h)
  content d w g hv h hg := by
    rw [k'.content d w g (k.shape.valid.mpr hv) (pages d w g hv h) hg, k.content d w g hv h hg]
  taken g h := k'.taken g (k.taken g h)

theorem Granted.keeps (g : Granted m pf f m') (ord : m.Ordered dirs) : Keeps m m' dirs where
  ordered := g.ordered ord
  shape := g.shape
  cr3 := g.cr3
  kernelVaddr := g.kernelVaddr
  userVaddr := g.userVaddr
  tables d i t _ h := (g.frameIn (.table d i)).trans h
  content _ _ _ _ _ _ := by rw [g.ram]
  taken c h := (g.taken c).mpr (.inr h)

theorem Mappable.low (mappable : m.Mappable dirs v) (h : v < kernelStart) :
    m.owner v = m.cr3 ∧ m.cr3 ∈ dirs := by
  have o : m.owner v = m.cr3 := if_pos h
  refine ⟨o, ?_⟩
  unfold Mappable at mappable
  rw [o] at mappable
  rcases mappable with ⟨hmem, -⟩ | ⟨-, hle, -⟩
  · exact hmem
  · unfold kernelStart at h
    unfold kHeapStart at hle
    omega

/-- A page without a table is below the kernel. -/
theorem Ordered.low_of_none (ord : m.Ordered dirs) (mappable : m.Mappable dirs v)
    (h : m.tableAt (m.owner v) (v / 1024) = none) : v < kernelStart := by
  by_contra hc
  obtain ⟨-, hi⟩ := ord.layout.valid_table mappable
  have o : m.owner v = kernelDir := if_neg hc
  unfold kernelStart at hc
  have there := ord.tables (v / 1024) (by omega) hi
  rw [← o, h] at there
  cases there

/-- The two writes of a new table. -/
theorem Ordered.newTable_writes (ord : m.Ordered dirs) (run : IsDir dirs m.cr3)
    (hi : v / 1024 < 1023) (t : Nat) :
    (do
      let m ← m.write "page_table_add" (pdePtr v) (entryWord t)
      m.writePage "page_table_add" (ptePtr v).1 fun _ => 0) = .ok (m.withTable (v / 1024) t) := by
  rw [ord.write_pde run, ok_bind]
  have page : (m.poke m.cr3 (v / 1024) (entryWord t)).pageAt m.cr3 (ptePtr v).1 = some t :=
    ord.pageAt_newTable run hi
  exact writePage_of page

/-- A table of the running directory has been added, and its frame is spent. -/
structure AddsTable (m m' : Memory) (dirs : List Nat) (i : Nat) : Prop extends Keeps m m' dirs where
  table : (m'.tableAt m.cr3 i).isSome = true
  pages : ∀ d w, m.Valid dirs (.page d w) → m'.pageAt d w = m.pageAt d w
  spent : m'.kernelPool.freeCount + 1 = m.kernelPool.freeCount ∧ m'.userPool = m.userPool
  spare : ∀ f, Spare m dirs f → Spare m' dirs f

theorem newTable_adds (ord : m.Ordered dirs) (run : m.cr3 ∈ dirs) (hi : i < 768)
    (none : m.tableAt m.cr3 i = none) (grant : Granted m .kernel t m₁) :
    AddsTable m (m₁.withTable i t) dirs i := by
  have ord₁ := grant.ordered ord
  have run₁ : m₁.cr3 ∈ dirs := grant.cr3 ▸ run
  have none₁ : m₁.tableAt m₁.cr3 i = Option.none := by
    rw [grant.cr3]
    exact (grant.frameIn (.table m.cr3 i)).trans none
  obtain ⟨keeps, table, pages⟩ :=
    newTable_keeps ord₁ run₁ hi none₁ (grant.spare ord) (grant.shape.inPool.mpr grant.inPool)
  refine
    { toKeeps :=
        (grant.keeps ord).trans keeps fun d w g _ hg => (grant.frameIn (.page d w)).trans hg,
      table := by rw [← grant.cr3, table]; rfl, pages := fun d w hw => ?_,
      spent := ⟨grant.count, grant.other .user nofun⟩,
      spare := fun f spare => ?_ }
  · exact (pages d w (grant.shape.valid.mpr hw)).trans (grant.frameIn (.page d w))
  · have spare₁ := grant.spare_other spare
    refine ⟨keeps.taken f spare₁.1, fun q hq hf => ?_⟩
    rw [keeps.shape.valid] at hq
    rw [show (m₁.withTable i t).frameIn q = _ from
      ord₁.frameIn_newTable run₁ none₁ (grant.spare ord).2 hq] at hf
    split at hf
    next =>
      cases hf
      exact grant.free spare.1
    next => exact spare₁.2 q hq hf

/-- A page is mapped after its table has been added. -/
theorem AddsTable.mapsOne (adds : AddsTable m m₁ dirs (v / 1024)) (mappable : m.Mappable dirs v)
    (own : m.owner v = m.cr3) (none : m.tableAt m.cr3 (v / 1024) = none)
    (one : MapsOne m₁ m' dirs (m₁.owner v) v f) : MapsOne m m' dirs (m.owner v) v f := by
  rw [adds.owner v] at one
  have pages := adds.pages
  refine
    { toKeeps := adds.toKeeps.trans one.toKeeps fun d w g hw hg => (pages d w hw).trans hg,
      fresh := ?_, pages := fun d w hw => ?_,
      spent := ⟨?_, one.spent.2.trans adds.spent.2⟩, spared := fun there => ?_ }
  · rw [← pages _ _ mappable]
    exact one.fresh
  · rw [one.pages d w (adds.shape.valid.mpr hw), pages d w hw]
  · rw [one.spared (by rw [own]; exact adds.table)]
    exact Nat.le_of_eq adds.spent.1.symm
  · rw [own, none] at there
    cases there

/-- ONE PAGE. `page_table_add` maps the page to the frame, in a new table if there was none. -/
theorem pageTableAdd_ok (ord : m.Ordered dirs) (run : IsDir dirs m.cr3)
    (mappable : m.Mappable dirs v) (spare : Spare m dirs f)
    (suits : m.Suits (.page (m.owner v) v) f) (h : m.pageTableAdd v f = .ok m') :
    MapsOne m m' dirs (m.owner v) v f := by
  obtain ⟨-, hi⟩ := ord.layout.valid_table mappable
  have same := ord.tableAt_owner run hi
  unfold pageTableAdd at h
  rw [ord.read_pde run, ok_bind] at h
  split at h
  next there =>
    have table : m.tableAt (m.owner v) (v / 1024) = some (frameOf (m.ram m.cr3 (v / 1024))) := by
      rw [← same]
      exact if_pos there
    exact addToTable_ok ord run mappable table spare suits h
  next absent =>
    rw [Bool.not_eq_true] at absent
    have none : m.tableAt m.cr3 (v / 1024) = none := target_eq_none.mpr absent
    have low := ord.low_of_none mappable (same ▸ none)
    obtain ⟨own, run'⟩ := mappable.low low
    have hi' : v / 1024 < 768 := by
      unfold kernelStart at low
      omega
    obtain ⟨⟨t, m₁⟩, hpalloc, h⟩ := bind_eq_ok.mp h
    have grant := palloc_ok ord.layout hpalloc
    have adds := newTable_adds ord run' hi' none grant
    obtain ⟨m₂, hwrite, h⟩ := bind_eq_ok.mp h
    obtain ⟨m₃, hclear, h⟩ := bind_eq_ok.mp h
    have both := (grant.ordered ord).newTable_writes (v := v) (.inr (grant.cr3 ▸ run')) hi t
    rw [hwrite, ok_bind, hclear, Except.ok.injEq] at both
    subst both
    have mappable' : (m₁.withTable (v / 1024) t).Mappable dirs v := by
      unfold Mappable
      rw [adds.shape.valid, adds.owner]
      exact mappable
    obtain ⟨table, htable⟩ := Option.isSome_iff_exists.mp adds.table
    refine adds.mapsOne mappable own none
      (addToTable_ok (t := table) adds.ordered (.inr (adds.cr3 ▸ run')) mappable' ?_
        (adds.spare f spare) ?_ h)
    · rw [adds.owner, own]
      exact htable
    · rw [adds.owner]
      exact adds.shape.suits.mpr suits

/-- Where the page is not mapped, and there is a frame for a table if one is needed,
`page_table_add` comes to its end. -/
theorem pageTableAdd_total (ord : m.Ordered dirs) (run : IsDir dirs m.cr3)
    (mappable : m.Mappable dirs v) (fresh : m.pageAt (m.owner v) v = none)
    (room : m.tableAt (m.owner v) (v / 1024) = none → 0 < m.kernelPool.freeCount) (f : Nat) :
    ∃ m', m.pageTableAdd v f = .ok m' := by
  obtain ⟨-, hi⟩ := ord.layout.valid_table mappable
  have same := ord.tableAt_owner run hi
  unfold pageTableAdd
  rw [ord.read_pde run, ok_bind]
  split
  next there =>
    have table : m.tableAt (m.owner v) (v / 1024) = some (frameOf (m.ram m.cr3 (v / 1024))) := by
      rw [← same]
      exact if_pos there
    exact addToTable_total ord run mappable table fresh f
  next absent =>
    rw [Bool.not_eq_true] at absent
    have none : m.tableAt m.cr3 (v / 1024) = none := target_eq_none.mpr absent
    have low := ord.low_of_none mappable (same ▸ none)
    obtain ⟨own, run'⟩ := mappable.low low
    have hi' : v / 1024 < 768 := by
      unfold kernelStart at low
      omega
    obtain ⟨t, m₁, hpalloc, grant⟩ :=
      palloc_total ord.layout (show 0 < (m.pool .kernel).freeCount from room (same ▸ none))
    have adds := newTable_adds ord run' hi' none grant
    have both := (grant.ordered ord).newTable_writes (v := v) (.inr (grant.cr3 ▸ run')) hi t
    obtain ⟨m₂, hwrite, hclear⟩ := bind_eq_ok.mp both
    have mappable' : (m₁.withTable (v / 1024) t).Mappable dirs v := by
      unfold Mappable
      rw [adds.shape.valid, adds.owner]
      exact mappable
    obtain ⟨table, htable⟩ := Option.isSome_iff_exists.mp adds.table
    rw [hpalloc, ok_bind]
    dsimp only
    rw [hwrite, ok_bind, hclear, ok_bind]
    refine addToTable_total adds.ordered (.inr (adds.cr3 ▸ run')) mappable' (t := table) ?_ ?_ f
    · rw [adds.owner, own]
      exact htable
    · rw [adds.owner, adds.pages _ _ mappable]
      exact fresh

end Memory

end SeekingOs
