import Mathlib.Algebra.Group.WithOne.Defs
import SeekingOs.Kernel.Memory
import SeekingOs.Lib.Ownership

/-!
# Who holds a frame

A frame is held by an entry of a page directory, as a table, or by an entry of a table, as a page.
`Ordered`: no frame is held twice, and the frames that are held are taken in their pools. The
kernel's tables are there from the start and are shared by all directories, so its pages are counted
once, under its own directory.
-/

namespace SeekingOs

open Lib

/-! ## Words -/

@[simp] theorem target_entryWord (f : Nat) : target (entryWord f) = some f := by
  unfold target present frameOf entryWord
  rw [if_pos (by rw [beq_iff_eq]; omega)]
  congr 1
  omega

@[simp] theorem target_zero : target 0 = none := rfl

theorem target_eq_none {w : Nat} : target w = none ↔ present w = false := by
  unfold target
  split
  next h => simp [h]
  next h => simpa using h

theorem target_eq_some {w f : Nat} (h : target w = some f) : present w = true ∧ frameOf w = f := by
  unfold target at h
  split at h
  next hp => exact ⟨hp, Option.some.inj h⟩
  next => cases h

@[simp] theorem target_removed (w : Nat) : target (w - w % 2) = none := by
  rw [target_eq_none]
  unfold present
  rw [beq_eq_false_iff_ne]
  omega

/-! ## Places -/

/-- Where frames are held. -/
inductive Place where
  | table (dir i : Nat)
  | page (dir v : Nat)
  deriving DecidableEq

/-- The page directories of the kernel and of the processes. -/
def IsDir (dirs : List Nat) (f : Nat) : Prop := f = kernelDir ∨ f ∈ dirs

/-- The bit of a frame is set. -/
def Pool.Has (pool : Pool) (f : Nat) : Prop :=
  pool.phyAddrStart ≤ f ∧ pool.poolBitmap.test (f - pool.phyAddrStart) = true

namespace Memory

variable {m m' m₁ : Memory} {dirs : List Nat} {p q : Place} {d i j o v w f g t bitIdx : Nat}
  {pf : PoolFlags} {value : Bool}

/-- The places that are counted: tables and pages of the processes below the kernel, the kernel's
tables with its directory among them, and the pages of its heap. -/
def Valid (m : Memory) (dirs : List Nat) : Place → Prop
  | .table d i => d ∈ dirs ∧ i < 768 ∨ d = kernelDir ∧ 768 ≤ i ∧ i < 1024
  | .page d v => d ∈ dirs ∧ v < kernelStart ∨ d = kernelDir ∧ kHeapStart ≤ v ∧
      v < kHeapStart + m.kernelVaddr.size

instance (m : Memory) (dirs : List Nat) : (p : Place) → Decidable (m.Valid dirs p)
  | .table _ _ => inferInstanceAs (Decidable (_ ∨ _))
  | .page _ _ => inferInstanceAs (Decidable (_ ∨ _))

/-- The frame in a place. -/
def frameIn (m : Memory) : Place → Option Nat
  | .table d i => m.tableAt d i
  | .page d v => m.pageAt d v

/-- A frame or none, as the books have it. -/
def block (b : Option Nat) : WithZero Nat := b

theorem block_inj {a b : Option Nat} : block a = block b ↔ a = b := Iff.rfl

theorem block_some_ne (f : Nat) : block (some f) ≠ 0 := Option.some_ne_none f

/-- The frames in the places that are counted. -/
def hold (m : Memory) (dirs : List Nat) (p : Place) : WithZero Nat :=
  if m.Valid dirs p then block (m.frameIn p) else 0

/-- The frames that are not to be had. -/
def Taken (m : Memory) (f : Nat) : Prop := f < m.kernelPool.phyAddrStart ∨ m.kernelPool.Has f ∨
  m.userPool.Has f

def TakenBlock (m : Memory) (b : WithZero Nat) : Prop := ∀ f : Nat, b = block (some f) → m.Taken f

/-- Where the pools lie, and how far the kernel heap reaches. -/
structure Layout (m : Memory) : Prop where
  low : 0x200 ≤ m.kernelPool.phyAddrStart
  apart : m.kernelPool.phyAddrStart + m.kernelPool.poolBitmap.size ≤ m.userPool.phyAddrStart
  fits : m.userPool.phyAddrStart + m.userPool.poolBitmap.size ≤ 2 ^ 20
  heap : kHeapStart + m.kernelVaddr.size ≤ 1023 * 1024

/-- The pool that the frame in a place is from; the kernel's tables are below both. -/
def Suits (m : Memory) : Place → Nat → Prop
  | .table d _, f => if d = kernelDir then f < m.kernelPool.phyAddrStart else m.InPool f .kernel
  | .page d _, f => if d = kernelDir then m.InPool f .kernel else m.InPool f .user

/-- THE FRAMES ARE IN ORDER. Every directory has itself as its last entry and shares the kernel's
tables, which are all there. No frame is in two places, and each is taken in the right pool. The
directories of the processes are pages of the kernel heap. -/
structure Ordered (m : Memory) (dirs : List Nat) : Prop where
  layout : m.Layout
  self : ∀ d, IsDir dirs d → m.ram d 1023 = entryWord d
  shared : ∀ d ∈ dirs, ∀ i, 768 ≤ i → i < 1023 → m.ram d i = m.ram kernelDir i
  tables : ∀ i, 768 ≤ i → i < 1023 → (m.tableAt kernelDir i).isSome = true
  books : Books m.TakenBlock (m.hold dirs)
  suits : ∀ p f, m.Valid dirs p → m.frameIn p = some f → m.Suits p f
  dirs : ∀ d ∈ dirs, ∃ v, kHeapStart ≤ v ∧ v < kHeapStart + m.kernelVaddr.size ∧
    m.pageAt kernelDir v = some d

/-! ## Frames and places -/

theorem hold_valid (h : m.Valid dirs p) : m.hold dirs p = block (m.frameIn p) := if_pos h

theorem valid_page_kernel (h : kHeapStart ≤ v) (h' : v < kHeapStart + m.kernelVaddr.size) :
    m.Valid dirs (.page kernelDir v) :=
  .inr ⟨rfl, h, h'⟩

theorem Ordered.inj (ord : m.Ordered dirs) (hp : m.Valid dirs p) (hq : m.Valid dirs q)
    (h : m.frameIn p = some f) (h' : m.frameIn q = some f) : p = q := by
  refine ord.books.inj p q ?_ ?_
  · rw [hold_valid hp, h]
    exact block_some_ne f
  · rw [hold_valid hp, hold_valid hq, h, h']

theorem Ordered.taken (ord : m.Ordered dirs) (hp : m.Valid dirs p) (h : m.frameIn p = some f) :
    m.Taken f := by
  refine ord.books.taken p ?_ f ?_
  · rw [hold_valid hp, h]
    exact block_some_ne f
  · rw [hold_valid hp, h]

/-- A directory is held as a page of the kernel, or as the last table of its own. -/
theorem Ordered.heldDir (ord : m.Ordered dirs) (hd : IsDir dirs d) :
    ∃ q, m.Valid dirs q ∧ m.frameIn q = some d ∧ ∀ o i, q = .table o i → i = 1023 := by
  rcases hd with rfl | hd
  · refine ⟨.table kernelDir 1023, .inr ⟨rfl, by decide, by decide⟩, ?_,
      fun o i h => (Place.table.inj h).2.symm⟩
    show target (m.ram kernelDir 1023) = some kernelDir
    rw [ord.self kernelDir (.inl rfl), target_entryWord]
  · obtain ⟨v, hv, hv', h⟩ := ord.dirs d hd
    exact ⟨.page kernelDir v, valid_page_kernel hv hv', h, nofun⟩

theorem Ordered.table_not_dir (ord : m.Ordered dirs) (hv : m.Valid dirs (.table o i))
    (hi : i < 1023) (h : m.tableAt o i = some t) : ¬ IsDir dirs t := by
  intro hd
  obtain ⟨q, hq, held, last⟩ := ord.heldDir hd
  have same := last o i (ord.inj hq hv held h)
  omega

theorem Ordered.kernelDir_not_mem (ord : m.Ordered dirs) : kernelDir ∉ dirs := by
  intro h
  obtain ⟨v, hv, hv', held⟩ := ord.dirs _ h
  have self : m.frameIn (.table kernelDir 1023) = some kernelDir := by
    show target (m.ram kernelDir 1023) = some kernelDir
    rw [ord.self kernelDir (.inl rfl), target_entryWord]
  have valid : m.Valid dirs (.table kernelDir 1023) := .inr ⟨rfl, by decide, by decide⟩
  cases ord.inj (valid_page_kernel hv hv') valid held self

theorem Ordered.page_not_kernelDir (ord : m.Ordered dirs) (hv : m.Valid dirs (.page o v)) :
    m.pageAt o v ≠ some kernelDir := by
  intro h
  have self : m.frameIn (.table kernelDir 1023) = some kernelDir := by
    show target (m.ram kernelDir 1023) = some kernelDir
    rw [ord.self kernelDir (.inl rfl), target_entryWord]
  cases ord.inj hv (q := .table kernelDir 1023) (.inr ⟨rfl, by decide, by decide⟩) h self

theorem valid_isDir :
    m.Valid dirs p → ∃ o, IsDir dirs o ∧ ((∃ i, p = .table o i) ∨ ∃ v, p = .page o v) := by
  cases p with
  | table o i => exact fun h => ⟨o, h.elim (fun h => .inr h.1) fun h => .inl h.1, .inl ⟨i, rfl⟩⟩
  | page o v => exact fun h => ⟨o, h.elim (fun h => .inr h.1) fun h => .inl h.1, .inr ⟨v, rfl⟩⟩

/-- The table of a page is counted too. -/
theorem Layout.valid_table (lay : m.Layout) (h : m.Valid dirs (.page o v)) :
    m.Valid dirs (.table o (v / 1024)) ∧ v / 1024 < 1023 := by
  have heap := lay.heap
  rcases h with ⟨hd, hv⟩ | ⟨hd, hv, hv'⟩
  · unfold kernelStart at hv
    exact ⟨.inl ⟨hd, by omega⟩, by omega⟩
  · unfold kHeapStart at hv hv' heap
    exact ⟨.inr ⟨hd, by omega, by omega⟩, by omega⟩

theorem pageAt_some : m.pageAt o v = some f ↔ ∃ t, m.tableAt o (v / 1024) = some t ∧
    target (m.ram t (v % 1024)) = some f := by
  unfold pageAt
  rw [Option.bind_eq_some_iff]

theorem pageAt_table (h : m.tableAt o (v / 1024) = some t) :
    m.pageAt o v = target (m.ram t (v % 1024)) := by
  unfold pageAt
  rw [h]
  rfl

/-! ## What a write changes -/

/-- The places hold what they held where directories and tables were not written. -/
theorem frameIn_same (lay : m.Layout) (hdir : ∀ d, IsDir dirs d → m'.ram d = m.ram d)
    (htable : ∀ o i t, m.Valid dirs (.table o i) → i < 1023 → m.tableAt o i = some t →
      m'.ram t = m.ram t) (hp : m.Valid dirs p) : m'.frameIn p = m.frameIn p := by
  have table {o i : Nat} (ho : IsDir dirs o) : m'.tableAt o i = m.tableAt o i := by
    unfold tableAt
    rw [hdir o ho]
  obtain ⟨o, ho, ⟨i, rfl⟩ | ⟨v, rfl⟩⟩ := valid_isDir hp
  · exact table ho
  · obtain ⟨hv, hi⟩ := lay.valid_table hp
    show m'.pageAt o v = m.pageAt o v
    cases h : m.tableAt o (v / 1024) with
    | none =>
      unfold pageAt
      rw [table ho, h]
      rfl
    | some t => rw [pageAt_table h, pageAt_table ((table ho).trans h), htable o _ t hv hi h]

/-- A frame that is neither a directory nor a table may be written. -/
theorem Ordered.frameIn_fill (ord : m.Ordered dirs) (hdir : ¬ IsDir dirs f)
    (htable : ∀ o i, m.Valid dirs (.table o i) → m.tableAt o i ≠ some f) (words : Nat → Nat)
    (hp : m.Valid dirs p) : (m.fill f words).frameIn p = m.frameIn p := by
  have other {g : Nat} (h : g ≠ f) : (m.fill f words).ram g = m.ram g := Function.update_of_ne h _ _
  refine frameIn_same ord.layout (fun d hd => other ?_) (fun o i t hv _ h => other ?_) hp
  · rintro rfl
    exact hdir hd
  · rintro rfl
    exact htable o i hv h

/-- THE ENTRY OF A PAGE. A word of a table is the entry of one page. -/
theorem Ordered.frameIn_poke (ord : m.Ordered dirs) (hv : m.Valid dirs (.table o i)) (hi : i < 1023)
    (h : m.tableAt o i = some t) (w : Nat) (hp : m.Valid dirs p) :
    (m.poke t j w).frameIn p = if p = .page o (1024 * i + j) ∧ j < 1024 then target w
      else m.frameIn p := by
  have notDir := ord.table_not_dir hv hi h
  have dir {d : Nat} (hd : IsDir dirs d) : (m.poke t j w).ram d = m.ram d := by
    refine Function.update_of_ne ?_ _ _
    rintro rfl
    exact notDir hd
  obtain ⟨d, hd, ⟨k, rfl⟩ | ⟨v, rfl⟩⟩ := valid_isDir hp
  · rw [if_neg nofun]
    show target ((m.poke t j w).ram d k) = target (m.ram d k)
    rw [dir hd]
  · obtain ⟨hv', hi'⟩ := ord.layout.valid_table hp
    have table : (m.poke t j w).tableAt d (v / 1024) = m.tableAt d (v / 1024) := by
      unfold tableAt
      rw [dir hd]
    show (m.poke t j w).pageAt d v = if _ then _ else m.pageAt d v
    cases ht : m.tableAt d (v / 1024) with
    | none =>
      have empty : m.pageAt d v = none := by
        unfold pageAt
        rw [ht]
        rfl
      have empty' : (m.poke t j w).pageAt d v = none := by
        unfold pageAt
        rw [table, ht]
        rfl
      rw [empty', if_neg, empty]
      rintro ⟨e, hj⟩
      obtain ⟨rfl, rfl⟩ := Place.page.inj e
      rw [show (1024 * i + j) / 1024 = i by omega, h] at ht
      cases ht
    | some t' =>
      rw [pageAt_table (table.trans ht), pageAt_table ht]
      by_cases htt : t' = t
      · subst htt
        obtain ⟨rfl, hiv⟩ := Place.table.inj (ord.inj hv' hv ht h)
        show target (Function.update m.ram t' (Function.update (m.ram t') j w) t' (v % 1024)) = _
        rw [Function.update_self]
        by_cases hj : v % 1024 = j
        · rw [hj, Function.update_self, if_pos]
          refine ⟨?_, by omega⟩
          congr 1
          omega
        · rw [Function.update_of_ne hj, if_neg]
          rintro ⟨e, hlt⟩
          have := (Place.page.inj e).2
          omega
      · rw [show (m.poke t j w).ram t' = m.ram t' from Function.update_of_ne htt _ _, if_neg]
        rintro ⟨e, hj⟩
        obtain ⟨rfl, rfl⟩ := Place.page.inj e
        rw [show (1024 * i + j) / 1024 = i by omega, h] at ht
        exact htt (Option.some.inj ht).symm

/-- THE ENTRY OF A TABLE. A new table that is empty is the entry of a directory; its pages hold
nothing before and after. -/
theorem Ordered.frameIn_newTable (ord : m.Ordered dirs) (hd : d ∈ dirs)
    (none : m.tableAt d i = none) (spare : ∀ q, m.Valid dirs q → m.frameIn q ≠ some t)
    (hp : m.Valid dirs p) :
    ((m.poke d i (entryWord t)).fill t fun _ => 0).frameIn p = if p = .table d i then some t
      else m.frameIn p := by
  have ne {c : Nat} (hc : IsDir dirs c) : c ≠ t := by
    rintro rfl
    obtain ⟨q, hq, held, -⟩ := ord.heldDir hc
    exact spare q hq held
  have ram {c : Nat} (hc : c ≠ t) (k : Nat) :
      ((m.poke d i (entryWord t)).fill t fun _ => 0).ram c k =
      if c = d ∧ k = i then entryWord t else m.ram c k := by
    show Function.update (Function.update m.ram d _) t _ c k = _
    rw [Function.update_of_ne hc]
    by_cases hcd : c = d
    · subst hcd
      rw [Function.update_self]
      by_cases hk : k = i
      · rw [hk, Function.update_self, if_pos ⟨rfl, rfl⟩]
      · rw [Function.update_of_ne hk, if_neg fun h => hk h.2]
    · rw [Function.update_of_ne hcd, if_neg fun h => hcd h.1]
  have table {o k : Nat} (ho : IsDir dirs o) :
      ((m.poke d i (entryWord t)).fill t fun _ => 0).tableAt o k =
      if o = d ∧ k = i then some t else m.tableAt o k := by
    unfold tableAt
    rw [ram (ne ho)]
    split
    next => exact target_entryWord t
    next => rfl
  obtain ⟨o, ho, ⟨k, rfl⟩ | ⟨v, rfl⟩⟩ := valid_isDir hp
  · refine (table ho).trans ?_
    by_cases h : o = d ∧ k = i
    · rw [if_pos h, if_pos (by rw [h.1, h.2])]
    · rw [if_neg h, if_neg fun e => h (Place.table.inj e)]
      rfl
  · rw [if_neg nofun]
    obtain ⟨hv, -⟩ := ord.layout.valid_table hp
    show pageAt _ o v = m.pageAt o v
    have at' := table (k := v / 1024) ho
    by_cases h : o = d ∧ v / 1024 = i
    · rw [if_pos h] at at'
      rw [pageAt_table at']
      unfold pageAt
      rw [h.1, h.2, none]
      show target (Function.update (m.poke d i (entryWord t)).ram t (fun _ => 0) t (v % 1024)) = _
      rw [Function.update_self]
      rfl
    · rw [if_neg h] at at'
      cases ht : m.tableAt o (v / 1024) with
      | none =>
        unfold pageAt
        rw [at', ht]
        rfl
      | some t' =>
        rw [pageAt_table (at'.trans ht), pageAt_table ht,
          ram (by rintro rfl; exact spare _ hv ht), if_neg]
        rintro ⟨rfl, -⟩
        -- a table of a process is not the directory of a process
        have hi' := (ord.layout.valid_table hp).2
        exact ord.table_not_dir hv hi' ht (.inr hd)

/-! ## What stays -/

/-- Pools and bitmaps lie where they lay, and are as long. -/
structure SameShape (m m' : Memory) : Prop where
  kernelStart : m'.kernelPool.phyAddrStart = m.kernelPool.phyAddrStart
  kernelSize : m'.kernelPool.poolBitmap.size = m.kernelPool.poolBitmap.size
  userStart : m'.userPool.phyAddrStart = m.userPool.phyAddrStart
  userSize : m'.userPool.poolBitmap.size = m.userPool.poolBitmap.size
  heap : m'.kernelVaddr.size = m.kernelVaddr.size
  user : m'.userVaddr.size = m.userVaddr.size

theorem SameShape.refl (m : Memory) : SameShape m m := ⟨rfl, rfl, rfl, rfl, rfl, rfl⟩

theorem SameShape.trans (h : SameShape m m₁) (h' : SameShape m₁ m') : SameShape m m' :=
  ⟨h'.kernelStart.trans h.kernelStart, h'.kernelSize.trans h.kernelSize,
    h'.userStart.trans h.userStart,
    h'.userSize.trans h.userSize, h'.heap.trans h.heap, h'.user.trans h.user⟩

theorem SameShape.layout (h : SameShape m m') (lay : m.Layout) : m'.Layout :=
  ⟨by rw [h.kernelStart]; exact lay.low,
    by rw [h.kernelStart, h.kernelSize, h.userStart]; exact lay.apart,
    by rw [h.userStart, h.userSize]; exact lay.fits, by rw [h.heap]; exact lay.heap⟩

theorem SameShape.valid (h : SameShape m m') : m'.Valid dirs p ↔ m.Valid dirs p := by
  cases p with
  | table o i => exact Iff.rfl
  | page o v =>
    unfold Valid
    rw [h.heap]

theorem SameShape.inPool (h : SameShape m m') : m'.InPool f pf ↔ m.InPool f pf := by
  cases pf with
  | kernel =>
    unfold InPool
    rw [h.kernelStart, h.userStart]
  | user =>
    unfold InPool
    rw [h.userStart]

theorem SameShape.suits (h : SameShape m m') : m'.Suits p f ↔ m.Suits p f := by
  cases p with
  | table o i =>
    unfold Suits
    dsimp only
    rw [h.kernelStart, propext h.inPool]
  | page o v =>
    unfold Suits
    dsimp only
    rw [propext h.inPool, propext h.inPool]

/-- THE ORDER RULE. What an operation has to say about directories, places and books. -/
theorem Ordered.change (ord : m.Ordered dirs) (shape : SameShape m m')
    (high : ∀ d, IsDir dirs d → ∀ i, 768 ≤ i → i < 1024 → m'.ram d i = m.ram d i)
    (books : Books m'.TakenBlock (m'.hold dirs))
    (suits : ∀ p f, m.Valid dirs p → m'.frameIn p = some f → m.frameIn p = some f ∨ m.Suits p f)
    (kept : ∀ d ∈ dirs, ∀ v, m.Valid dirs (.page kernelDir v) → m.pageAt kernelDir v = some d →
      m'.pageAt kernelDir v = some d) :
    m'.Ordered dirs where
  layout := shape.layout ord.layout
  self d hd := by
    rw [high d hd 1023 (by decide) (by decide)]
    exact ord.self d hd
  shared d hd i hi hi' := by
    rw [high d (.inr hd) i hi (by omega), high kernelDir (.inl rfl) i hi (by omega)]
    exact ord.shared d hd i hi hi'
  tables i hi hi' := by
    unfold tableAt
    rw [high kernelDir (.inl rfl) i hi (by omega)]
    exact ord.tables i hi hi'
  books := books
  suits p f hp h := by
    rw [shape.valid] at hp
    rw [shape.suits]
    exact (suits p f hp h).elim (ord.suits p f hp) id
  dirs d hd := by
    obtain ⟨v, hv, hv', h⟩ := ord.dirs d hd
    refine ⟨v, hv, ?_, kept d hd v (valid_page_kernel hv hv') h⟩
    rwa [shape.heap]

/-- The books after one place has changed. -/
theorem hold_update (shape : SameShape m m') {b : Option Nat} (hp : m.Valid dirs p)
    (h : ∀ q, m.Valid dirs q → m'.frameIn q = if q = p then b else m.frameIn q) :
    m'.hold dirs = Function.update (m.hold dirs) p (block b) := by
  funext q
  by_cases hqp : q = p
  · subst hqp
    rw [Function.update_self, hold_valid (shape.valid.mpr hp), h q hp, if_pos rfl]
  · rw [Function.update_of_ne hqp]
    unfold hold
    by_cases hq : m.Valid dirs q
    · rw [if_pos (shape.valid.mpr hq), if_pos hq, h q hq, if_neg hqp]
    · rw [if_neg fun hc => hq (shape.valid.mp hc), if_neg hq]

/-- The books when no place has changed. -/
theorem hold_same (shape : SameShape m m') (h : ∀ q, m.Valid dirs q → m'.frameIn q = m.frameIn q) :
    m'.hold dirs = m.hold dirs := by
  funext q
  unfold hold
  by_cases hq : m.Valid dirs q
  · rw [if_pos (shape.valid.mpr hq), if_pos hq, h q hq]
  · rw [if_neg fun hc => hq (shape.valid.mp hc), if_neg hq]

end Memory

end SeekingOs
