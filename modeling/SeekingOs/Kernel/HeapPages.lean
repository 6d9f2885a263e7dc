import Mathlib.Order.Interval.Finset.Nat
import SeekingOs.Kernel.KernelPages

/-!
# The pages of a heap

What a task has got from `malloc_page` and not given back to `mfree_page`. In the bitmaps of the
pool that it uses there is nothing besides what was there at the start and these pages.
-/

namespace SeekingOs

open Lib

/-- The bits of a pool that are clear. -/
def Pool.freeBits (pool : Pool) : Finset Nat :=
  (Finset.range pool.poolBitmap.size).filter fun i => pool.poolBitmap.test i = false

theorem Pool.mem_freeBits {pool : Pool} {i : Nat} :
    i ∈ pool.freeBits ↔ i < pool.poolBitmap.size ∧ ¬ pool.Has (pool.phyAddrStart + i) := by
  unfold Pool.freeBits
  rw [Finset.mem_filter, Finset.mem_range, Memory.has_index, Bool.not_eq_true]

namespace Memory

variable {m₀ m m' : Memory} {dirs : List Nat} {o v w f g i n a : Nat} {pf : PoolFlags}
  {R S : Nat → Prop}

/-! ## The frames that a range takes -/

/-- The bits of the frames of a range, in a pool. -/
def frameBits (m : Memory) (pf : PoolFlags) (o v n : Nat) : Finset Nat :=
  (Finset.Ico v (v + n)).image fun w => (m.pageAt o w).getD 0 - (m.pool pf).phyAddrStart

/-- The frames of these pages are of the pool. -/
def FramesIn (m : Memory) (pf : PoolFlags) (o v n : Nat) : Prop :=
  ∀ w, v ≤ w → w < v + n → ∃ f, m.pageAt o w = some f ∧ (m.pool pf).Has f

theorem FramesIn.mem_frameBits (frames : FramesIn m pf o v n) :
    i ∈ m.frameBits pf o v n ↔
    ∃ w, v ≤ w ∧ w < v + n ∧ m.pageAt o w = some ((m.pool pf).phyAddrStart + i) := by
  unfold frameBits
  rw [Finset.mem_image]
  constructor
  · rintro ⟨w, hw, rfl⟩
    rw [Finset.mem_Ico] at hw
    obtain ⟨f, hf, has⟩ := frames w hw.1 hw.2
    refine ⟨w, hw.1, hw.2, ?_⟩
    have low := has.1
    rw [hf, Option.getD_some, Nat.add_sub_cancel' low]
  · rintro ⟨w, h, h', hf⟩
    refine ⟨w, Finset.mem_Ico.mpr ⟨h, h'⟩, ?_⟩
    rw [hf, Option.getD_some, Nat.add_sub_cancel_left]

/-- No two pages have one frame, so that there are as many bits as pages. -/
theorem FramesIn.card (frames : FramesIn m pf o v n) (ord : m.Ordered dirs)
    (valid : ∀ w, v ≤ w → w < v + n → m.Valid dirs (.page o w)) :
    (m.frameBits pf o v n).card = n := by
  unfold frameBits
  rw [Finset.card_image_of_injOn, Nat.card_Ico, Nat.add_sub_cancel_left]
  intro w hw w' hw' heq
  rw [Finset.mem_coe, Finset.mem_Ico] at hw hw'
  obtain ⟨f, hf, has⟩ := frames w hw.1 hw.2
  obtain ⟨f', hf', has'⟩ := frames w' hw'.1 hw'.2
  have low := has.1
  have low' := has'.1
  dsimp only at heq
  rw [hf, hf', Option.getD_some, Option.getD_some] at heq
  obtain rfl : f = f' := by omega
  exact (Place.page.inj (ord.inj (valid w hw.1 hw.2) (valid w' hw'.1 hw'.2) hf hf')).2

theorem SameShape.pool (shape : SameShape m m') (pf : PoolFlags) :
    (m'.pool pf).phyAddrStart = (m.pool pf).phyAddrStart ∧
    (m'.pool pf).poolBitmap.size = (m.pool pf).poolBitmap.size := by
  cases pf with
  | kernel => exact ⟨shape.kernelStart, shape.kernelSize⟩
  | user => exact ⟨shape.userStart, shape.userSize⟩

theorem Maps.has_of_has (maps : Maps m m' dirs o v n) (ord : m.Ordered dirs)
    (has : (m.pool pf).Has g) : (m'.pool pf).Has g := by
  rw [has_iff ord.layout] at has
  rw [has_iff maps.ordered.layout, maps.shape.inPool]
  exact ⟨maps.taken g has.1, has.2⟩

/-- A RANGE TAKES ITS FRAMES AND NO OTHERS from the pool of its pages: it spends no more frames than
it has pages. -/
theorem Maps.has_iff (maps : Maps m m' dirs (m.base pf) v n) (ord : m.Ordered dirs)
    (addr : ∀ w, v ≤ w → w < v + n → m.Addr dirs pf w) :
    (m'.pool pf).Has g ↔ (m.pool pf).Has g ∨ ∃ w, v ≤ w ∧ w < v + n ∧
      m'.pageAt (m.base pf) w = some g := by
  obtain ⟨start, size⟩ := maps.shape.pool pf
  have valid {w : Nat} (h : v ≤ w) (h' : w < v + n) : m'.Valid dirs (.page (m.base pf) w) :=
    maps.shape.valid.mpr (addr w h h').valid
  have frames : FramesIn m' pf (m.base pf) v n := by
    intro w h h'
    obtain ⟨f, hf, -⟩ := maps.new w h h'
    have hin : m'.InPool f pf := by
      have suits := maps.ordered.suits _ f (valid h h') hf
      rw [← maps.toKeeps.base] at suits
      exact (maps.ordered.suits_addr (maps.toKeeps.addr.mpr (addr w h h'))).mp suits
    exact ⟨f, hf, maps.ordered.layout.has_of_taken (maps.ordered.taken (valid h h') hf) hin⟩
  constructor
  · intro has
    by_contra hno
    rw [not_or] at hno
    -- the bit of `g` would be one bit too many
    have sub : insert (g - (m.pool pf).phyAddrStart)
        (m'.frameBits pf (m.base pf) v n ∪ (m'.pool pf).freeBits) ⊆ (m.pool pf).freeBits := by
      intro i hi
      rw [Pool.mem_freeBits]
      rcases Finset.mem_insert.mp hi with rfl | hi
      · obtain ⟨low, high⟩ := has_lt has
        rw [start] at low high
        rw [size] at high
        rw [Nat.add_sub_cancel' low]
        exact ⟨by omega, hno.1⟩
      rcases Finset.mem_union.mp hi with hi | hi
      · obtain ⟨w, h, h', hf⟩ := frames.mem_frameBits.mp hi
        obtain ⟨f, hf', notTaken⟩ := maps.new w h h'
        obtain ⟨f'', hf'', hasf⟩ := frames w h h'
        obtain rfl := Option.some.inj (hf'.symm.trans hf'')
        obtain rfl := Option.some.inj (hf'.symm.trans hf)
        have high := (has_lt hasf).2
        rw [size] at high
        rw [start] at notTaken
        refine ⟨by omega, ?_⟩
        intro hc
        exact notTaken ((SeekingOs.has_iff ord.layout).mp hc).1
      · rw [Pool.mem_freeBits, start, size] at hi
        exact ⟨hi.1, fun hc => hi.2 (maps.has_of_has ord hc)⟩
    have apart : Disjoint (m'.frameBits pf (m.base pf) v n) (m'.pool pf).freeBits := by
      rw [Finset.disjoint_left]
      intro i hi hfree
      obtain ⟨w, h, h', hf⟩ := frames.mem_frameBits.mp hi
      obtain ⟨f, hf', hasf⟩ := frames w h h'
      obtain rfl := Option.some.inj (hf'.symm.trans hf)
      exact (Pool.mem_freeBits.mp hfree).2 hasf
    have new : g - (m.pool pf).phyAddrStart ∉
        m'.frameBits pf (m.base pf) v n ∪ (m'.pool pf).freeBits := by
      have low := has.1
      rw [Finset.mem_union, not_or, frames.mem_frameBits, Pool.mem_freeBits, ← start,
        Nat.add_sub_cancel' low]
      exact ⟨hno.2, fun hc => hc.2 has⟩
    have card := Finset.card_le_card sub
    rw [Finset.card_insert_of_notMem new, Finset.card_union_of_disjoint apart,
      frames.card maps.ordered fun w h h' => valid h h'] at card
    have spent : (m.pool pf).freeBits.card ≤ (m'.pool pf).freeBits.card + n := maps.spent pf
    omega
  · rintro (has | ⟨w, h, h', hf⟩)
    · exact maps.has_of_has ord has
    · obtain ⟨f, hf', hasf⟩ := frames w h h'
      obtain rfl := Option.some.inj (hf'.symm.trans hf)
      exact hasf

/-! ## Words of pages -/

/-- A word of the running address space; addresses are counted in words. -/
def word (m : Memory) (a : Nat) : Option Nat :=
  (m.pageAt m.cr3 (a / 1024)).map fun f => m.ram f (a % 1024)

/-- Words are written, one after another. -/
def putWords (m : Memory) (func : String) (words : Nat → Nat) : List Nat → Except Fault Memory
  | [] => .ok m
  | a :: as => do
    let m ← m.write func (a / 1024, a % 1024) (words a)
    putWords m func words as

theorem word_eq (h : m.pageAt m.cr3 (a / 1024) = some f) :
    m.word a = some (m.ram f (a % 1024)) := by
  unfold word
  rw [h]
  rfl

/-- A page that is where it was, with the words that it had. -/
theorem word_same (page : m'.pageAt m'.cr3 (a / 1024) = m.pageAt m.cr3 (a / 1024))
    (words : ∀ f, m.pageAt m.cr3 (a / 1024) = some f → m'.ram f = m.ram f) :
    m'.word a = m.word a := by
  unfold word
  rw [page]
  cases h : m.pageAt m.cr3 (a / 1024) with
  | none => rfl
  | some f => rw [Option.map_some, Option.map_some, words f h]

/-! ## The calls for pages -/

/-- What `malloc_page` does when it answers an address. -/
structure Allotted (m m' : Memory) (dirs : List Nat) (pf : PoolFlags) (v n : Nat) : Prop where
  agrees : m'.Agrees dirs
  shape : SameShape m m'
  cr3 : m'.cr3 = m.cr3
  hands : m.HandsOut dirs pf v n m'
  maps : ∃ i, v = vaddrStart pf + i ∧ Maps (m.reserve i true n pf) m' dirs (m.base pf) v n

theorem mallocPage_allotted (ag : m.Agrees dirs) (user : pf = .user → m.cr3 ∈ dirs)
    (h : m.mallocPage pf n = .ok (some v, m')) : Allotted m m' dirs pf v n := by
  rcases mallocPage_ok ag user h with ⟨hno, -⟩ | ⟨i, hv, first, maps⟩
  · cases hno
  cases hv
  obtain ⟨agrees, hands⟩ := mallocPage_agrees ag user first.free maps
  exact ⟨agrees, reserve_shape.trans maps.shape, maps.cr3.trans reserve_cr3, hands, i, rfl, maps⟩

/-- Pages that are there keep their words. -/
theorem Allotted.content (al : Allotted m m' dirs pf v n) (hw : m.Valid dirs (.page o w))
    (hf : m.pageAt o w = some f) (notDir : f ∉ dirs) : m'.ram f = m.ram f := by
  obtain ⟨i, -, maps⟩ := al.maps
  refine (maps.content o w f (reserve_shape.valid.mpr hw) ?_ notDir).trans ?_
  · rw [← hf]
    exact reserve_frameIn (p := .page _ _)
  · cases pf <;> rfl

/-- The new pages have frames that were free. -/
theorem Allotted.new (al : Allotted m m' dirs pf v n) (h : v ≤ w) (h' : w < v + n) :
    ∃ f, m'.pageAt (m'.base pf) w = some f ∧ ¬ m.Taken f := by
  obtain ⟨i, -, maps⟩ := al.maps
  obtain ⟨f, hf, free⟩ := maps.new w h h'
  rw [base_same al.cr3]
  refine ⟨f, hf, fun taken => free ?_⟩
  cases pf <;> exact taken

/-- And these are all that the pool has lost. -/
theorem Allotted.has_iff (al : Allotted m m' dirs pf v n) (ag : m.Agrees dirs) :
    (m'.pool pf).Has g ↔ (m.pool pf).Has g ∨ ∃ w, v ≤ w ∧ w < v + n ∧
      m'.pageAt (m'.base pf) w = some g := by
  obtain ⟨i, -, maps⟩ := al.maps
  have addr (w : Nat) (h : v ≤ w) (h' : w < v + n) : (m.reserve i true n pf).Addr dirs pf w := by
    have here := ag.addr (al.hands.heap w h h')
    cases pf with
    | kernel =>
      unfold Addr at here ⊢
      rwa [reserve_shape.heap]
    | user => exact here
  have same : (m.reserve i true n pf).base pf = m.base pf := reserve_base
  have spends :=
    @Maps.has_iff (m.reserve i true n pf) m' dirs v g n pf (same.symm ▸ maps)
      (reserve_ordered ag.ordered) addr
  rw [same, ← base_same al.cr3] at spends
  rw [spends]
  cases pf <;> exact Iff.rfl

/-- What `mfree_page` does. -/
structure Released (m m' : Memory) (dirs : List Nat) (pf : PoolFlags) (v n : Nat) : Prop where
  agrees : m'.Agrees dirs
  shape : SameShape m m'
  cr3 : m'.cr3 = m.cr3
  back : m.TakesBack dirs v n m'
  unmaps : ∃ m₁, Unmaps m m₁ dirs (m.base pf) v n ∧ m' = m₁.reserve (v - vaddrStart pf) false n pf

theorem mfreePage_released (ag : m.Agrees dirs) (hn : 0 < n)
    (heap : ∀ w, v ≤ w → w < v + n → m.Heap dirs pf w)
    (mapped : ∀ w, v ≤ w → w < v + n → ∃ f, m.pageAt (m.base pf) w = some f ∧ f ∉ dirs) :
    ∃ m', m.mfreePage pf v n = .ok m' ∧ Released m m' dirs pf v n := by
  obtain ⟨m₁, unmaps, hcall⟩ := mfreePage_total ag hn heap mapped
  obtain ⟨agrees, back⟩ := mfreePage_agrees ag hn heap unmaps
  exact ⟨_, hcall, agrees, unmaps.shape.trans reserve_shape, reserve_cr3.trans unmaps.cr3, back,
    m₁, unmaps, rfl⟩

/-- Pages keep their words. -/
theorem Released.content (re : Released m m' dirs pf v n) (ag : m.Agrees dirs)
    (hw : m.Valid dirs (.page o w)) (hf : m.pageAt o w = some f) : m'.ram f = m.ram f := by
  obtain ⟨m₁, unmaps, rfl⟩ := re.unmaps
  refine Eq.trans ?_ (unmaps.words f fun d i ht => ag.ordered.page_not_table hw hf ht)
  cases pf <;> rfl

/-! ## The pages that a heap has -/

/-- THE PAGES `R` BELONG to the heap: their bits are set, and none of them holds a directory. -/
structure Owns (m : Memory) (dirs : List Nat) (pf : PoolFlags) (R : Nat → Prop) : Prop where
  agrees : m.Agrees dirs
  user : pf = .user → m.cr3 ∈ dirs
  heap : ∀ w, R w → m.Heap dirs pf w
  used : ∀ w, R w → m.bit pf w = true
  notDir : ∀ w, R w → ∀ d ∈ dirs, m.pageAt (m.base pf) w ≠ some d

theorem Owns.mono (own : Owns m dirs pf R) (h : ∀ w, S w → R w) : Owns m dirs pf S :=
  ⟨own.agrees, own.user, fun w hw => own.heap w (h w hw), fun w hw => own.used w (h w hw),
    fun w hw => own.notDir w (h w hw)⟩

/-- A page of the heap is there. -/
theorem Owns.there (own : Owns m dirs pf R) (h : R w) :
    ∃ f, m.pageAt (m.base pf) w = some f ∧ f ∉ dirs := by
  obtain ⟨f, hf⟩ :=
    Option.isSome_iff_exists.mp ((own.agrees.bits pf w (own.heap w h)).mp (own.used w h))
  exact ⟨f, hf, fun hd => own.notDir w h f hd hf⟩

theorem Owns.pageAt (own : Owns m dirs pf R) (h : R w) :
    ∃ f, m.pageAt m.cr3 w = some f ∧ m.pageAt (m.base pf) w = some f ∧ f ∉ dirs := by
  obtain ⟨f, hf, notDir⟩ := own.there h
  exact ⟨f, (heap_pageAt own.agrees (own.heap w h)).trans hf, hf, notDir⟩

/-- And may be looked at. -/
theorem Owns.readPage (own : Owns m dirs pf R) (h : R w) (func : String) :
    ∃ words, m.readPage func w = .ok words := by
  obtain ⟨f, hf, -⟩ := own.there h
  exact ⟨_, own.agrees.ordered.readPage_eq own.agrees.run (own.agrees.addr (own.heap w h)) hf⟩

/-- Different pages have different frames. -/
theorem Owns.apart (own : Owns m dirs pf R) (hv : R v) (hw : R w) (hf : m.pageAt m.cr3 v = some f)
    (hg : m.pageAt m.cr3 w = some f) :
    v = w := (agreement own.agrees).distinct pf pf v w f (own.heap v hv) (own.heap w hw) hf hg

/-- The frames of these pages. -/
def Frames (m : Memory) (pf : PoolFlags) (R : Nat → Prop) (g : Nat) : Prop :=
  ∃ w, R w ∧ m.pageAt (m.base pf) w = some g

/-- Writing to pages moves none. -/
theorem Owns.writes {T : Nat → Prop} (own : Owns m dirs pf R) (wr : Writes m m' dirs T) :
    Owns m' dirs pf R where
  agrees := own.agrees.writes wr
  user h := wr.cr3 ▸ own.user h
  heap w h := (heap_same wr.shape wr.cr3).mpr (own.heap w h)
  used w h := by
    rw [bit_same wr.kernelVaddr wr.userVaddr]
    exact own.used w h
  notDir w h d hd := by
    rw [wr.base, show m'.pageAt (m.base pf) w = _ from
      wr.frames _ (own.agrees.addr (own.heap w h)).valid]
    exact own.notDir w h d hd

theorem Owns.writes_pageAt {T : Nat → Prop} (own : Owns m dirs pf R)
    (wr : Writes m m' dirs T) (h : R w) : m'.pageAt m'.cr3 w = m.pageAt m.cr3 w := by
  have own' := own.writes wr
  rw [heap_pageAt own'.agrees (own'.heap w h), heap_pageAt own.agrees (own.heap w h), wr.base]
  exact wr.frames _ (own.agrees.addr (own.heap w h)).valid

/-- `malloc_page` hands out pages that were not used. -/
theorem Owns.mallocPage (own : Owns m dirs pf R) (h : m.mallocPage pf n = .ok (some v, m')) :
    Owns m' dirs pf (fun w => R w ∨ v ≤ w ∧ w < v + n) ∧ (∀ w, v ≤ w → w < v + n → ¬ R w) ∧
      ∀ a, R (a / 1024) → m'.word a = m.word a := by
  have ag := own.agrees
  have al := mallocPage_allotted ag own.user h
  have heap {w : Nat} : m'.Heap dirs pf w ↔ m.Heap dirs pf w := heap_same al.shape al.cr3
  have newNot (w : Nat) (h : v ≤ w) (h' : w < v + n) : ¬ R w := by
    intro hR
    have set := own.used w hR
    rw [(al.hands.unused w h h').1] at set
    cases set
  have others {w : Nat} (h : R w) :=
    al.hands.others pf w (own.heap w h) fun hc => newNot w hc.1 hc.2 h
  refine ⟨⟨al.agrees, fun h => al.cr3 ▸ own.user h, fun w h => ?_, fun w h => ?_, fun w h d hd =>
    ?_⟩, newNot, fun a h => ?_⟩
  · exact heap.mpr (h.elim (own.heap w) fun h => al.hands.heap w h.1 h.2)
  · rcases h with h | ⟨h, h'⟩
    · exact (others h).1.trans (own.used w h)
    · exact (al.hands.used w h h').1
  · rcases h with h | ⟨h, h'⟩
    · rw [← heap_pageAt al.agrees (heap.mpr (own.heap w h)), (others h).2,
        heap_pageAt ag (own.heap w h)]
      exact own.notDir w h d hd
    · intro held
      obtain ⟨f, hf, free⟩ := al.new h h'
      obtain rfl := Option.some.inj (hf.symm.trans held)
      obtain ⟨q, hq, hqd, -⟩ := ag.ordered.heldDir (.inr hd)
      exact free (ag.ordered.taken hq hqd)
  · have hw := own.heap _ h
    refine word_same (others h).2 fun f hf => ?_
    rw [heap_pageAt ag hw] at hf
    exact al.content (ag.addr hw).valid hf fun hd => own.notDir _ h f hd hf

/-- `mfree_page` takes back pages of the heap. -/
theorem Owns.mfreePage (own : Owns m dirs pf R) (hn : 0 < n)
    (range : ∀ w, v ≤ w → w < v + n → R w) :
    ∃ m', m.mfreePage pf v n = .ok m' ∧ Released m m' dirs pf v n ∧
      Owns m' dirs pf (fun w => R w ∧ ¬ (v ≤ w ∧ w < v + n)) ∧
      ∀ a, R (a / 1024) → ¬ (v ≤ a / 1024 ∧ a / 1024 < v + n) → m'.word a = m.word a := by
  have ag := own.agrees
  obtain ⟨m', hcall, re⟩ :=
    mfreePage_released ag hn (fun w h h' => own.heap w (range w h h')) fun w h h' =>
      own.there (range w h h')
  have heap {w : Nat} : m'.Heap dirs pf w ↔ m.Heap dirs pf w := heap_same re.shape re.cr3
  have entry {w : Nat} (h : R w) (hno : ¬ (v ≤ w ∧ w < v + n)) :
      m'.pageAt m'.cr3 w = m.pageAt m.cr3 w :=
    (re.back.entries pf w (own.heap w h)).trans (if_neg hno)
  refine ⟨m', hcall, re, ⟨re.agrees, fun h => re.cr3 ▸ own.user h,
    fun w h => heap.mpr (own.heap w h.1), fun w h => ?_, fun w h d hd => ?_⟩,
    fun a h hno => ?_⟩
  · rw [re.back.bits pf w (own.heap w h.1), if_neg h.2]
    exact own.used w h.1
  · rw [← heap_pageAt re.agrees (heap.mpr (own.heap w h.1)), entry h.1 h.2,
      heap_pageAt ag (own.heap w h.1)]
    exact own.notDir w h.1 d hd
  · have hw := own.heap _ h
    refine word_same (entry h hno) fun f hf => ?_
    rw [heap_pageAt ag hw] at hf
    exact re.content ag (ag.addr hw).valid hf

/-- `memset` clears pages of the heap, and no words of others. -/
theorem Owns.clearPages (own : Owns m dirs pf R) (func : String)
    (range : ∀ w, v ≤ w → w < v + n → R w) :
    ∃ m', m.clearPages func v n = .ok m' ∧ Writes m m' dirs (m.Frames pf R) ∧
      ∀ a, R (a / 1024) → m'.word a = if v ≤ a / 1024 ∧ a / 1024 < v + n then some 0
        else m.word a := by
  have ag := own.agrees
  obtain ⟨m', hclear, wr, zero⟩ :=
    clearPages_total func ag.ordered ag.run (fun w h h' => ag.addr (own.heap w (range w h h')))
      fun w h h' =>
    own.there (range w h h')
  refine ⟨m', hclear, wr.mono ?_, fun a ha => ?_⟩
  · rintro g ⟨w, h, h', hg⟩
    exact ⟨w, range w h h', hg⟩
  obtain ⟨f, hf, held, -⟩ := own.pageAt ha
  have page := own.writes_pageAt wr ha
  split
  next hin =>
    rw [word_eq (page.trans hf), zero _ f hin.1 hin.2 held]
  next hout =>
    refine word_same page fun f' hf' => wr.words f' ?_
    rintro ⟨w, h, h', hw⟩
    have hR := range w h h'
    rw [← heap_pageAt ag (own.heap w hR)] at hw
    obtain rfl := own.apart hR ha hw hf'
    exact hout ⟨h, h'⟩

/-- One word is written. -/
theorem Owns.write (own : Owns m dirs pf R) (func : String) (ha : R (a / 1024)) (x : Nat) :
    ∃ m', m.write func (a / 1024, a % 1024) x = .ok m' ∧ Writes m m' dirs (m.Frames pf R) ∧
      ∀ b, R (b / 1024) → m'.word b = if b = a then some x else m.word b := by
  have ag := own.agrees
  obtain ⟨f, hf, held, notDir⟩ := own.pageAt ha
  have wr : Writes m (m.poke f (a % 1024) x) dirs (· = f) :=
    ag.ordered.fill (ag.addr (own.heap _ ha)).valid held notDir _
  refine ⟨m.poke f (a % 1024) x, ?_, wr.mono ?_, fun b hb => ?_⟩
  · unfold Memory.write
    dsimp only
    rw [hf]
  · rintro g rfl
    exact ⟨_, ha, held⟩
  · obtain ⟨g, hg, -⟩ := own.pageAt hb
    have ram : (m.poke f (a % 1024) x).ram g (b % 1024) = if b = a then x
        else m.ram g (b % 1024) := by
      show Function.update m.ram f (Function.update (m.ram f) (a % 1024) x) g (b % 1024) = _
      by_cases hgf : g = f
      · subst hgf
        have page := own.apart hb ha hg hf
        rw [Function.update_self]
        by_cases hba : b = a
        · rw [if_pos hba, hba, Function.update_self]
        · rw [if_neg hba, Function.update_of_ne]
          omega
      · rw [Function.update_of_ne hgf, if_neg]
        rintro rfl
        exact hgf (Option.some.inj (hg.symm.trans hf))
    rw [word_eq ((own.writes_pageAt wr hb).trans hg), ram, word_eq hg]
    split <;> rfl

/-- The frames of the pages are the same after a write. -/
theorem Owns.frames_same {T : Nat → Prop} (own : Owns m dirs pf R) (wr : Writes m m' dirs T)
    (h : m'.Frames pf R g) : m.Frames pf R g := by
  obtain ⟨w, hw, hg⟩ := h
  rw [wr.base, show m'.pageAt (m.base pf) w = _ from
    wr.frames _ (own.agrees.addr (own.heap w hw)).valid] at hg
  exact ⟨w, hw, hg⟩

/-- WORDS ARE WRITTEN to pages of the heap, each of them where it is to be. -/
theorem Owns.putWords (own : Owns m dirs pf R) (func : String) (words : Nat → Nat) (as : List Nat)
    (h : ∀ a ∈ as, R (a / 1024)) :
    ∃ m', m.putWords func words as = .ok m' ∧ Writes m m' dirs (m.Frames pf R) ∧
      ∀ b, R (b / 1024) → m'.word b = if b ∈ as then some (words b) else m.word b := by
  induction as generalizing m with
  | nil => exact ⟨m, rfl, Writes.refl own.agrees.ordered, fun b _ => (if_neg List.not_mem_nil).symm⟩
  | cons a as ih =>
    obtain ⟨m₁, hwrite, wr, first⟩ := own.write func (h a List.mem_cons_self) (words a)
    obtain ⟨m', hput, wr', rest⟩ := ih (own.writes wr) fun b hb => h b (List.mem_cons_of_mem a hb)
    refine ⟨m', ?_, (wr.trans wr').mono ?_, fun b hb => ?_⟩
    · unfold Memory.putWords
      rw [hwrite, ok_bind]
      exact hput
    · rintro g (hg | hg)
      · exact hg
      · exact own.frames_same wr hg
    · rw [rest b hb, first b hb]
      by_cases hmem : b ∈ as
      · rw [if_pos hmem, if_pos (List.mem_cons_of_mem a hmem)]
      · rw [if_neg hmem]
        by_cases hba : b = a
        · rw [if_pos hba, if_pos (hba ▸ List.mem_cons_self), hba]
        · rw [if_neg hba, if_neg]
          rw [List.mem_cons, not_or]
          exact ⟨hba, hmem⟩

/-! ## What the calls keep -/

/-- A PROPERTY OF A HEAP'S PAGES that the calls for pages keep, and writes to them. -/
structure Keeper (dirs : List Nat) (pf : PoolFlags) (P : Memory → (Nat → Prop) → Prop) : Prop where
  owns : ∀ {m R}, P m R → m.Owns dirs pf R
  writes : ∀ {m m' R}, P m R → Writes m m' dirs (m.Frames pf R) → P m' R
  mallocPage : ∀ {m m' R n v}, P m R → m.mallocPage pf n = .ok (some v, m') → P m' fun w => R w ∨
    v ≤ w ∧ w < v + n
  mfreePage : ∀ {m m' R n v}, P m R → 0 < n → (∀ w, v ≤ w → w < v + n → R w) →
    m.mfreePage pf v n = .ok m' →
    P m' fun w => R w ∧ ¬ (v ≤ w ∧ w < v + n)

/-- THE PAGES `R` ARE HANDED OUT since `m₀`: their bits, entries and frames are what the pool has
lost. -/
structure HandedOut (m₀ : Memory) (dirs : List Nat) (pf : PoolFlags) (m : Memory) (R : Nat → Prop) :
    Prop extends Owns m dirs pf R where
  shape : SameShape m₀ m
  cr3 : m.cr3 = m₀.cr3
  unused : ∀ w, R w → m₀.bit pf w = false
  bits : ∀ w, m.Heap dirs pf w → (m.bit pf w = true ↔ m₀.bit pf w = true ∨ R w)
  frames : ∀ g, (m.pool pf).Has g ↔ (m₀.pool pf).Has g ∨ ∃ w, R w ∧ m.pageAt (m.base pf) w = some g
  spare : ∀ w g, R w → m.pageAt (m.base pf) w = some g → ¬ (m₀.pool pf).Has g

theorem HandedOut.start (ag : m.Agrees dirs) (user : pf = .user → m.cr3 ∈ dirs)
    (none : ∀ w, ¬ R w) : HandedOut m dirs pf m R where
  agrees := ag
  user := user
  heap w h := (none w h).elim
  used w h := (none w h).elim
  notDir w h := (none w h).elim
  shape := SameShape.refl m
  cr3 := rfl
  unused w h := (none w h).elim
  bits w _ := (or_iff_left (none w)).symm
  frames g := by
    rw [or_iff_left]
    rintro ⟨w, h, -⟩
    exact none w h
  spare w _ h := (none w h).elim

theorem HandedOut.writes {T : Nat → Prop} (out : HandedOut m₀ dirs pf m R)
    (wr : Writes m m' dirs T) : HandedOut m₀ dirs pf m' R := by
  have page {w : Nat} (h : R w) : m'.pageAt (m'.base pf) w = m.pageAt (m.base pf) w := by
    rw [wr.base]
    exact wr.frames _ (out.agrees.addr (out.heap w h)).valid
  refine
    { toOwns := out.toOwns.writes wr, shape := out.shape.trans wr.shape,
      cr3 := wr.cr3.trans out.cr3, unused := out.unused,
      bits := fun w h => ?_, frames := fun g => ?_, spare := fun w g h hg => ?_ }
  · rw [bit_same wr.kernelVaddr wr.userVaddr]
    exact out.bits w ((heap_same wr.shape wr.cr3).mp h)
  · rw [wr.pool, out.frames]
    apply or_congr_right
    apply exists_congr
    intro w
    apply and_congr_right
    intro h
    rw [page h]
  · rw [page h] at hg
    exact out.spare w g h hg

theorem HandedOut.mallocPage (out : HandedOut m₀ dirs pf m R)
    (h : m.mallocPage pf n = .ok (some v, m')) :
    HandedOut m₀ dirs pf m' fun w => R w ∨ v ≤ w ∧ w < v + n := by
  have ag := out.agrees
  have al := mallocPage_allotted ag out.user h
  obtain ⟨own, newNot, -⟩ := out.toOwns.mallocPage h
  have heap {w : Nat} : m'.Heap dirs pf w ↔ m.Heap dirs pf w := heap_same al.shape al.cr3
  have same {w : Nat} (h : R w) : m'.pageAt (m'.base pf) w = m.pageAt (m.base pf) w := by
    have hw := out.heap w h
    rw [← heap_pageAt al.agrees (heap.mpr hw), ← heap_pageAt ag hw]
    exact (al.hands.others pf w hw fun hc => newNot w hc.1 hc.2 h).2
  refine
    { toOwns := own, shape := out.shape.trans al.shape, cr3 := al.cr3.trans out.cr3,
      unused := fun w h => ?_, bits := fun w h => ?_,
      frames := fun g => ?_, spare := fun w g h hg => ?_ }
  · rcases h with h | ⟨h, h'⟩
    · exact out.unused w h
    · by_contra hset
      have set := (out.bits w (al.hands.heap w h h')).mpr (.inl (Bool.not_eq_false _ ▸ hset))
      rw [(al.hands.unused w h h').1] at set
      cases set
  · have hw := heap.mp h
    by_cases hin : v ≤ w ∧ w < v + n
    · exact iff_of_true (al.hands.used w hin.1 hin.2).1 (.inr (.inr hin))
    · rw [(al.hands.others pf w hw hin).1, out.bits w hw, or_iff_left hin]
  · rw [al.has_iff ag, out.frames, or_assoc]
    apply or_congr_right
    constructor
    · rintro (⟨w, h, hg⟩ | ⟨w, h, h', hg⟩)
      · exact ⟨w, .inl h, (same h).trans hg⟩
      · exact ⟨w, .inr ⟨h, h'⟩, hg⟩
    · rintro ⟨w, h | ⟨h, h'⟩, hg⟩
      · exact .inl ⟨w, h, (same h).symm.trans hg⟩
      · exact .inr ⟨w, h, h', hg⟩
  · rcases h with h | ⟨h, h'⟩
    · rw [same h] at hg
      exact out.spare w g h hg
    · intro has
      obtain ⟨f, hf, free⟩ := al.new h h'
      obtain rfl := Option.some.inj (hf.symm.trans hg)
      exact free ((SeekingOs.has_iff ag.ordered.layout).mp ((out.frames f).mpr (.inl has))).1

theorem HandedOut.released (out : HandedOut m₀ dirs pf m R)
    (own : Owns m' dirs pf fun w => R w ∧ ¬ (v ≤ w ∧ w < v + n))
    (range : ∀ w, v ≤ w → w < v + n → R w) (re : Released m m' dirs pf v n) :
    HandedOut m₀ dirs pf m' fun w => R w ∧ ¬ (v ≤ w ∧ w < v + n) := by
  have ag := out.agrees
  have heap {w : Nat} : m'.Heap dirs pf w ↔ m.Heap dirs pf w := heap_same re.shape re.cr3
  have same {w : Nat} (h : R w) (hno : ¬ (v ≤ w ∧ w < v + n)) : m'.pageAt (m'.base pf) w =
      m.pageAt (m.base pf) w := by
    have hw := out.heap w h
    rw [← heap_pageAt re.agrees (heap.mpr hw), re.back.entries pf w hw, if_neg hno,
      heap_pageAt ag hw]
  refine
    { toOwns := own, shape := out.shape.trans re.shape, cr3 := re.cr3.trans out.cr3,
      unused := fun w h => out.unused w h.1,
      bits := fun w h => ?_, frames := fun g => ?_, spare := fun w g h hg => ?_ }
  · have hw := heap.mp h
    rw [re.back.bits pf w hw]
    by_cases hin : v ≤ w ∧ w < v + n
    · rw [if_pos hin]
      refine iff_of_false Bool.false_ne_true ?_
      rintro (hset | h)
      · rw [out.unused w (range w hin.1 hin.2)] at hset
        cases hset
      · exact h.2 hin
    · rw [if_neg hin, out.bits w hw, and_iff_left hin]
  · rw [re.back.frames, out.frames]
    constructor
    · rintro ⟨has | ⟨w, h, hg⟩, hno⟩
      · exact .inl has
      · have hout : ¬ (v ≤ w ∧ w < v + n) :=
          fun hin => hno ⟨w, hin.1, hin.2, (heap_pageAt ag (out.heap w h)).trans hg⟩
        exact .inr ⟨w, ⟨h, hout⟩, (same h hout).trans hg⟩
    · rintro (has | ⟨w, ⟨h, hout⟩, hg⟩)
      · refine ⟨.inl has, ?_⟩
        rintro ⟨w, h, h', hg⟩
        rw [heap_pageAt ag (out.heap w (range w h h'))] at hg
        exact out.spare w g (range w h h') hg has
      · rw [same h hout] at hg
        refine ⟨.inr ⟨w, h, hg⟩, ?_⟩
        rintro ⟨w', h', h'', hg'⟩
        have hw := out.heap w h
        rw [← heap_pageAt ag hw] at hg
        obtain rfl := out.apart h (range w' h' h'') hg hg'
        exact hout ⟨h', h''⟩
  · rw [same h.1 h.2] at hg
    exact out.spare w g h.1 hg

/-- So the books of one heap are such a property. -/
theorem handedOut_keeper (m₀ : Memory) (dirs : List Nat) (pf : PoolFlags) :
    Keeper dirs pf (HandedOut m₀ dirs pf) where
  owns out := out.toOwns
  writes out wr := out.writes wr
  mallocPage out h := out.mallocPage h
  mfreePage out hn range h := by
    obtain ⟨m', hcall, re, own, -⟩ := out.toOwns.mfreePage hn range
    obtain rfl := Except.ok.inj (hcall.symm.trans h)
    exact out.released own range re

/-- When nothing is handed out any more, the bitmaps of the pool are as they were at the start. -/
theorem HandedOut.back (out : HandedOut m₀ dirs pf m R) (none : ∀ w, ¬ R w) :
    m.vaddrBitmap pf = m₀.vaddrBitmap pf ∧ (m.pool pf).poolBitmap = (m₀.pool pf).poolBitmap := by
  obtain ⟨start, size⟩ := out.shape.pool pf
  have addresses : (m.vaddrBitmap pf).size = (m₀.vaddrBitmap pf).size := by
    cases pf with
    | kernel => exact out.shape.heap
    | user => exact out.shape.user
  constructor
  · refine Bitmap.ext_test (Nat.eq_of_mul_eq_mul_left (by decide) addresses) fun i hi => ?_
    have heap : m.Heap dirs pf (vaddrStart pf + i) := ⟨by omega, by omega, out.user⟩
    have iff := out.bits _ heap
    rw [or_iff_left (none _)] at iff
    unfold bit at iff
    rw [Nat.add_sub_cancel_left] at iff
    exact Bool.eq_iff_iff.mpr iff
  · refine Bitmap.ext_test (Nat.eq_of_mul_eq_mul_left (by decide) size) fun i _ => ?_
    have iff := out.frames ((m.pool pf).phyAddrStart + i)
    rw [or_iff_left fun h => h.elim fun w hw => none w hw.1, has_index, start, has_index] at iff
    exact Bool.eq_iff_iff.mpr iff

end Memory

end SeekingOs
