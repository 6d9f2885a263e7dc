import SeekingOs.Kernel.PageRuns

/-!
# Pages of the kernel

What a write to a page leaves as it was, and what follows for `get_kernel_pages`: its pages were
unused, are cleared, and nothing else has changed.
-/

namespace SeekingOs

open Lib

namespace Memory

variable {m m' m₁ : Memory} {dirs : List Nat} {p q : Place} {c d i j o v w f g t n k : Nat}
  {pf : PoolFlags} {S T : Nat → Prop}
  {func : String}

/-! ## Writing a page -/

/-- Frames of `S` have been written, and no directory or table is among them. -/
structure Writes (m m' : Memory) (dirs : List Nat) (S : Nat → Prop) : Prop where
  ordered : m'.Ordered dirs
  rest : m' = { m with ram := m'.ram }
  frames : ∀ p, m.Valid dirs p → m'.frameIn p = m.frameIn p
  words : ∀ g, ¬ S g → m'.ram g = m.ram g

theorem Writes.shape (wr : Writes m m' dirs S) : SameShape m m' := by
  rw [wr.rest]
  exact ⟨rfl, rfl, rfl, rfl, rfl, rfl⟩

theorem Writes.cr3 (wr : Writes m m' dirs S) : m'.cr3 = m.cr3 := by rw [wr.rest]

theorem Writes.kernelVaddr (wr : Writes m m' dirs S) :
    m'.kernelVaddr = m.kernelVaddr := by rw [wr.rest]

theorem Writes.userVaddr (wr : Writes m m' dirs S) : m'.userVaddr = m.userVaddr := by rw [wr.rest]

theorem Writes.taken (wr : Writes m m' dirs S) : m'.Taken g ↔ m.Taken g := by
  rw [wr.rest]
  exact Iff.rfl

theorem Writes.pool (wr : Writes m m' dirs S) : m'.pool pf = m.pool pf := by
  rw [wr.rest]
  cases pf <;> rfl

theorem Writes.refl (ord : m.Ordered dirs) : Writes m m dirs S :=
  ⟨ord, rfl, fun _ _ => rfl, fun _ _ => rfl⟩

theorem Writes.trans (first : Writes m m₁ dirs S) (second : Writes m₁ m' dirs T) :
    Writes m m' dirs fun g => S g ∨ T g where
  ordered := second.ordered
  rest := by rw [second.rest, first.rest]
  frames p hp := (second.frames p (first.shape.valid.mpr hp)).trans (first.frames p hp)
  words g hg := by
    rw [not_or] at hg
    exact (second.words g hg.2).trans (first.words g hg.1)

theorem Writes.mono (wr : Writes m m' dirs S) (h : ∀ g, S g → T g) : Writes m m' dirs T :=
  ⟨wr.ordered, wr.rest, wr.frames, fun g hg => wr.words g fun hs => hg (h g hs)⟩

/-- A page of a process is no directory. -/
theorem Ordered.user_not_dir (ord : m.Ordered dirs) (hd : d ∈ dirs) (hv : v < kernelStart)
    (h : m.pageAt d v = some f) : f ∉ dirs := by
  intro hf
  obtain ⟨w, hw, hw', held⟩ := ord.dirs f hf
  have valid : m.Valid dirs (.page d v) := Or.inl ⟨hd, hv⟩
  have same := ord.inj valid (valid_page_kernel hw hw') h held
  rw [(Place.page.inj same).1] at hd
  exact ord.kernelDir_not_mem hd

/-- A page that is no directory may be written. -/
theorem Ordered.fill (ord : m.Ordered dirs) (hp : m.Valid dirs (.page o v))
    (h : m.pageAt o v = some f) (hf : f ∉ dirs) (words : Nat → Nat) :
    Writes m (m.fill f words) dirs (· = f) := by
  have notDir : ¬ IsDir dirs f := by
    rintro (rfl | hd)
    · exact ord.page_not_kernelDir hp h
    · exact hf hd
  have other {g : Nat} (hg : g ≠ f) : (m.fill f words).ram g = m.ram g :=
    Function.update_of_ne hg _ _
  have frames (q : Place) (hq : m.Valid dirs q) : (m.fill f words).frameIn q = m.frameIn q :=
    ord.frameIn_fill notDir (fun d i ht => ord.page_not_table hp h ht) words hq
  have shape : SameShape m (m.fill f words) := ⟨rfl, rfl, rfl, rfl, rfl, rfl⟩
  refine ⟨?_, rfl, frames, fun g hg => other hg⟩
  refine ord.change shape (fun d hd i _ _ => ?_) ?_
    (fun q g hq hg => .inl ((frames q hq).symm.trans hg)) fun d _ w hw hd =>
    (frames _ hw).trans hd
  · rw [other]
    rintro rfl
    exact notDir hd
  · rw [hold_same shape frames]
    exact ord.books

theorem Ordered.readPage_eq (ord : m.Ordered dirs) (run : IsDir dirs m.cr3)
    (addr : m.Addr dirs pf v) (h : m.pageAt (m.base pf) v = some f) :
    m.readPage func v = .ok (m.ram f) := by
  obtain ⟨-, hi⟩ := ord.layout.valid_table addr.valid
  unfold readPage
  rw [ord.pageAt_owner run hi, addr.owner, h]

theorem Ordered.writePage_eq (ord : m.Ordered dirs) (run : IsDir dirs m.cr3)
    (addr : m.Addr dirs pf v) (h : m.pageAt (m.base pf) v = some f) (words : Nat → Nat) :
    m.writePage func v words = .ok (m.fill f words) := by
  obtain ⟨-, hi⟩ := ord.layout.valid_table addr.valid
  apply writePage_of
  rw [ord.pageAt_owner run hi, addr.owner, h]

theorem Writes.addr (wr : Writes m m' dirs S) : m'.Addr dirs pf w ↔ m.Addr dirs pf w := by
  unfold Addr
  rw [wr.kernelVaddr, wr.cr3]

theorem Writes.base (wr : Writes m m' dirs S) : m'.base pf = m.base pf := base_same wr.cr3

/-- `memset` clears the frames of the pages, and no others. -/
theorem clearPages_total (func : String) (ord : m.Ordered dirs) (run : IsDir dirs m.cr3)
    (addr : ∀ w, v ≤ w → w < v + n → m.Addr dirs pf w)
    (there : ∀ w, v ≤ w → w < v + n → ∃ f, m.pageAt (m.base pf) w = some f ∧ f ∉ dirs) :
    ∃ m', m.clearPages func v n = .ok m' ∧
      Writes m m' dirs (fun g => ∃ w, v ≤ w ∧ w < v + n ∧ m.pageAt (m.base pf) w = some g) ∧
      ∀ w g, v ≤ w → w < v + n → m.pageAt (m.base pf) w = some g → m'.ram g = fun _ => 0 := by
  induction n generalizing m v with
  | zero => exact ⟨m, rfl, Writes.refl ord, fun w _ h h' => absurd h' (Nat.not_lt.mpr h)⟩
  | succ n ih =>
    have here := addr v (Nat.le_refl v) (by omega)
    obtain ⟨f, hf, notDir⟩ := there v (Nat.le_refl v) (by omega)
    have first := ord.fill here.valid hf notDir fun _ => 0
    have same (w : Nat) (h : v ≤ w) (h' : w < v + (n + 1)) :
        (m.fill f fun _ => 0).pageAt (m.base pf) w = m.pageAt (m.base pf) w :=
      first.frames _ (addr w h h').valid
    obtain ⟨m', hclear, second, zero⟩ := ih (v := v + 1) first.ordered (first.cr3 ▸ run)
      (fun w h h' => first.addr.mpr (addr w (by omega) (by omega)))
      (fun w h h' => by
        rw [first.base, same w (by omega) (by omega)]
        exact there w (by omega) (by omega))
    rw [first.base] at second zero
    refine ⟨m', ?_, (first.trans second).mono fun g hg => ?_, fun w g h h' hg => ?_⟩
    · unfold clearPages
      rw [ord.writePage_eq run here hf, ok_bind]
      exact hclear
    · rcases hg with rfl | ⟨w, h, h', hg⟩
      · exact ⟨v, Nat.le_refl v, by omega, hf⟩
      · exact ⟨w, by omega, by omega, (same w (by omega) (by omega)).symm.trans hg⟩
    · -- either a later turn has cleared it, or it is the first frame and was left as it was
      by_cases later : ∃ w', v + 1 ≤ w' ∧ w' < v + 1 + n ∧
        (m.fill f fun _ => 0).pageAt (m.base pf) w' = some g
      · obtain ⟨w', hw, hw', held⟩ := later
        exact zero w' g hw hw' held
      · have hwv : w = v := by
          by_contra hne
          exact later ⟨w, by omega, by omega, (same w h h').trans hg⟩
        subst hwv
        obtain rfl : f = g := Option.some.inj (hf.symm.trans hg)
        rw [second.words f later]
        exact Function.update_self _ _ _

theorem Agrees.writes (ag : m.Agrees dirs) (wr : Writes m m' dirs S) : m'.Agrees dirs where
  ordered := wr.ordered
  run := wr.cr3 ▸ ag.run
  userSize h := by
    rw [wr.userVaddr]
    exact ag.userSize (wr.cr3 ▸ h)
  bits pf w h := by
    rw [heap_same wr.shape wr.cr3] at h
    rw [wr.base, show m'.pageAt (m.base pf) w = _ from wr.frames _ (ag.addr h).valid]
    show m'.bit pf w = true ↔ _
    rw [bit_same wr.kernelVaddr wr.userVaddr]
    exact ag.bits pf w h

/-! ## `get_kernel_pages` -/

/-- Pages `i` to `i + n - 1` of the kernel heap were unused and are there now; no other page has
moved, and those that were there keep their words. -/
structure Gets (m m' : Memory) (dirs : List Nat) (i n : Nat) : Prop where
  agrees : m'.Agrees dirs
  shape : SameShape m m'
  cr3 : m'.cr3 = m.cr3
  first : m.kernelVaddr.FirstRun n i
  kernelVaddr : m'.kernelVaddr = setBits m.kernelVaddr i true n
  userVaddr : m'.userVaddr = m.userVaddr
  fresh : ∀ w, kHeapStart + i ≤ w → w < kHeapStart + i + n → m.pageAt kernelDir w = none
  new : ∀ w, kHeapStart + i ≤ w → w < kHeapStart + i + n →
    ∃ f, m'.pageAt kernelDir w = some f ∧ ¬ m.Taken f
  pages : ∀ d w, m.Valid dirs (.page d w) →
    ¬ (d = kernelDir ∧ kHeapStart + i ≤ w ∧ w < kHeapStart + i + n) → m'.pageAt d w = m.pageAt d w
  content : ∀ d w g, m.Valid dirs (.page d w) → m.pageAt d w = some g → g ∉ dirs →
    m'.ram g = m.ram g
  taken : ∀ g, m.Taken g → m'.Taken g
  spent : ∀ pf, (m.pool pf).freeCount ≤ (m'.pool pf).freeCount + n

/-- A page that is there stays where it is. -/
theorem Gets.stays (gets : Gets m m' dirs i n) (hw : m.Valid dirs (.page d w))
    (h : m.pageAt d w = some g) : m'.pageAt d w = some g := by
  rw [gets.pages d w hw, h]
  rintro ⟨rfl, hle, hlt⟩
  rw [gets.fresh w hle hlt] at h
  cases h

/-- The new pages may be written. -/
theorem Gets.write (gets : Gets m m₁ dirs i n) (ord : m.Ordered dirs) (wr : Writes m₁ m' dirs S)
    (hS : ∀ g, S g → ¬ m.Taken g) : Gets m m' dirs i n := by
  have pages (d w : Nat) (hw : m.Valid dirs (.page d w)) : m'.pageAt d w = m₁.pageAt d w :=
    wr.frames _ (gets.shape.valid.mpr hw)
  refine
    { agrees := gets.agrees.writes wr, shape := gets.shape.trans wr.shape,
      cr3 := wr.cr3.trans gets.cr3, first := gets.first,
      kernelVaddr := wr.kernelVaddr.trans gets.kernelVaddr,
      userVaddr := wr.userVaddr.trans gets.userVaddr, fresh := gets.fresh,
      new := fun w h h' => ?_, pages := fun d w hw out =>
        (pages d w hw).trans (gets.pages d w hw out), content := fun d w g hw hg notDir => ?_,
      taken := fun g hg => wr.taken.mpr (gets.taken g hg), spent := fun pf => ?_ }
  · have low := gets.first.free.1
    rw [pages kernelDir w (valid_page_kernel (by omega) (by omega))]
    exact gets.new w h h'
  · rw [wr.words g fun hs => hS g hs (ord.taken hw hg), gets.content d w g hw hg notDir]
  · rw [wr.pool]
    exact gets.spent pf

theorem mallocPage_gets (ag : m.Agrees dirs) (first : m.kernelVaddr.FirstRun n i)
    (maps : Maps (m.reserve i true n .kernel) m' dirs kernelDir (kHeapStart + i) n) :
    Gets m m' dirs i n := by
  have user : PoolFlags.kernel = .user → m.cr3 ∈ dirs := nofun
  have shape : SameShape m m' := reserve_shape.trans maps.shape
  have pages (d w : Nat) : (m.reserve i true n .kernel).pageAt d w = m.pageAt d w :=
    reserve_frameIn (p := .page d w)
  refine
    { agrees := (mallocPage_agrees ag user first.free maps).1, shape, cr3 := maps.cr3, first,
      kernelVaddr := maps.kernelVaddr,
      userVaddr := maps.userVaddr, fresh := fun w h h' =>
        (pages _ w).symm.trans (maps.fresh w h h'), new := maps.new,
      pages := fun d w hw out => ?_, content := fun d w g hw hg notDir => ?_, taken := maps.taken,
      spent := maps.spent }
  · exact (maps.pages d w (reserve_shape.valid.mpr hw) out).trans (pages d w)
  · exact maps.content d w g (reserve_shape.valid.mpr hw) ((pages d w).trans hg) notDir

/-- What an allocation for the kernel answers, and that it answers an address where there is room.
-/
def GetsAny (m : Memory) (dirs : List Nat) (n : Nat) : Option Nat × Memory → Prop
  | (none, _) => ¬ m.Room .kernel n
  | (some v, m') => ∃ i, v = kHeapStart + i ∧ Gets m m' dirs i n

theorem mallocPage_ensures (ag : m.Agrees dirs) :
    Ensures (fun _ => ¬ m.Room .kernel n) (m.GetsAny dirs n) (m.mallocPage .kernel n) := by
  have user : PoolFlags.kernel = .user → m.cr3 ∈ dirs := nofun
  refine ensures_of (fun r h => ?_) fun room => ?_
  · obtain ⟨r, m'⟩ := r
    rcases mallocPage_ok ag user h with ⟨rfl, -⟩ | ⟨i, rfl, first, maps⟩
    · intro room
      obtain ⟨j, m', -, h'⟩ := mallocPage_total ag user room
      rw [h'] at h
      cases h
    · exact ⟨i, rfl, mallocPage_gets ag first maps⟩
  · obtain ⟨i, m', -, h⟩ := mallocPage_total ag user room
    exact ⟨_, h⟩

/-- The same, with the pages cleared. -/
def GetsClear (m : Memory) (dirs : List Nat) (n : Nat) : Option Nat × Memory → Prop
  | (none, _) => ¬ m.Room .kernel n
  | (some v, m') => ∃ i, v = kHeapStart + i ∧ Gets m m' dirs i n ∧
      ∀ w f, v ≤ w → w < v + n → m'.pageAt kernelDir w = some f → m'.ram f = fun _ => 0

/-- The `memset` of `get_kernel_pages`. -/
theorem Gets.clear (gets : Gets m m₁ dirs i n) (ord : m.Ordered dirs) (func : String) :
    ∃ m', m₁.clearPages func (kHeapStart + i) n = .ok m' ∧
      m.GetsClear dirs n (some (kHeapStart + i), m') := by
  have low : i + n ≤ m₁.kernelVaddr.size := by
    rw [gets.shape.heap]
    exact gets.first.free.1
  have addr (w : Nat) (h : kHeapStart + i ≤ w) (h' : w < kHeapStart + i + n) :
      m₁.Addr dirs .kernel w := ⟨by omega, by omega⟩
  obtain ⟨m', hclear, wr, zero⟩ :=
    clearPages_total func gets.agrees.ordered gets.agrees.run addr fun w h h' => by
      obtain ⟨f, hf, free⟩ := gets.new w h h'
      refine ⟨f, hf, fun hd => free ?_⟩
      obtain ⟨q, hq, held, -⟩ := ord.heldDir (.inr hd)
      exact ord.taken hq held
  have pages (w : Nat) (h : kHeapStart + i ≤ w) (h' : w < kHeapStart + i + n) :
      m'.pageAt kernelDir w = m₁.pageAt kernelDir w :=
    wr.frames _ (valid_page_kernel (by omega) (by omega))
  refine ⟨m', hclear, i, rfl, gets.write ord wr ?_, fun w f h h' hf =>
    zero w f h h' ((pages w h h').symm.trans hf)⟩
  rintro g ⟨w, h, h', hg⟩
  obtain ⟨f, hf, free⟩ := gets.new w h h'
  obtain rfl : f = g := Option.some.inj (hf.symm.trans hg)
  exact free

/-- `get_kernel_pages` hands out cleared pages that were unused. -/
theorem getKernelPages_ensures (ag : m.Agrees dirs) :
    Ensures (fun _ => ¬ m.Room .kernel n) (m.GetsClear dirs n) (m.getKernelPages n) := by
  refine (mallocPage_ensures ag).bind fun r h => ?_
  obtain ⟨r, m₁⟩ := r
  cases r with
  | none => exact h
  | some v =>
    obtain ⟨i, rfl, gets⟩ := h
    obtain ⟨m', hclear, post⟩ := gets.clear ag.ordered "get_kernel_pages"
    show Ensures _ _ (m₁.clearPages "get_kernel_pages" (kHeapStart + i) n >>= _)
    rw [hclear, ok_bind]
    exact post

/-! ## Several calls -/

/-- The pages below the kernel of all processes are where they were, with the words they had. -/
structure Leaves (m m' : Memory) (dirs : List Nat) : Prop where
  pages : ∀ d ∈ dirs, ∀ w < kernelStart, m'.pageAt d w = m.pageAt d w
  words : ∀ d ∈ dirs, ∀ w < kernelStart, ∀ g, m.pageAt d w = some g → m'.ram g = m.ram g

theorem Leaves.trans (first : Leaves m m₁ dirs) (second : Leaves m₁ m' dirs) :
    Leaves m m' dirs where
  pages d hd w hw := (second.pages d hd w hw).trans (first.pages d hd w hw)
  words d hd w hw g h :=
    (second.words d hd w hw g ((first.pages d hd w hw).trans h)).trans (first.words d hd w hw g h)

theorem Gets.leaves (gets : Gets m m' dirs i n) (ord : m.Ordered dirs) : Leaves m m' dirs where
  pages d hd w hw := gets.pages d w (Or.inl ⟨hd, hw⟩) fun h => ord.kernelDir_not_mem (h.1 ▸ hd)
  words d hd w hw g h := gets.content d w g (Or.inl ⟨hd, hw⟩) h (ord.user_not_dir hd hw h)

/-- Pages of the kernel are given back. -/
theorem Unmaps.leaves (un : Unmaps m m' dirs kernelDir v n) (ord : m.Ordered dirs) :
    Leaves m m' dirs where
  pages d hd w hw := un.pages d w (Or.inl ⟨hd, hw⟩) fun h => ord.kernelDir_not_mem (h.1 ▸ hd)
  words d hd w hw g h :=
    un.words g fun _ _ ht => ord.page_not_table (o := d) (v := w) (Or.inl ⟨hd, hw⟩) h ht

theorem reserve_pool {value : Bool} {pf' : PoolFlags} :
    (m.reserve i value n pf).pool pf' = m.pool pf' := by cases pf <;> cases pf' <;> rfl

theorem reserve_leaves {value : Bool} : Leaves m (m.reserve i value n pf) dirs where
  pages d _ w _ := reserve_frameIn (p := .page d w)
  words _ _ _ _ _ _ := by cases pf <;> rfl

/-- The pages of `R` have been added to the kernel heap. -/
structure Grew (m m' : Memory) (dirs : List Nat) (R : Nat → Prop) : Prop where
  agrees : m'.Agrees dirs
  shape : SameShape m m'
  cr3 : m'.cr3 = m.cr3
  userVaddr : m'.userVaddr = m.userVaddr
  unused : ∀ v, R v → m.Heap dirs .kernel v ∧ m.bit .kernel v = false
  bits : ∀ v, kHeapStart ≤ v → (m'.bit .kernel v = true ↔ m.bit .kernel v = true ∨ R v)
  stays : ∀ v g, m.Heap dirs .kernel v → m.pageAt kernelDir v = some g →
    m'.pageAt kernelDir v = some g
  leaves : Leaves m m' dirs

/-- The range of pages that `get_kernel_pages` hands out. -/
def InRange (v n w : Nat) : Prop := v ≤ w ∧ w < v + n

theorem Gets.grew (gets : Gets m m' dirs i n) (ord : m.Ordered dirs) :
    Grew m m' dirs (InRange (kHeapStart + i) n) where
  agrees := gets.agrees
  shape := gets.shape
  cr3 := gets.cr3
  userVaddr := gets.userVaddr
  unused v h := by
    obtain ⟨hle, hlt⟩ := h
    have fits := gets.first.free.1
    exact ⟨heap_kernel.mpr ⟨by omega, by omega⟩,
      gets.first.free.2 (v - kHeapStart) (by omega) (by omega)⟩
  bits v hv := by
    show m'.kernelVaddr.test (v - kHeapStart) = true ↔
      m.kernelVaddr.test (v - kHeapStart) = true ∨ _
    rw [gets.kernelVaddr, test_setBits gets.first.free.1]
    unfold InRange
    by_cases h : i ≤ v - kHeapStart ∧ v - kHeapStart < i + n
    · rw [if_pos h]
      exact iff_of_true rfl (.inr ⟨by omega, by omega⟩)
    · rw [if_neg h, or_iff_left]
      rintro ⟨hle, hlt⟩
      exact h ⟨by omega, by omega⟩
  stays v g hv h := gets.stays (valid_page_kernel hv.1 hv.2.1) h
  leaves := gets.leaves ord

theorem Grew.trans (first : Grew m m₁ dirs S) (second : Grew m₁ m' dirs T) :
    Grew m m' dirs fun v => S v ∨ T v where
  agrees := second.agrees
  shape := first.shape.trans second.shape
  cr3 := second.cr3.trans first.cr3
  userVaddr := second.userVaddr.trans first.userVaddr
  unused v h := by
    rcases h with hs | ht
    · exact first.unused v hs
    · obtain ⟨heap, clear⟩ := second.unused v ht
      refine ⟨(heap_same first.shape first.cr3).mp heap, ?_⟩
      by_contra hc
      rw [(first.bits v heap.1).mpr (.inl (Bool.not_eq_false _ ▸ hc))] at clear
      cases clear
  bits v hv := by rw [second.bits v hv, first.bits v hv, or_assoc]
  stays v g hv h :=
    second.stays v g ((heap_same first.shape first.cr3).mpr hv) (first.stays v g hv h)
  leaves := first.leaves.trans second.leaves

theorem Grew.congr (grew : Grew m m' dirs S) (h : ∀ v, S v ↔ T v) : Grew m m' dirs T := by
  have same : S = T := funext fun v => propext (h v)
  rw [← same]
  exact grew

/-- No page is added twice. -/
theorem Grew.apart (first : Grew m m₁ dirs S) (second : Grew m₁ m' dirs T) (hs : S v) : ¬ T v := by
  intro ht
  obtain ⟨heap, clear⟩ := second.unused v ht
  rw [(first.bits v heap.1).mpr (.inr hs)] at clear
  cases clear

/-- A page that has been added holds no directory. -/
theorem Grew.not_dir (grew : Grew m m' dirs S) (ag : m.Agrees dirs) (hv : S v)
    (h : m'.pageAt kernelDir v = some f) : f ∉ dirs := by
  intro hf
  obtain ⟨w, hw, hw', held⟩ := ag.ordered.dirs f hf
  have heap : m.Heap dirs .kernel w := heap_kernel.mpr ⟨hw, hw'⟩
  obtain ⟨heap', clear⟩ := grew.unused v hv
  have valid {x : Nat} (hx : m.Heap dirs .kernel x) : m'.Valid dirs (.page kernelDir x) :=
    grew.shape.valid.mpr (valid_page_kernel hx.1 hx.2.1)
  have same := grew.agrees.ordered.inj (valid heap') (valid heap) h (grew.stays w f heap held)
  obtain rfl := (Place.page.inj same).2
  have set : m.bit .kernel v = true :=
    (ag.bits .kernel v heap).mpr (by rw [show m.base .kernel = kernelDir from rfl, held]; rfl)
  rw [set] at clear
  cases clear

/-- Addresses for `k` more pages, in one run, and frames for them and for `n` others. -/
structure Spacious (m : Memory) (k n : Nat) : Prop where
  addresses : ∃ t, m.kernelVaddr.FreeRun k t
  frames : ∀ pf, k + n ≤ (m.pool pf).freeCount

theorem Spacious.room (sp : m.Spacious k n) (h : 0 < j) (hk : j ≤ k) (small : j < 3840) :
    m.Room .kernel j where
  count := ⟨h, small⟩
  addresses := by
    obtain ⟨t, free⟩ := sp.addresses
    exact ⟨t, free.mono hk, nofun⟩
  frames := by
    have := sp.frames .kernel
    omega
  tables := nofun

/-- The first run of addresses is taken, so that the rest of a run that was free is free. -/
theorem Gets.spacious (gets : Gets m m' dirs i j) (sp : m.Spacious (j + k) n) :
    m'.Spacious k n := by
  obtain ⟨t, free⟩ := sp.addresses
  have before : i ≤ t := by
    by_contra hc
    exact gets.first.least t (by omega) (free.mono (Nat.le_add_right j k))
  have fits := free.1
  refine ⟨⟨t + j, ?_, fun x h h' => ?_⟩, fun pf => ?_⟩
  · rw [gets.kernelVaddr, size_setBits]
    omega
  · rw [gets.kernelVaddr, test_setBits gets.first.free.1, if_neg (by omega)]
    exact free.2 x (by omega) (by omega)
  · have := sp.frames pf
    have := gets.spent pf
    omega

/-! ## One directory more -/

/-- A page of the kernel holds a directory in which no page of a process is mapped. -/
structure NewDir (m : Memory) (dirs : List Nat) (c : Nat) : Prop where
  new : c ∉ dirs
  held : ∃ v, kHeapStart ≤ v ∧ v < kHeapStart + m.kernelVaddr.size ∧ m.pageAt kernelDir v = some c
  low : ∀ i < 768, target (m.ram c i) = none
  high : ∀ i, 768 ≤ i → i < 1023 → m.ram c i = m.ram kernelDir i
  self : m.ram c 1023 = entryWord c

theorem NewDir.pageAt (nd : NewDir m dirs c) (hw : w < kernelStart) : m.pageAt c w = none := by
  have table : m.tableAt c (w / 1024) = none := nd.low _ (by unfold kernelStart at hw; omega)
  unfold Memory.pageAt
  rw [table]
  rfl

theorem valid_cons (hp : m.Valid dirs p) : m.Valid (c :: dirs) p := by
  cases p with
  | table d i => exact hp.imp_left fun h => ⟨List.mem_cons_of_mem c h.1, h.2⟩
  | page d v => exact hp.imp_left fun h => ⟨List.mem_cons_of_mem c h.1, h.2⟩

/-- Its places are empty. -/
theorem NewDir.hold (nd : NewDir m dirs c) : m.hold (c :: dirs) = m.hold dirs := by
  funext p
  by_cases hp : m.Valid dirs p
  · rw [hold_valid hp, hold_valid (valid_cons hp)]
  · rw [show m.hold dirs p = 0 from if_neg hp]
    unfold Memory.hold
    split
    next hp' =>
      have empty : m.frameIn p = none := by
        cases p with
        | table d i =>
          obtain ⟨hd, hi⟩ := hp'.resolve_right fun h => hp (.inr h)
          obtain rfl := (List.mem_cons.mp hd).resolve_right fun h => hp (.inl ⟨h, hi⟩)
          exact nd.low i hi
        | page d v =>
          obtain ⟨hd, hv⟩ := hp'.resolve_right fun h => hp (.inr h)
          obtain rfl := (List.mem_cons.mp hd).resolve_right fun h => hp (.inl ⟨h, hv⟩)
          exact nd.pageAt hv
      rw [empty]
      rfl
    next => rfl

theorem Ordered.addDir (ord : m.Ordered dirs) (nd : NewDir m dirs c) : m.Ordered (c :: dirs) where
  layout := ord.layout
  self d hd := by
    rcases hd with rfl | hd
    · exact ord.self kernelDir (.inl rfl)
    · rcases List.mem_cons.mp hd with rfl | hd
      · exact nd.self
      · exact ord.self d (.inr hd)
  shared d hd i hi hi' := by
    rcases List.mem_cons.mp hd with rfl | hd
    · exact nd.high i hi hi'
    · exact ord.shared d hd i hi hi'
  tables := ord.tables
  books := by
    rw [nd.hold]
    exact ord.books
  suits p f hp h := by
    by_cases hp' : m.Valid dirs p
    · exact ord.suits p f hp' h
    · have at' := congrFun nd.hold p
      rw [hold_valid hp, h, show m.hold dirs p = 0 from if_neg hp'] at at'
      exact absurd at' (block_some_ne f)
  dirs d hd := by
    rcases List.mem_cons.mp hd with rfl | hd
    · exact nd.held
    · exact ord.dirs d hd

theorem NewDir.ne_running (nd : NewDir m dirs c) (ord : m.Ordered dirs) (run : IsDir dirs m.cr3) :
    m.cr3 ≠ c := by
  intro e
  rcases run with h | h
  · obtain ⟨v, hv, hv', held⟩ := nd.held
    rw [← e, h] at held
    exact ord.page_not_kernelDir (valid_page_kernel hv hv') held
  · exact nd.new (e ▸ h)

theorem NewDir.heap (nd : NewDir m dirs c) (ord : m.Ordered dirs) (run : IsDir dirs m.cr3) :
    m.Heap (c :: dirs) pf w ↔ m.Heap dirs pf w := by
  unfold Heap
  rw [List.mem_cons, or_iff_right (nd.ne_running ord run)]

theorem Agrees.addDir (ag : m.Agrees dirs) (nd : NewDir m dirs c) : m.Agrees (c :: dirs) where
  ordered := ag.ordered.addDir nd
  run := ag.run.imp_right (List.mem_cons_of_mem c)
  userSize h := ag.userSize ((List.mem_cons.mp h).resolve_left (nd.ne_running ag.ordered ag.run))
  bits pf w h := ag.bits pf w ((nd.heap ag.ordered ag.run).mp h)

end Memory

end SeekingOs
