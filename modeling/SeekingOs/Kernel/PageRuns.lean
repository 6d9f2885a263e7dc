import SeekingOs.Kernel.Release
import SeekingOs.Lib.Machine

/-!
# Runs of `malloc_page` and `mfree_page`

In one address space, with whatever other processes there are. A call of `mfree_page` may be made on
any range of the heap whose bits are set, but for the page directories of processes; in particular
on a range that a call has handed out and that is not given back yet.
-/

namespace SeekingOs

open Lib

namespace Memory

variable {m m' m₀ : Memory} {dirs : List Nat} {v w f g n : Nat} {pf pf' : PoolFlags}

/-- The bit of a page of the heap. -/
def bit (m : Memory) (pf : PoolFlags) (w : Nat) : Bool :=
  (m.vaddrBitmap pf).test (w - vaddrStart pf)

/-! ## What the calls are to do -/

/-- Bits, entries and frames agree, as the running task sees them. -/
structure Agreement (m : Memory) (dirs : List Nat) : Prop where
  bits : ∀ pf w, m.Heap dirs pf w → (m.bit pf w = true ↔ (m.pageAt m.cr3 w).isSome = true)
  distinct : ∀ pf pf' w w' f, m.Heap dirs pf w → m.Heap dirs pf' w' → m.pageAt m.cr3 w = some f →
    m.pageAt m.cr3 w' = some f → w = w'
  frames : ∀ pf w f, m.Heap dirs pf w → m.pageAt m.cr3 w = some f → (m.pool pf).Has f

/-- Pages `v` to `v + n - 1` were unused and are mapped now; no other bit and no other entry has
changed. -/
structure HandsOut (m : Memory) (dirs : List Nat) (pf : PoolFlags) (v n : Nat) (m' : Memory) :
    Prop where
  heap : ∀ w, v ≤ w → w < v + n → m.Heap dirs pf w
  unused : ∀ w, v ≤ w → w < v + n → m.bit pf w = false ∧ m.pageAt m.cr3 w = none
  used : ∀ w, v ≤ w → w < v + n → m'.bit pf w = true ∧ (m'.pageAt m'.cr3 w).isSome = true
  others : ∀ pf' w, m.Heap dirs pf' w → ¬ (v ≤ w ∧ w < v + n) → m'.bit pf' w = m.bit pf' w ∧
    m'.pageAt m'.cr3 w = m.pageAt m.cr3 w

/-- The bits, the entries and the frames of pages `v` to `v + n - 1` are cleared, and no others. -/
structure TakesBack (m : Memory) (dirs : List Nat) (v n : Nat) (m' : Memory) : Prop where
  bits : ∀ pf w, m.Heap dirs pf w → m'.bit pf w = if v ≤ w ∧ w < v + n then false else m.bit pf w
  entries : ∀ pf w, m.Heap dirs pf w → m'.pageAt m'.cr3 w = if v ≤ w ∧ w < v + n then none
    else m.pageAt m.cr3 w
  frames : ∀ pf g, (m'.pool pf).Has g ↔ (m.pool pf).Has g ∧ ¬ ∃ w, v ≤ w ∧ w < v + n ∧
    m.pageAt m.cr3 w = some g

end Memory

/-! ## The machine -/

open Memory

variable {m m' m₀ : Memory} {dirs : List Nat} {v w f g n : Nat} {pf pf' : PoolFlags}

/-- The calls. -/
inductive PageCall where
  | mallocPage (pf : PoolFlags) (pgCnt : Nat)
  | mfreePage (pf : PoolFlags) (vaddr pgCnt : Nat)

/-- The runs of the calls, in an address space among the processes with directories `dirs`. -/
def pageMachine (dirs : List Nat) : Machine Memory PageCall (Option Nat) Fault where
  enabled m
    | .mallocPage pf _ => pf = .user → m.cr3 ∈ dirs
    | .mfreePage pf v n => 0 < n ∧ ∀ w, v ≤ w → w < v + n → m.Heap dirs pf w ∧ m.bit pf w = true ∧
        ∀ d ∈ dirs, m.pageAt m.cr3 w ≠ some d
  step m
    | .mallocPage pf n => do
      let (vaddr, m) ← m.mallocPage pf n
      return (m, vaddr)
    | .mfreePage pf v n => do
      let m ← m.mfreePage pf v n
      return (m, none)

/-- What a call has done. -/
def PageCall.Did (dirs : List Nat) (m : Memory) (m' : Memory) : PageCall → Option Nat → Prop
  | .mallocPage _ _, none => m' = m
  | .mallocPage pf n, some v => m.HandsOut dirs pf v n m'
  | .mfreePage _ v n, _ => m.TakesBack dirs v n m'

/-! ## One call -/

theorem heap_pool (ag : m.Agrees dirs) (h : m.Heap dirs pf w) (h' : m.Heap dirs pf' w) :
    pf' = pf := by
  have apart (h : m.Heap dirs .kernel w) (h' : m.Heap dirs .user w) : False := by
    have low := h.1
    obtain ⟨-, below⟩ := ag.addr h'
    change kHeapStart ≤ w at low
    unfold kHeapStart at low
    unfold kernelStart at below
    omega
  cases pf with
  | kernel =>
    cases pf' with
    | kernel => rfl
    | user => exact (apart h h').elim
  | user =>
    cases pf' with
    | kernel => exact (apart h' h).elim
    | user => rfl

/-- The running task sees the pages of the heap. -/
theorem heap_pageAt (ag : m.Agrees dirs) (h : m.Heap dirs pf w) :
    m.pageAt m.cr3 w = m.pageAt (m.base pf) w := by
  have here := ag.addr h
  obtain ⟨-, hi⟩ := ag.ordered.layout.valid_table here.valid
  rw [ag.ordered.pageAt_owner ag.run hi, here.owner]

theorem agreement (ag : m.Agrees dirs) : m.Agreement dirs where
  bits pf w h := by
    rw [heap_pageAt ag h]
    exact ag.bits pf w h
  distinct pf pf' w w' f h h' hw hw' := by
    rw [heap_pageAt ag h] at hw
    rw [heap_pageAt ag h'] at hw'
    exact (Place.page.inj (ag.ordered.inj (ag.addr h).valid (ag.addr h').valid hw hw')).2
  frames pf w f h hw := by
    rw [heap_pageAt ag h] at hw
    have here := ag.addr h
    exact ag.ordered.layout.has_of_taken (ag.ordered.taken here.valid hw)
      ((ag.ordered.suits_addr here).mp (ag.ordered.suits _ f here.valid hw))

theorem has_iff (lay : m.Layout) : (m.pool pf).Has g ↔ m.Taken g ∧ m.InPool g pf := by
  refine ⟨fun h => ?_, fun h => lay.has_of_taken h.1 h.2⟩
  obtain ⟨hle, hlt⟩ := has_lt h
  have apart := lay.apart
  cases pf with
  | kernel =>
    change g < m.kernelPool.phyAddrStart + m.kernelPool.poolBitmap.size at hlt
    exact ⟨.inr (.inl h), hle, by omega⟩
  | user => exact ⟨.inr (.inr h), hle⟩

/-- The bits after addresses have been reserved or released. -/
theorem bit_reserve {value : Bool} (h : m.Heap dirs pf' w) (ag : m.Agrees dirs) (i : Nat)
    (fits : i + n ≤ (m.vaddrBitmap pf).size) (user : pf = .user → m.cr3 ∈ dirs) :
    (m.reserve i value n pf).bit pf' w =
      if vaddrStart pf + i ≤ w ∧ w < vaddrStart pf + i + n then value else m.bit pf' w := by
  unfold bit
  rw [reserve_vaddrBitmap]
  by_cases hpf : pf' = pf
  · subst hpf
    have low := h.1
    rw [if_pos rfl, test_setBits fits]
    by_cases hin : vaddrStart pf' + i ≤ w ∧ w < vaddrStart pf' + i + n
    · rw [if_pos hin, if_pos (by omega)]
    · rw [if_neg hin, if_neg (by omega)]
  · rw [if_neg hpf, if_neg]
    rintro ⟨hle, hlt⟩
    exact hpf (heap_pool ag ⟨by omega, by omega, user⟩ h)

theorem heap_kernel :
    m.Heap dirs .kernel w ↔ kHeapStart ≤ w ∧ w < kHeapStart + m.kernelVaddr.size :=
  ⟨fun h => ⟨h.1, h.2.1⟩, fun h => ⟨h.1, h.2, nofun⟩⟩

theorem heap_same (shape : SameShape m m') (cr3 : m'.cr3 = m.cr3) :
    m'.Heap dirs pf w ↔ m.Heap dirs pf w := by
  have size : (m'.vaddrBitmap pf).size = (m.vaddrBitmap pf).size := by
    cases pf with
    | kernel => exact shape.heap
    | user => exact shape.user
  unfold Heap
  rw [size, cr3]

theorem base_same (cr3 : m'.cr3 = m.cr3) : m'.base pf = m.base pf := by
  cases pf with
  | kernel => rfl
  | user => exact cr3

theorem bit_same (kernel : m'.kernelVaddr = m.kernelVaddr) (user : m'.userVaddr = m.userVaddr) :
    m'.bit pf w = m.bit pf w := by
  unfold bit
  cases pf with
  | kernel => rw [show m'.vaddrBitmap .kernel = m.vaddrBitmap .kernel from kernel]
  | user => rw [show m'.vaddrBitmap .user = m.vaddrBitmap .user from user]

theorem reserve_cr3 {i : Nat} {value : Bool} : (m.reserve i value n pf).cr3 = m.cr3 := by
  cases pf <;> rfl

/-- A call of `malloc_page` that answers an address hands out pages that were unused, and the
agreement is kept. -/
theorem mallocPage_agrees (ag : m.Agrees dirs) (user : pf = .user → m.cr3 ∈ dirs) {i : Nat}
    (free : (m.vaddrBitmap pf).FreeRun n i)
    (maps : Maps (m.reserve i true n pf) m' dirs (m.base pf) (vaddrStart pf + i) n) :
    m'.Agrees dirs ∧ m.HandsOut dirs pf (vaddrStart pf + i) n m' := by
  have shape : SameShape m m' := reserve_shape.trans maps.shape
  have cr3 : m'.cr3 = m.cr3 := maps.cr3.trans reserve_cr3
  have heap (w : Nat) (h : vaddrStart pf + i ≤ w) (h' : w < vaddrStart pf + i + n) :
      m.Heap dirs pf w :=
    heap_freeRun free rfl user h h'
  have bits {pf' : PoolFlags} {w : Nat} (h : m.Heap dirs pf' w) :
      m'.bit pf' w = if vaddrStart pf + i ≤ w ∧ w < vaddrStart pf + i + n then true
        else m.bit pf' w := by
    rw [bit_same maps.kernelVaddr maps.userVaddr, bit_reserve h ag i free.1 user]
  have pages {pf' : PoolFlags} {w : Nat} (h : m.Heap dirs pf' w)
      (out : ¬ (vaddrStart pf + i ≤ w ∧ w < vaddrStart pf + i + n)) :
      m'.pageAt (m.base pf') w = m.pageAt (m.base pf') w := by
    refine (maps.pages _ w (reserve_shape.valid.mpr (ag.addr h).valid) fun hc => out hc.2).trans ?_
    exact reserve_frameIn (p := .page _ w)
  have new {w : Nat} (h : vaddrStart pf + i ≤ w) (h' : w < vaddrStart pf + i + n) :
      (m'.pageAt (m.base pf) w).isSome = true := by
    obtain ⟨f, hf, -⟩ := maps.new w h h'
    rw [hf]
    rfl
  have ag' : m'.Agrees dirs := by
    refine ⟨maps.ordered, by rw [cr3]; exact ag.run, fun h => ?_, fun pf' w h => ?_⟩
    · rw [shape.user]
      exact ag.userSize (cr3 ▸ h)
    · rw [heap_same shape cr3] at h
      rw [base_same cr3]
      show m'.bit pf' w = true ↔ _
      rw [bits h]
      by_cases hin : vaddrStart pf + i ≤ w ∧ w < vaddrStart pf + i + n
      · obtain rfl := heap_pool ag (heap w hin.1 hin.2) h
        rw [if_pos hin]
        exact iff_of_true rfl (new hin.1 hin.2)
      · rw [if_neg hin, pages h hin]
        exact ag.bits pf' w h
  refine ⟨ag', heap, fun w h h' => ?_, fun w h h' => ?_, fun pf' w hw out => ?_⟩
  · have clear : m.bit pf w = false := free.2 (w - vaddrStart pf) (by omega) (by omega)
    have iff := (agreement ag).bits pf w (heap w h h')
    rw [clear] at iff
    exact ⟨clear, Option.not_isSome_iff_eq_none.mp fun h => Bool.false_ne_true (iff.mpr h)⟩
  · rw [bits (heap w h h'), if_pos ⟨h, h'⟩,
      heap_pageAt ag' ((heap_same shape cr3).mpr (heap w h h')), base_same cr3]
    exact ⟨rfl, new h h'⟩
  · rw [bits hw, if_neg out, heap_pageAt ag' ((heap_same shape cr3).mpr hw), base_same cr3,
      heap_pageAt ag hw]
    exact ⟨rfl, pages hw out⟩

/-- A call of `mfree_page` clears what belongs to the range. -/
theorem mfreePage_agrees (ag : m.Agrees dirs) {m₁ : Memory} (hn : 0 < n)
    (heap : ∀ w, v ≤ w → w < v + n → m.Heap dirs pf w) (unmaps : Unmaps m m₁ dirs (m.base pf) v n) :
    (m₁.reserve (v - vaddrStart pf) false n pf).Agrees dirs ∧
    m.TakesBack dirs v n (m₁.reserve (v - vaddrStart pf) false n pf) := by
  have first := heap v (Nat.le_refl v) (by omega)
  have last := heap (v + n - 1) (by omega) (by omega)
  have low := first.1
  have high := last.2.1
  have user := first.2.2
  have shape : SameShape m (m₁.reserve (v - vaddrStart pf) false n pf) :=
    unmaps.shape.trans reserve_shape
  have cr3 : (m₁.reserve (v - vaddrStart pf) false n pf).cr3 = m.cr3 := reserve_cr3.trans unmaps.cr3
  have start : vaddrStart pf + (v - vaddrStart pf) = v := by omega
  have vaddr : m₁.vaddrBitmap pf = m.vaddrBitmap pf := by
    cases pf with
    | kernel => exact unmaps.kernelVaddr
    | user => exact unmaps.userVaddr
  -- the bitmaps of virtual addresses come from the state before the loop
  have bits {pf' : PoolFlags} {w : Nat} (h : m.Heap dirs pf' w) :
      (m₁.reserve (v - vaddrStart pf) false n pf).bit pf' w = if v ≤ w ∧ w < v + n then false
        else m.bit pf' w := by
    have same : (m₁.reserve (v - vaddrStart pf) false n pf).bit pf' w =
        (m.reserve (v - vaddrStart pf) false n pf).bit pf' w := by
      refine bit_same ?_ ?_
      · cases pf with
        | kernel => exact congrArg (setBits · _ false n) unmaps.kernelVaddr
        | user => exact unmaps.kernelVaddr
      · cases pf with
        | kernel => exact unmaps.userVaddr
        | user => exact congrArg (setBits · _ false n) unmaps.userVaddr
    rw [same, bit_reserve h ag _ (by omega) user, start]
  have pages {pf' : PoolFlags} {w : Nat} (h : m.Heap dirs pf' w) :
      (m₁.reserve (v - vaddrStart pf) false n pf).pageAt (m.base pf') w = if v ≤ w ∧
        w < v + n then none else m.pageAt (m.base pf') w := by
    have same : (m₁.reserve (v - vaddrStart pf) false n pf).pageAt (m.base pf') w =
        m₁.pageAt (m.base pf') w :=
      reserve_frameIn (p := .page _ w)
    rw [same]
    by_cases hin : v ≤ w ∧ w < v + n
    · obtain rfl := heap_pool ag (heap w hin.1 hin.2) h
      rw [if_pos hin]
      exact unmaps.gone w hin.1 hin.2
    · rw [if_neg hin]
      exact unmaps.pages _ w (ag.addr h).valid fun hc => hin hc.2
  have ag' : (m₁.reserve (v - vaddrStart pf) false n pf).Agrees dirs := by
    refine ⟨reserve_ordered unmaps.ordered, by rw [cr3]; exact ag.run, fun h => ?_,
      fun pf' w h => ?_⟩
    · rw [shape.user]
      exact ag.userSize (cr3 ▸ h)
    · rw [heap_same shape cr3] at h
      rw [base_same cr3, pages h]
      show Memory.bit _ pf' w = true ↔ _
      rw [bits h]
      by_cases hin : v ≤ w ∧ w < v + n
      · rw [if_pos hin, if_pos hin]
        exact iff_of_false Bool.false_ne_true Bool.false_ne_true
      · rw [if_neg hin, if_neg hin]
        exact ag.bits pf' w h
  refine ⟨ag', fun pf' w h => bits h, fun pf' w h => ?_, fun pf' g => ?_⟩
  · rw [heap_pageAt ag' ((heap_same shape cr3).mpr h), base_same cr3, pages h, heap_pageAt ag h]
  · have taken : (m₁.reserve (v - vaddrStart pf) false n pf).Taken g ↔ m₁.Taken g := by
      cases pf <;> exact Iff.rfl
    rw [has_iff ag'.ordered.layout, has_iff ag.ordered.layout, shape.inPool, taken, unmaps.taken,
      and_right_comm]
    refine and_congr_right fun _ => not_congr ⟨?_, ?_⟩
    · rintro ⟨w, h, h', hw⟩
      exact ⟨w, h, h', (heap_pageAt ag (heap w h h')).trans hw⟩
    · rintro ⟨w, h, h', hw⟩
      exact ⟨w, h, h', (heap_pageAt ag (heap w h h')).symm.trans hw⟩

/-- What `mfree_page` needs is there. -/
theorem mfreePage_step (ag : m.Agrees dirs)
    (en : (pageMachine dirs).enabled m (.mfreePage pf v n)) :
    ∃ m₁, Unmaps m m₁ dirs (m.base pf) v n ∧
      m.mfreePage pf v n = .ok (m₁.reserve (v - vaddrStart pf) false n pf) := by
  obtain ⟨hn, range⟩ := en
  refine mfreePage_total ag hn (fun w h h' => (range w h h').1) fun w h h' => ?_
  obtain ⟨heap, set, notDir⟩ := range w h h'
  obtain ⟨f, hf⟩ := Option.isSome_iff_exists.mp ((ag.bits pf w heap).mp set)
  refine ⟨f, hf, fun hd => notDir f hd ?_⟩
  rw [heap_pageAt ag heap]
  exact hf

/-- THE STEP LEMMA. -/
theorem pageMachine_step (ag : m.Agrees dirs) {e : PageCall} {o : Option Nat}
    (en : (pageMachine dirs).enabled m e) (h : (pageMachine dirs).step m e = .ok (m', o)) :
    m'.Agrees dirs ∧ e.Did dirs m m' o := by
  cases e with
  | mallocPage pf n =>
    obtain ⟨⟨r, m₁⟩, hcall, h⟩ := bind_eq_ok.mp h
    cases h
    rcases mallocPage_ok ag en hcall with ⟨rfl, rfl⟩ | ⟨i, rfl, first, maps⟩
    · exact ⟨ag, rfl⟩
    · exact mallocPage_agrees ag en first.free maps
  | mfreePage pf v n =>
    obtain ⟨m₁, unmaps, hfree⟩ := mfreePage_step ag en
    obtain ⟨m₂, hcall, h⟩ := bind_eq_ok.mp h
    rw [hfree] at hcall
    cases hcall
    cases h
    exact mfreePage_agrees ag en.1 (fun w h h' => (en.2 w h h').1) unmaps

/-- BITMAPS AND TABLES AGREE in every state that the calls lead to from one where they do; each call
does what it is to do; `mfree_page` never fails, and `malloc_page` answers where there is room. -/
theorem pages_agree (dirs : List Nat) (m₀ m : Memory) (agrees : m₀.Agrees dirs)
    (reach : (pageMachine dirs).Reachable m₀ m) :
    m.Agreement dirs ∧
      (∀ e m' o, (pageMachine dirs).enabled m e → (pageMachine dirs).step m e = .ok (m', o) →
        e.Did dirs m m' o) ∧
      (∀ pf v n, (pageMachine dirs).enabled m (.mfreePage pf v n) →
        ∃ m', (pageMachine dirs).step m (.mfreePage pf v n) = .ok (m', none)) ∧
      (∀ pf n, (pageMachine dirs).enabled m (.mallocPage pf n) → m.Room pf n →
        ∃ m' v, (pageMachine dirs).step m (.mallocPage pf n) = .ok (m', some v)) := by
  have ag : m.Agrees dirs := reach.invariant agrees fun inv en st => (pageMachine_step inv en st).1
  refine ⟨agreement ag, fun e m' o en st => (pageMachine_step ag en st).2, fun pf v n en => ?_,
    fun pf n en room => ?_⟩
  · obtain ⟨m₁, -, hfree⟩ := mfreePage_step ag en
    refine ⟨m₁.reserve (v - vaddrStart pf) false n pf, ?_⟩
    show (m.mfreePage pf v n >>= _) = _
    rw [hfree]
    rfl
  · obtain ⟨i, m', -, hcall⟩ := mallocPage_total ag en room
    refine ⟨m', vaddrStart pf + i, ?_⟩
    show (m.mallocPage pf n >>= _) = _
    rw [hcall]
    rfl

/-! ## After the start of the kernel -/

/-- The kernel's directory and its first table, as the loader leaves them. -/
def bootRam (f i : Nat) : Nat :=
  if f = kernelDir then
    if i = 1023 then entryWord kernelDir else if 768 ≤ i then entryWord (kernelDir + 1 + (i - 768))
    else if i = 0 then entryWord (kernelDir + 1) else 0
  else if f = kernelDir + 1 ∧ i < 256 then entryWord i
  else 0

/-- A bitmap with all bits clear. -/
def clearBitmap (len : Nat) : Bitmap := ⟨List.replicate len 0⟩

/-- The memory after `mem_init`, with 32 MB. -/
def bootMemory : Memory where
  ram := bootRam
  cr3 := kernelDir
  kernelPool := ⟨clearBitmap 480, 512⟩
  userPool := ⟨clearBitmap 480, 512 + 3840⟩
  kernelVaddr := clearBitmap 480
  userVaddr := clearBitmap 94199

@[simp] theorem size_clearBitmap (len : Nat) : (clearBitmap len).size = 8 * len := by
  unfold Bitmap.size clearBitmap
  rw [List.length_replicate]

@[simp] theorem test_clearBitmap (len i : Nat) : (clearBitmap len).test i = false := by
  have byte : (List.replicate len (0 : Byte)).getD (i / 8) 0 = 0 := by
    rw [List.getD_eq_getElem?_getD, List.getElem?_replicate]
    split <;> rfl
  unfold Bitmap.test clearBitmap
  dsimp only
  rw [byte]
  exact BitVec.getLsbD_zero

theorem freeCount_clearBitmap (len start : Nat) :
    Pool.freeCount ⟨clearBitmap len, start⟩ = 8 * len := by
  unfold Pool.freeCount
  simp

theorem freeRun_clearBitmap {len i n : Nat} (h : i + n ≤ 8 * len) : (clearBitmap len).FreeRun n i :=
  ⟨by rw [size_clearBitmap]; exact h, fun j _ _ => test_clearBitmap len j⟩

theorem boot_table {i : Nat} (h : 768 ≤ i) : bootMemory.tableAt kernelDir i =
    some (if i = 1023 then kernelDir else kernelDir + 1 + (i - 768)) := by
  show target (bootRam kernelDir i) = _
  unfold bootRam
  rw [if_pos rfl]
  by_cases hi : i = 1023
  · rw [if_pos hi, if_pos hi, target_entryWord]
  · rw [if_neg hi, if_neg hi, if_pos h, target_entryWord]

/-- The heap of the kernel is empty. -/
theorem boot_page {v : Nat} (h : kHeapStart ≤ v)
    (h' : v < kHeapStart + bootMemory.kernelVaddr.size) : bootMemory.pageAt kernelDir v = none := by
  have size : bootMemory.kernelVaddr.size = 3840 := size_clearBitmap 480
  rw [size] at h'
  unfold kHeapStart at h h'
  rw [pageAt_table (boot_table (i := v / 1024) (by omega))]
  show target (bootRam _ (v % 1024)) = none
  unfold bootRam
  rw [if_neg (show ¬ v / 1024 = 1023 by omega), if_neg (by unfold kernelDir; omega),
    if_neg (by omega)]
  rfl

theorem boot_frameIn {p : Place} (hp : bootMemory.Valid [] p) (h : bootMemory.frameIn p = some f) :
    ∃ i, 768 ≤ i ∧ i < 1024 ∧ p = .table kernelDir i ∧ f = if i = 1023 then kernelDir
      else kernelDir + 1 + (i - 768) := by
  cases p with
  | table d i =>
    obtain ⟨rfl, hi, hi'⟩ := hp.resolve_left fun h => absurd h.1 List.not_mem_nil
    rw [show bootMemory.frameIn (.table kernelDir i) = _ from boot_table hi] at h
    exact ⟨i, hi, hi', rfl, (Option.some.inj h).symm⟩
  | page d v =>
    obtain ⟨rfl, hv, hv'⟩ := hp.resolve_left fun h => absurd h.1 List.not_mem_nil
    rw [show bootMemory.frameIn (.page kernelDir v) = _ from boot_page hv hv'] at h
    cases h

theorem boot_ordered : bootMemory.Ordered [] where
  layout := by
    have kernel : bootMemory.kernelPool.poolBitmap.size = 3840 := size_clearBitmap 480
    have user : bootMemory.userPool.poolBitmap.size = 3840 := size_clearBitmap 480
    have heap : bootMemory.kernelVaddr.size = 3840 := size_clearBitmap 480
    refine ⟨Nat.le_refl _, ?_, ?_, ?_⟩
    · rw [kernel]
      exact Nat.le_refl _
    · rw [user]
      decide
    · rw [heap]
      decide
  self d hd := by
    rcases hd with rfl | hd
    · rfl
    · exact absurd hd List.not_mem_nil
  shared d hd := absurd hd List.not_mem_nil
  tables i hi _ := by
    rw [boot_table hi]
    rfl
  books := by
    refine ⟨fun p q hne heq => ?_, fun p hne f hf => ?_⟩
    · unfold hold at hne heq
      split at hne
      next hp =>
        rw [if_pos hp] at heq
        obtain ⟨f, hf⟩ := Option.ne_none_iff_exists'.mp hne
        rw [hf] at heq
        split at heq
        next hq =>
          obtain ⟨i, hi, hi', rfl, e⟩ := boot_frameIn hp hf
          obtain ⟨j, hj, hj', rfl, e'⟩ := boot_frameIn hq (block_inj.mp heq).symm
          have : i = j := by
            unfold kernelDir at e e'
            split at e <;> split at e' <;> omega
          rw [this]
        next => exact absurd heq (block_some_ne f)
      next => exact absurd rfl hne
    · unfold hold at hf
      split at hf
      next hp =>
        obtain ⟨i, hi, hi', -, e⟩ := boot_frameIn hp (block_inj.mp hf)
        refine .inl ?_
        show f < 512
        unfold kernelDir at e
        split at e <;> omega
      next => exact absurd hf.symm (block_some_ne f)
  suits p f hp h := by
    obtain ⟨i, hi, hi', rfl, e⟩ := boot_frameIn hp h
    unfold Suits
    dsimp only
    rw [if_pos rfl]
    show f < 512
    unfold kernelDir at e
    split at e <;> omega
  dirs d hd := absurd hd List.not_mem_nil

theorem boot_agrees : bootMemory.Agrees [] where
  ordered := boot_ordered
  run := .inl rfl
  userSize h := absurd h List.not_mem_nil
  bits pf w h := by
    cases pf with
    | kernel =>
      obtain ⟨hw, hw'⟩ := heap_kernel.mp h
      rw [show bootMemory.vaddrBitmap .kernel = clearBitmap 480 from rfl, test_clearBitmap,
        show bootMemory.pageAt (bootMemory.base .kernel) w = none from boot_page hw hw']
      exact iff_of_false Bool.false_ne_true Bool.false_ne_true
    | user => exact absurd (h.2.2 rfl) List.not_mem_nil

theorem boot_room {n : Nat} (h : 0 < n) (h' : n < 3840) : bootMemory.Room .kernel n where
  count := ⟨h, h'⟩
  addresses := ⟨0, freeRun_clearBitmap (by omega), nofun⟩
  frames := by
    rw [show (bootMemory.pool .kernel).freeCount = _ from freeCount_clearBitmap 480 512]
    omega
  tables := nofun

/-- The theorem after a page has been handed out. -/
theorem pages_agree_boot : ∃ m v, (pageMachine []).step bootMemory (.mallocPage .kernel 1) =
    .ok (m, some v) ∧ m.Agreement [] := by
  obtain ⟨-, -, -, room⟩ := pages_agree [] bootMemory bootMemory boot_agrees (.start _)
  have en : (pageMachine []).enabled bootMemory (.mallocPage .kernel 1) := nofun
  obtain ⟨m, v, st⟩ := room .kernel 1 en (boot_room (by decide) (by decide))
  exact ⟨m, v, st,
    (pages_agree [] bootMemory m boot_agrees ((Machine.Reachable.start _).step en st)).1⟩

end SeekingOs
