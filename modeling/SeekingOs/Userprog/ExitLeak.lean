import SeekingOs.Userprog.ExitMemory

/-!
# What is not given back

A bitmap of user addresses has 94199 bytes. `fork` takes `DIV_ROUND_UP` of them in pages, which is
23; `release_prog_resource` divides without rounding and gives 22 back. The last page stays taken
after every `fork`, `exit` and `wait`.
-/

namespace SeekingOs

open Lib Memory

variable {m m' m₁ m₂ : Memory} {dirs : List Nat} {c v : Nat} {parent child : Proc}
  {calls : List UserCall}

/-! ## The last page -/

/-- The bitmaps of the pools and of the kernel heap are as they were. -/
def SameBitmaps (m m' : Memory) : Prop :=
  m'.kernelPool.poolBitmap = m.kernelPool.poolBitmap ∧
    m'.userPool.poolBitmap = m.userPool.poolBitmap ∧ m'.kernelVaddr = m.kernelVaddr

/-- The pages that `release_prog_resource` gives back. -/
theorem Runs.released (rn : Runs m dirs parent) : parent.vaddrBitmap.btmpBytesLen / 4096 = 22 := by
  have size := rn.agrees.userSize rn.run
  rw [← rn.bitmap] at size
  unfold Bitmap.size userVaddrStart kernelStart at size
  unfold Bitmap.btmpBytesLen
  omega

/-- The bits after `exit` and `wait`, for the pages of the child. -/
def givenBack (K : Bitmap) (child : Proc) (cnt : Nat) : Bitmap :=
  setBits (setBits (setBits K (bitIdxOf child.vaddrBits kHeapStart) false cnt)
    (bitIdxOf child.pgdir kHeapStart) false 1)
    (bitIdxOf child.pcb kHeapStart) false 1

theorem forkExitWait_kernelVaddr (h : forkExitWait m parent calls = .ok (some m')) :
    ∃ child m₁, m.sysFork parent = .ok (some child, m₁) ∧
    m'.kernelVaddr = givenBack m₁.kernelVaddr child (child.vaddrBitmap.btmpBytesLen / 4096) := by
  unfold forkExitWait at h
  obtain ⟨⟨r, m₁⟩, hfork, h⟩ := bind_eq_ok.mp h
  cases r with
  | none => cases h
  | some child =>
    obtain ⟨m₂, hrun, h⟩ := bind_eq_ok.mp h
    obtain ⟨m₃, hcalls, h⟩ := bind_eq_ok.mp h
    obtain ⟨m₄, hrelease, h⟩ := bind_eq_ok.mp h
    obtain ⟨m₅, hback, h⟩ := bind_eq_ok.mp h
    obtain ⟨m₆, hexit, h⟩ := bind_eq_ok.mp h
    cases h
    have h₂ := (hasBits_processActivate rfl child).of_ok hrun
    have h₃ := (hasBits_userCalls h₂ calls).of_ok hcalls
    have h₄ := (hasBits_releaseProgResource h₃ child).of_ok hrelease
    have h₅ := (hasBits_processActivate h₄ parent).of_ok hback
    exact ⟨child, m₁, hfork, (hasBits_threadExit h₅ child).of_ok hexit⟩

theorem bitIdxOf_heap (h : kHeapStart ≤ v) (h' : v < 1023 * 1024) :
    bitIdxOf v kHeapStart = v - kHeapStart := by
  unfold bitIdxOf
  omega

/-- The bit of the last page of the bitmap is set. -/
theorem Forked.last (forked : Forked m m₁ dirs parent child c) (lay : m.Layout) :
    m.bit .kernel (child.vaddrBits + 22) = false ∧
      (givenBack m₁.kernelVaddr child 22).test (child.vaddrBits + 22 - kHeapStart) = true := by
  have inside : InRange child.vaddrBits bitmapPgCnt (child.vaddrBits + 22) :=
    ⟨by omega, by rw [bitmapPgCnt_eq]; omega⟩
  have own : child.Owns (child.vaddrBits + 22) := .inr (.inl inside)
  obtain ⟨heap, clear⟩ := forked.unused _ own
  obtain ⟨heapPgdir, -⟩ := forked.unused child.pgdir (.inr (.inr rfl))
  obtain ⟨heapPcb, -⟩ := forked.unused child.pcb (.inl rfl)
  obtain ⟨heapBits, -⟩ :=
    forked.unused child.vaddrBits (.inr (.inl ⟨Nat.le_refl _, by rw [bitmapPgCnt_eq]; omega⟩))
  have bound := lay.heap
  have size := forked.shape.heap
  obtain ⟨lo, hi⟩ := heap_kernel.mp heap
  obtain ⟨loPgdir, hiPgdir⟩ := heap_kernel.mp heapPgdir
  obtain ⟨loPcb, hiPcb⟩ := heap_kernel.mp heapPcb
  have loBits := (heap_kernel.mp heapBits).1
  have notPgdir : child.pgdir ≠ child.vaddrBits + 22 := fun e => forked.separate.pgdir (e ▸ inside)
  have notPcb : child.pcb ≠ child.vaddrBits + 22 := fun e => forked.separate.pcb (e ▸ inside)
  have set : m₁.kernelVaddr.test (child.vaddrBits + 22 - kHeapStart) = true :=
    (forked.bits _ lo).mpr (.inr own)
  refine ⟨clear, ?_⟩
  unfold givenBack
  rw [bitIdxOf_heap loBits (by omega), bitIdxOf_heap loPgdir (by omega),
    bitIdxOf_heap loPcb (by omega),
    test_setBits (by rw [size_setBits, size_setBits]; omega), if_neg (by omega),
    test_setBits (by rw [size_setBits]; omega), if_neg (by omega), test_setBits (by omega),
    if_neg (by omega)]
  exact set

/-- A bit of the kernel heap that was clear is set. -/
theorem forkExitWait_leaks (rn : Runs m dirs parent)
    (h : forkExitWait m parent calls = .ok (some m')) :
    ∃ v, m.bit .kernel v = false ∧ m'.bit .kernel v = true := by
  obtain ⟨child, m₁, hfork, bits⟩ := forkExitWait_kernelVaddr h
  obtain ⟨c, forked⟩ := (sysFork_ensures rn).of_ok hfork
  rw [forked.bitmap, rn.released] at bits
  obtain ⟨clear, set⟩ := forked.last rn.agrees.ordered.layout
  refine ⟨child.vaddrBits + 22, clear, ?_⟩
  show m'.kernelVaddr.test (child.vaddrBits + 22 - kHeapStart) = true
  rw [bits]
  exact set

/-! ## The end of a process -/

namespace Memory

variable {dirs' : List Nat} {f g i j n pgdir t w : Nat} {pf : PoolFlags} {p : Place}
  {F G : Nat → Prop}

/-- The places of a directory that are below the kernel. -/
def LowPlace (c : Nat) : Place → Prop
  | .table d i => d = c ∧ i < 768
  | .page d v => d = c ∧ v < kernelStart

theorem LowPlace.valid (h : LowPlace c p) (hc : c ∈ dirs) : m.Valid dirs p := by
  cases p with
  | table d i =>
    obtain ⟨rfl, hi⟩ := h
    exact Or.inl ⟨hc, hi⟩
  | page d v =>
    obtain ⟨rfl, hv⟩ := h
    exact Or.inl ⟨hc, hv⟩

/-- The frames below the kernel of a directory. -/
def LowFrame (m : Memory) (c f : Nat) : Prop := ∃ p, LowPlace c p ∧ m.frameIn p = some f

/-- At most the bits of frames of `F` have been cleared, and nothing else has changed. -/
structure Frees (m m' : Memory) (F : Nat → Prop) : Prop where
  rest : m' = { m with kernelPool := m'.kernelPool, userPool := m'.userPool }
  shape : SameShape m m'
  taken : ∀ g, m.Taken g → ¬ F g → m'.Taken g

theorem Frees.refl : Frees m m F := ⟨rfl, SameShape.refl m, fun _ h _ => h⟩

theorem Frees.trans (first : Frees m m₁ F) (second : Frees m₁ m' F) : Frees m m' F :=
  ⟨by rw [second.rest, first.rest], first.shape.trans second.shape, fun g h hF =>
    second.taken g (first.taken g h hF) hF⟩

theorem Frees.ram (fr : Frees m m' F) : m'.ram = m.ram := by rw [fr.rest]

theorem Frees.cr3 (fr : Frees m m' F) : m'.cr3 = m.cr3 := by rw [fr.rest]

theorem Frees.pageAt (fr : Frees m m' F) (d v : Nat) : m'.pageAt d v = m.pageAt d v := by
  unfold Memory.pageAt tableAt
  rw [fr.ram]

theorem Frees.frameIn (fr : Frees m m' F) (p : Place) : m'.frameIn p = m.frameIn p := by
  cases p with
  | table d i =>
    unfold Memory.frameIn tableAt
    rw [fr.ram]
  | page d v => exact fr.pageAt d v

/-- A frame below the kernel can be given back, also when others have been. -/
theorem Ordered.pfree_total (ord : m.Ordered dirs) (hc : c ∈ dirs) (fr : Frees m m₁ (m.LowFrame c))
    (hg : m.LowFrame c g) : ∃ m', m₁.pfree g = .ok m' ∧ Frees m m' (m.LowFrame c) := by
  obtain ⟨p, low, held⟩ := hg
  have notKernel : c ≠ kernelDir := fun e => ord.kernelDir_not_mem (e ▸ hc)
  have inPool : ∃ pf, m.InPool g pf := by
    have suits := ord.suits p g (low.valid hc) held
    cases p with
    | table d i =>
      obtain ⟨rfl, -⟩ := low
      unfold Suits at suits
      dsimp only at suits
      rw [if_neg notKernel] at suits
      exact ⟨.kernel, suits⟩
    | page d v =>
      obtain ⟨rfl, -⟩ := low
      unfold Suits at suits
      dsimp only at suits
      rw [if_neg notKernel] at suits
      exact ⟨.user, suits⟩
  obtain ⟨pf, hin⟩ := inPool
  obtain ⟨lo, hi⟩ := has_lt (ord.layout.has_of_taken (ord.taken (low.valid hc) held) hin)
  have start : (m₁.pool pf).phyAddrStart = (m.pool pf).phyAddrStart := by
    cases pf with
    | kernel => exact fr.shape.kernelStart
    | user => exact fr.shape.userStart
  have size : (m₁.pool pf).poolBitmap.size = (m.pool pf).poolBitmap.size := by
    cases pf with
    | kernel => exact fr.shape.kernelSize
    | user => exact fr.shape.userSize
  have lay := fr.shape.layout ord.layout
  have index : g - (m₁.pool pf).phyAddrStart < (m₁.pool pf).poolBitmap.size := by
    rw [start, size]
    omega
  refine ⟨_, lay.pfree_at (show (m₁.pool pf).phyAddrStart ≤ g by rw [start]; exact lo)
    (by rw [start, size]; exact hi),
    fr.trans ⟨?_, setPoolBit_shape, fun f hf hF => ?_⟩⟩
  · cases pf <;> rfl
  · have bit := @Layout.taken_setPoolBit m₁ (g - (m₁.pool pf).phyAddrStart) pf false lay index f
    rw [bit, if_neg]
    · exact hf
    · intro e
      have same : f = g := by
        rw [start] at e
        omega
      subst same
      exact hF ⟨p, low, held⟩

/-- The loops of `release_prog_resource` come to their end. -/
theorem Ordered.releasePte_total (ord : m.Ordered dirs) (run : m.cr3 ∈ dirs) (hi : i < 768)
    (hj : j < 1024) (table : m.tableAt m.cr3 i = some t) (fr : Frees m m₁ (m.LowFrame m.cr3)) :
    Total (fun m' => Frees m m' (m.LowFrame m.cr3)) (releasePte i j m₁) := by
  have page : m₁.pageAt m₁.cr3 (ptePtr (i * 1024)).1 = some t := by
    rw [fr.pageAt, fr.cr3]
    unfold ptePtr
    dsimp only
    rw [show i * 1024 / 1024 = i by omega]
    exact (ord.pageAt_self (.inr run) (by omega)).trans table
  unfold releasePte read
  dsimp only
  rw [page, ok_bind, fr.ram]
  split
  next there =>
    have low : m.LowFrame m.cr3 (frameOf (m.ram t j)) := by
      refine ⟨.page m.cr3 (1024 * i + j), ⟨rfl, by unfold kernelStart; omega⟩, ?_⟩
      refine (pageAt_table (t := t) ?_).trans ?_
      · rw [show (1024 * i + j) / 1024 = i by omega]
        exact table
      · rw [show (1024 * i + j) % 1024 = j by omega]
        exact if_pos there
    obtain ⟨m', hfree, fr'⟩ := ord.pfree_total run fr low
    rw [hfree]
    exact fr'
  next => exact fr

theorem Ordered.releasePde_total (ord : m.Ordered dirs) (run : m.cr3 ∈ dirs)
    (addr : m.Addr dirs .kernel pgdir) (held : m.pageAt kernelDir pgdir = some m.cr3) (hi : i < 768)
    (fr : Frees m m₁ (m.LowFrame m.cr3)) :
    Total (fun m' => Frees m m' (m.LowFrame m.cr3)) (releasePde pgdir i m₁) := by
  have page : m₁.pageAt m₁.cr3 pgdir = some m.cr3 := by
    obtain ⟨-, hv⟩ := ord.layout.valid_table addr.valid
    rw [fr.pageAt, fr.cr3, ord.pageAt_owner (.inr run) hv, addr.owner]
    exact held
  unfold releasePde read
  dsimp only
  rw [page, ok_bind, fr.ram]
  split
  next there =>
    have table : m.tableAt m.cr3 i = some (frameOf (m.ram m.cr3 i)) := if_pos there
    refine (Ensures.upTo (I := fun _ m' => Frees m m' (m.LowFrame m.cr3)) fr fun j hj m₂ fr₂ =>
      ?_).bind fun m₂ fr₂ => ?_
    · exact ord.releasePte_total run hi hj table fr₂
    · obtain ⟨m', hfree, fr'⟩ := ord.pfree_total run fr₂ ⟨.table m.cr3 i, ⟨rfl, hi⟩, table⟩
      rw [hfree]
      exact fr'
  next => exact fr

theorem Ordered.releaseLoop_total (ord : m.Ordered dirs) (run : m.cr3 ∈ dirs)
    (addr : m.Addr dirs .kernel pgdir) (held : m.pageAt kernelDir pgdir = some m.cr3) :
    Total (fun m' => Frees m m' (m.LowFrame m.cr3)) (upTo (releasePde pgdir) 768 m) :=
  Ensures.upTo (I := fun _ m' => Frees m m' (m.LowFrame m.cr3)) .refl fun _ hi _ fr =>
    ord.releasePde_total run addr held hi fr

/-! ## Without the child -/

/-- One directory less is counted. -/
theorem Ordered.drop (ord : m.Ordered (c :: dirs)) : m.Ordered dirs where
  layout := ord.layout
  self d hd := ord.self d (hd.imp_right (List.mem_cons_of_mem c))
  shared d hd := ord.shared d (List.mem_cons_of_mem c hd)
  tables := ord.tables
  books := by
    have same {p : Place} (hp : m.hold dirs p ≠ 0) : m.hold (c :: dirs) p = m.hold dirs p := by
      unfold Memory.hold at hp ⊢
      split at hp
      next h => rw [if_pos h, if_pos (valid_cons h)]
      next => exact absurd rfl hp
    refine ⟨fun p q hp heq => ?_, fun p hp => ?_⟩
    · refine ord.books.inj p q (by rw [same hp]; exact hp) ?_
      rw [same hp, same (heq ▸ hp), heq]
    · rw [← same hp]
      exact ord.books.taken p (by rw [same hp]; exact hp)
  suits p f hp := ord.suits p f (valid_cons hp)
  dirs d hd := ord.dirs d (List.mem_cons_of_mem c hd)

/-- The frames below the kernel of the child are in no place of the others. -/
theorem Frees.ordered (fr : Frees m m' (m.LowFrame c)) (ord : m.Ordered (c :: dirs))
    (new : c ∉ dirs) : m'.Ordered dirs := by
  refine ord.drop.change fr.shape (fun d _ i _ _ => by rw [fr.ram]) ?_
    (fun p f _ h => .inl ((fr.frameIn p).symm.trans h))
    fun d _ v _ h => (fr.pageAt kernelDir v).trans h
  rw [hold_same fr.shape fun p _ => fr.frameIn p]
  refine ⟨ord.drop.books.inj, fun p hp f hf => ?_⟩
  unfold Memory.hold at hp hf
  split at hp
  next hv =>
    rw [if_pos hv] at hf
    have held : m.frameIn p = some f := block_inj.mp hf
    refine fr.taken f (ord.drop.taken hv held) ?_
    rintro ⟨q, low, held'⟩
    obtain rfl := ord.inj (low.valid List.mem_cons_self) (valid_cons hv) held' held
    have notKernel : c ≠ kernelDir := fun e => ord.kernelDir_not_mem (e ▸ List.mem_cons_self)
    cases q with
    | table d i =>
      obtain ⟨rfl, -⟩ := low
      exact hv.elim (fun h => new h.1) fun h => notKernel h.1
    | page d v =>
      obtain ⟨rfl, -⟩ := low
      exact hv.elim (fun h => new h.1) fun h => notKernel h.1
  next => exact absurd rfl hp

/-- The directory of the child still shows the kernel. -/
theorem Frees.active (fr : Frees m m' F) (ord : m.Ordered (c :: dirs)) (run : m.cr3 = c) :
    m'.Active dirs := by
  have isDir : IsDir (c :: dirs) m.cr3 := .inr (run ▸ List.mem_cons_self)
  have table (d i : Nat) : m'.tableAt d i = m.tableAt d i := fr.frameIn (.table d i)
  refine .inr ⟨?_, fun i h h' => ?_, fun d i hv => ?_⟩
  · rw [table, fr.cr3]
    unfold tableAt
    rw [ord.self _ isDir, target_entryWord]
  · rw [table, table, fr.cr3]
    unfold tableAt
    rw [ord.shared _ (run ▸ List.mem_cons_self) i h h']
  · rw [table, fr.cr3, run]
    intro held
    obtain ⟨w, hw, hw', page⟩ := ord.dirs c List.mem_cons_self
    cases ord.inj (valid_cons (fr.shape.valid.mp hv)) (valid_page_kernel hw hw') held page

/-! ## Pages of the kernel -/

/-- A page of the kernel that may be given back. -/
def HoldsPage (m : Memory) (dirs : List Nat) (w : Nat) : Prop :=
  m.Heap dirs .kernel w ∧ ∃ f, m.pageAt kernelDir w = some f ∧ f ∉ dirs

/-- Pages of the kernel have been given back. -/
structure Gives (m m' : Memory) (dirs : List Nat) (v n : Nat) : Prop where
  ordered : m'.Ordered dirs
  active : m'.Active dirs
  cr3 : m'.cr3 = m.cr3
  userVaddr : m'.userVaddr = m.userVaddr
  heap : m'.kernelVaddr.size = m.kernelVaddr.size
  pages : ∀ w, m.Heap dirs .kernel w → ¬ InRange v n w →
    m'.pageAt kernelDir w = m.pageAt kernelDir w

theorem Gives.holds (gv : Gives m m' dirs v n) (h : m.HoldsPage dirs w) (out : ¬ InRange v n w) :
    m'.HoldsPage dirs w := by
  obtain ⟨heap, f, hf, notDir⟩ := h
  refine ⟨heap_kernel.mpr ?_, f, (gv.pages w heap out).trans hf, notDir⟩
  rw [gv.heap]
  exact heap_kernel.mp heap

theorem Ordered.mfreeKernel_total (ord : m.Ordered dirs) (act : m.Active dirs)
    (size : m.cr3 ∈ dirs → userVaddrStart + m.userVaddr.size = kernelStart) (hn : 0 < n)
    (there : ∀ w, InRange v n w → m.HoldsPage dirs w) :
    ∃ m', m.mfreePage .kernel v n = .ok m' ∧ Gives m m' dirs v n := by
  have heap (w : Nat) (h : v ≤ w) (h' : w < v + n) : m.Heap dirs .kernel w := (there w ⟨h, h'⟩).1
  obtain ⟨m', un, h⟩ := ord.mfreePage_eq act size hn heap fun w h h' => (there w ⟨h, h'⟩).2
  refine ⟨_, h, reserve_ordered un.ordered, un.active act, un.cr3, un.userVaddr, ?_,
    fun w hw out => ?_⟩
  · exact (size_setBits _ _ _ _).trans un.shape.heap
  · refine (reserve_frameIn (p := .page kernelDir w)).trans ?_
    exact un.pages kernelDir w (valid_page_kernel hw.1 hw.2.1) fun h => out h.2

end Memory

/-! ## A run -/

theorem Forked.holds (forked : Forked m m₁ dirs parent child c) (h : child.Owns v) :
    m₁.HoldsPage dirs v := by
  obtain ⟨heap, -⟩ := forked.unused v h
  have set := (forked.bits v heap.1).mpr (.inr h)
  have heap₁ : m₁.Heap dirs .kernel v := (heap_same forked.shape forked.cr3).mpr heap
  obtain ⟨f, hf⟩ :=
    Option.isSome_iff_exists.mp ((forked.agrees.bits .kernel v ⟨heap₁.1, heap₁.2.1, nofun⟩).mp set)
  exact ⟨heap₁, f, hf, forked.notDir v f h hf⟩

/-- The page of the parent's directory is none of the child's. -/
theorem Forked.parentPage (forked : Forked m m₁ dirs parent child c) (rn : Runs m dirs parent) :
    ¬ child.Owns parent.pgdir := by
  intro own
  obtain ⟨-, clear⟩ := forked.unused _ own
  obtain ⟨heap, held⟩ := rn.pgdir
  have set : m.bit .kernel parent.pgdir = true :=
    (rn.agrees.bits .kernel _ heap).mpr (Option.isSome_iff_exists.mpr ⟨_, held⟩)
  rw [set] at clear
  cases clear

/-- The child runs: its calls leave the kernel heap as the `fork` has left it. -/
structure ChildRuns (m₁ m₂ : Memory) (dirs : List Nat) (c : Nat) : Prop where
  ordered : m₂.Ordered (c :: dirs)
  cr3 : m₂.cr3 = c
  heap : m₂.kernelVaddr = m₁.kernelVaddr
  userSize : userVaddrStart + m₂.userVaddr.size = kernelStart
  pages : ∀ w, m₁.Heap dirs .kernel w → m₂.pageAt kernelDir w = m₁.pageAt kernelDir w

/-- The child is switched to. -/
theorem Forked.childRuns (forked : Forked m m₁ dirs parent child c) (rn : Runs m dirs parent) :
    ∃ m₂, m₁.processActivate child = .ok m₂ ∧ ChildRuns m₁ m₂ dirs c ∧
      ∀ w, m₂.pageAt c w = m₁.pageAt c w := by
  have ord₁ := forked.agrees.ordered
  have held := (forked.holds (.inr (.inr rfl))).1
  refine ⟨{ m₁ with cr3 := c, userVaddr := child.vaddrBitmap }, ?_,
    ⟨ord₁.activate c _, rfl, rfl, ?_, fun _ _ => rfl⟩, fun _ => rfl⟩
  · unfold processActivate
    rw [ord₁.pageDirActivate_eq (.inl forked.agrees.run) ⟨held.1, held.2.1⟩ forked.pgdir]
    rfl
  · show userVaddrStart + child.vaddrBitmap.size = kernelStart
    rw [forked.bitmap, rn.bitmap]
    exact rn.agrees.userSize rn.run

/-- The child frees a page that it has. -/
theorem ChildRuns.mfreePage (runs : ChildRuns m₁ m₂ dirs c)
    (low : userVaddrStart ≤ v ∧ v < kernelStart) (there : (m₂.pageAt c v).isSome = true) :
    ∃ m₃, m₂.mfreePage .user v 1 = .ok m₃ ∧ ChildRuns m₁ m₃ dirs c := by
  have run : m₂.cr3 ∈ c :: dirs := runs.cr3 ▸ List.mem_cons_self
  obtain ⟨f, hf⟩ := Option.isSome_iff_exists.mp there
  have one {w : Nat} (h : v ≤ w) (h' : w < v + 1) : w = v := by omega
  have userSize := runs.userSize
  have heap : m₂.Heap (c :: dirs) .user v :=
    ⟨low.1, by show v < userVaddrStart + m₂.userVaddr.size; omega, fun _ => run⟩
  obtain ⟨m₃, un, hfree⟩ :=
    runs.ordered.mfreePage_eq (.inl (.inr run)) (fun _ => runs.userSize) Nat.one_pos
    (fun w h h' => one h h' ▸ heap)
    (fun w h h' => by
      rw [one h h']
      show ∃ f, m₂.pageAt m₂.cr3 v = some f ∧ f ∉ c :: dirs
      rw [runs.cr3]
      exact ⟨f, hf, runs.ordered.user_not_dir List.mem_cons_self low.2 hf⟩)
  refine ⟨_, hfree, reserve_ordered un.ordered, un.cr3.trans runs.cr3,
    un.kernelVaddr.trans runs.heap, ?_, fun w hw => ?_⟩
  · show userVaddrStart + (setBits m₃.userVaddr _ _ _).size = kernelStart
    rw [size_setBits, un.userVaddr]
    exact runs.userSize
  · refine (reserve_frameIn (p := .page kernelDir w)).trans ?_
    have valid : m₂.Valid (c :: dirs) (.page kernelDir w) := by
      obtain ⟨lo, hi⟩ := heap_kernel.mp hw
      exact valid_page_kernel lo (by rw [runs.heap]; exact hi)
    refine (un.pages kernelDir w valid fun h => ?_).trans (runs.pages w hw)
    have e : kernelDir = m₂.cr3 := h.1
    exact runs.ordered.kernelDir_not_mem (e ▸ run)

/-- `exit` and `wait` of a child that runs come to their end. -/
theorem Forked.exitWait (forked : Forked m m₁ dirs parent child c) (rn : Runs m dirs parent)
    (runs : ChildRuns m₁ m₂ dirs c) :
    ∃ m₃ m₄ m₅, m₂.releaseProgResource child = .ok m₃ ∧ m₃.processActivate parent = .ok m₄ ∧
      m₄.threadExit child = .ok m₅ := by
  have ord₂ := runs.ordered
  have cr3₂ := runs.cr3
  have ownPgdir : child.Owns child.pgdir := .inr (.inr rfl)
  have pages₂ {w : Nat} (h : m₁.HoldsPage dirs w) : m₂.pageAt kernelDir w = m₁.pageAt kernelDir w :=
    runs.pages w h.1
  -- its frames are given back
  have loop := ord₂.releaseLoop_total (cr3₂ ▸ List.mem_cons_self)
    (show m₂.Addr (c :: dirs) .kernel child.pgdir from
      ⟨(forked.holds ownPgdir).1.1, by
        show _ < kHeapStart + m₂.kernelVaddr.size
        rw [runs.heap]
        exact (heap_kernel.mp (forked.holds ownPgdir).1).2⟩)
    (by rw [pages₂ (forked.holds ownPgdir), cr3₂]; exact forked.pgdir)
  obtain ⟨m₃, hloop, fr⟩ := total_iff.mp loop
  rw [cr3₂] at fr
  have ord₃ := fr.ordered ord₂ forked.new
  have act₃ : m₃.Active dirs := fr.active ord₂ cr3₂
  have holds₃ {w : Nat} (h : m₁.HoldsPage dirs w) : m₃.HoldsPage dirs w := by
    have same := pages₂ h
    obtain ⟨heap, f, hf, notDir⟩ := h
    refine ⟨heap_kernel.mpr ?_, f, by rw [fr.pageAt, same]; exact hf, notDir⟩
    rw [fr.shape.heap, runs.heap]
    exact heap_kernel.mp heap
  obtain ⟨m₄, hbits, gives⟩ :=
    ord₃.mfreeKernel_total act₃ (fun h => absurd h (by rw [fr.cr3, cr3₂]; exact forked.new))
      (v := child.vaddrBits)
    (n := 22) (by decide) fun w h =>
      holds₃ (forked.holds (.inr (.inl ⟨h.1, by rw [bitmapPgCnt_eq]; have := h.2; omega⟩)))
  have release : m₂.releaseProgResource child = .ok m₄ := by
    unfold releaseProgResource
    rw [hloop, ok_bind, forked.bitmap, rn.released]
    exact hbits
  have outside {w : Nat} (h : ¬ InRange child.vaddrBits bitmapPgCnt w) :
      ¬ InRange child.vaddrBits 22 w := fun hc =>
    h ⟨hc.1, by rw [bitmapPgCnt_eq]; have := hc.2; omega⟩
  -- the parent runs
  have heapParent : m₃.Heap dirs .kernel parent.pgdir := by
    refine heap_kernel.mpr ?_
    rw [fr.shape.heap, runs.heap, forked.shape.heap]
    exact heap_kernel.mp rn.pgdir.1
  have held₄ : m₄.pageAt kernelDir parent.pgdir = some m.cr3 := by
    have heap₁ : m₁.Heap dirs .kernel parent.pgdir :=
      (heap_same forked.shape forked.cr3).mpr rn.pgdir.1
    rw [gives.pages _ heapParent (outside fun h => forked.parentPage rn (.inr (.inl h))), fr.pageAt,
      runs.pages _ heap₁]
    exact forked.stays _ _ rn.pgdir.1 rn.pgdir.2
  have second : m₄.processActivate parent =
      .ok { m₄ with cr3 := m.cr3, userVaddr := parent.vaddrBitmap } := by
    have addr₄ : m₄.Addr dirs .kernel parent.pgdir :=
      ⟨heapParent.1, by rw [gives.heap]; exact heapParent.2.1⟩
    unfold processActivate
    rw [gives.ordered.pageDirActivate_eq gives.active addr₄ held₄]
    rfl
  generalize hm₅ :
    ({ m₄ with cr3 := m.cr3, userVaddr := parent.vaddrBitmap } : Memory) = m₅ at second
  have ord₅ : m₅.Ordered dirs := by
    rw [← hm₅]
    exact gives.ordered.activate m.cr3 parent.vaddrBitmap
  have act₅ : m₅.Active dirs := .inl (.inr (by rw [← hm₅]; exact rn.run))
  have size₅ : userVaddrStart + m₅.userVaddr.size = kernelStart := by
    rw [← hm₅, rn.bitmap]
    exact rn.agrees.userSize rn.run
  have holds₅ {w : Nat} (h : m₁.HoldsPage dirs w) (out : ¬ InRange child.vaddrBits bitmapPgCnt w) :
      m₅.HoldsPage dirs w := by
    have h₄ := gives.holds (holds₃ h) (outside out)
    rw [← hm₅]
    exact ⟨⟨h₄.1.1, h₄.1.2.1, nofun⟩, h₄.2⟩
  -- the child's directory and task structure are given back
  have one {v w : Nat} (h : InRange v 1 w) : w = v := by
    unfold InRange at h
    omega
  obtain ⟨m₆, hpgdir, gives₆⟩ :=
    ord₅.mfreeKernel_total act₅ (fun _ => size₅) (v := child.pgdir) Nat.one_pos fun w h => by
    rw [one h]
    exact holds₅ (forked.holds ownPgdir) forked.separate.pgdir
  obtain ⟨m₇, hpcb, -⟩ :=
    gives₆.ordered.mfreeKernel_total gives₆.active (fun _ => by rw [gives₆.userVaddr]; exact size₅)
      (v := child.pcb)
    Nat.one_pos fun w h => by
      rw [one h]
      exact gives₆.holds (holds₅ (forked.holds (.inl rfl)) forked.separate.pcb) fun hc =>
        forked.separate.ne (one hc)
  refine ⟨m₄, m₅, m₇, release, second, ?_⟩
  unfold threadExit
  rw [hpgdir, ok_bind]
  exact hpcb

/-- A process with room forks, its child makes calls that leave it running, and exits, and the
process waits. -/
theorem forkExitWait_total (calls : List UserCall) (rn : Runs m dirs parent)
    (room : ForkRoom m parent) (makes : ∀ c child m₁ m₂, Forked m m₁ dirs parent child c →
      ChildRuns m₁ m₂ dirs c → (∀ w, m₂.pageAt c w = m₁.pageAt c w) →
      ∃ m₃, calls.foldlM UserCall.run m₂ = .ok m₃ ∧ ChildRuns m₁ m₃ dirs c) :
    ∃ m', forkExitWait m parent calls = .ok (some m') := by
  cases hfork : m.sysFork parent with
  | error e => exact absurd room ((sysFork_ensures rn).of_error hfork)
  | ok r =>
    obtain ⟨r, m₁⟩ := r
    have post := (sysFork_ensures rn).of_ok hfork
    cases r with
    | none => exact absurd room post
    | some child =>
      obtain ⟨c, forked⟩ := post
      obtain ⟨m₂, first, runs, same⟩ := forked.childRuns rn
      obtain ⟨m₃, hcalls, runs⟩ := makes c child m₁ m₂ forked runs same
      obtain ⟨m₄, m₅, m₆, release, second, exit⟩ := forked.exitWait rn runs
      refine ⟨m₆, ?_⟩
      unfold forkExitWait
      rw [hfork, ok_bind]
      dsimp only
      rw [first, ok_bind, hcalls, ok_bind, release, ok_bind, second, ok_bind, exit]
      rfl

theorem not_sameBitmaps (h : m.bit .kernel v = false) (h' : m'.bit .kernel v = true) :
    ¬ SameBitmaps m m' := by
  rintro ⟨-, -, same⟩
  have agree : m'.bit .kernel v = m.bit .kernel v := congrArg (Bitmap.test · (v - kHeapStart)) same
  rw [h, h'] at agree
  cases agree

/-- FORK, EXIT AND WAIT LEAK A PAGE. For every process that is running, every sequence of calls of
the child and every state that a `fork`, `exit` and `wait` lead to: the bitmaps are not what they
were before the `fork`. -/
theorem fork_exit_wait_leaks (dirs : List Nat) (m m' : Memory) (parent : Proc)
    (calls : List UserCall) (runs : Runs m dirs parent)
    (h : forkExitWait m parent calls = .ok (some m')) : ¬ SameBitmaps m m' := by
  obtain ⟨v, clear, set⟩ := forkExitWait_leaks runs h
  exact not_sameBitmaps clear set

/-- The theorem for the first process, whose child frees the page that it has got from it. -/
theorem fork_exit_wait_leaks_freed : ∃ (m m' : Memory) (parent : Proc),
    forkExitWait m parent [.mfreePage userVaddrStart 1] = .ok (some m') ∧ ¬ SameBitmaps m m' := by
  obtain ⟨m, c, parent, runs, room, mapped⟩ := first_process
  obtain ⟨m', h⟩ := forkExitWait_total [.mfreePage userVaddrStart 1] runs room
    fun c child m₁ m₂ forked childRuns same => by
      have low : userVaddrStart < kernelStart := by decide
      obtain ⟨m₃, hfree, childRuns⟩ :=
        childRuns.mfreePage ⟨Nat.le_refl _, low⟩ (by rw [same, forked.mapped _ low]; exact mapped)
      refine ⟨m₃, ?_, childRuns⟩
      rw [List.foldlM_cons, show UserCall.run m₂ (.mfreePage userVaddrStart 1) = .ok m₃ from hfree,
        ok_bind]
      rfl
  exact ⟨m, m', parent, h, fork_exit_wait_leaks [c] m m' parent _ runs h⟩

/-- A process with a page of its own forks, its child exits, and it waits: a bit of the kernel heap
that was clear is set. -/
theorem first_fork_leaks : ∃ (m m' : Memory) (c : Nat) (parent : Proc), Runs m [c] parent ∧
    (∃ w < kernelStart, (m.pageAt m.cr3 w).isSome = true) ∧
    forkExitWait m parent [] = .ok (some m') ∧ ¬ SameBitmaps m m' := by
  obtain ⟨m, c, parent, runs, room, mapped⟩ := first_process
  obtain ⟨m', h⟩ :=
    forkExitWait_total [] runs room fun _ _ _ m₂ _ childRuns _ => ⟨m₂, rfl, childRuns⟩
  obtain ⟨v, clear, set⟩ := forkExitWait_leaks runs h
  exact ⟨m, m', c, parent, runs, ⟨userVaddrStart, by decide, mapped⟩, h, not_sameBitmaps clear set⟩

end SeekingOs
