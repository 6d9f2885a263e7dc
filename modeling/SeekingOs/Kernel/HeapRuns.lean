import SeekingOs.Kernel.Heap

/-!
# Runs of `sys_malloc` and `sys_free`

What holds of the heap of a task in every state that its calls lead to from one without blocks, and
that every call it may make comes to its end. `malloc_page` asserts that it is asked for fewer than
3840 pages, so the requests are those that ask for fewer.
-/

namespace SeekingOs

open Lib

namespace TaskHeap

/-! ## What is to hold -/

/-- A task without blocks, in a memory where bitmaps and tables agree. A pool has at most 65535
pages: `mem_pool_init` counts them in 16 bits. -/
structure Start (dirs : List Nat) (pf : PoolFlags) (s : TaskHeap) : Prop where
  agrees : s.alloc.memory.Agrees dirs
  user : pf = .user → s.alloc.memory.cr3 ∈ dirs
  live : s.live = ∅
  lists : ∀ i, s.alloc.descs.freeList i = []
  poolSize : s.alloc.poolSize pf ≤ 65535 * 4096

/-- THE HEAP IS SOUND: blocks are large enough, and apart from each other and from headers; the
counters count, and each block is live or on its list once; the pages and frames taken since the
start are those of arenas with a live block. -/
structure Sound (dirs : List Nat) (pf : PoolFlags) (s₀ s : TaskHeap) : Prop where
  enough : ∀ b ∈ s.live, s.asked b ≤ s.alloc.descs.room b
  apart : ∀ b ∈ s.live, ∀ c ∈ s.live, b ≠ c → ∀ a, s.alloc.descs.InBlock b a →
    ¬ s.alloc.descs.InBlock c a
  headers : ∀ b ∈ s.live, ∀ p, InUse s.live p → ∀ a, s.alloc.descs.InBlock b a →
    ¬ BlockDescs.InHeader p a
  counts : ∀ p i, InUse s.live p → (s.alloc.descs.arena p).desc = some i →
    (s.alloc.descs.arena p).cnt = (s.alloc.descs.freeIn i p).length ∧
      ∀ b, IsBlock i p b → (s.alloc.descs.freeList i).count b = if b ∈ s.live then 0 else 1
  pages : ∀ w, s.alloc.memory.Heap dirs pf w → (s.alloc.memory.bit pf w = true ↔
    s₀.alloc.memory.bit pf w = true ∨ ∃ p, InUse s.live p ∧ s.alloc.descs.InPages p w)
  frames : ∀ g, (s.alloc.memory.pool pf).Has g ↔
    (s₀.alloc.memory.pool pf).Has g ∨ ∃ p w, InUse s.live p ∧ s.alloc.descs.InPages p w ∧
      s.alloc.memory.pageAt s.alloc.memory.cr3 w = some g
  back : s.live = ∅ → s.alloc.memory.vaddrBitmap pf = s₀.alloc.memory.vaddrBitmap pf ∧
    (s.alloc.memory.pool pf).poolBitmap = (s₀.alloc.memory.pool pf).poolBitmap

/-- The words of a block are the same. -/
def SameBlock (s s' : TaskHeap) (c : Nat) : Prop :=
  s'.asked c = s.asked c ∧ ∀ a, s.alloc.descs.InBlock c (4 * a) → s'.alloc.descs.InBlock c (4 * a) ∧
    s'.alloc.memory.word a = s.alloc.memory.word a

/-- What a step is to do. A block that is got is new, large enough and clear; the pages of an arena
go with its last block; no other block changes. -/
def Did (pf : PoolFlags) (s s' : TaskHeap) : HeapEvent → Option Nat → Prop
  | .malloc size _, b => ∃ b', b = some b' ∧ b' ∉ s.live ∧ s'.live = insert b' s.live ∧
      size ≤ s'.alloc.descs.room b' ∧
      (∀ a, s'.alloc.descs.InBlock b' (4 * a) → s'.alloc.memory.word a = some 0) ∧
      ∀ c ∈ s.live, s.SameBlock s' c
  | .free ptr _, _ => s'.live = s.live.erase ptr ∧
      (∀ w, s.alloc.descs.InPages (block2arena ptr) w → (s'.alloc.memory.bit pf w = false ↔
        ∀ c ∈ s.live, c ≠ ptr → block2arena c ≠ block2arena ptr)) ∧
      ∀ c ∈ s'.live, s.SameBlock s' c
  | .store a w, _ => s'.live = s.live ∧ s'.alloc.memory.word a = some w ∧
      ∀ c ∈ s.live, ¬ s.alloc.descs.InBlock c (4 * a) → s.SameBlock s' c

/-! ## What is kept -/

variable {dirs : List Nat} {pf : PoolFlags} {s₀ s s' : TaskHeap} {ptr size a w : Nat}
  {words : Nat → Nat}

/-- What every step keeps. -/
structure Inv (dirs : List Nat) (pf : PoolFlags) (s₀ s : TaskHeap) : Prop where
  kept : Allocator.Kept (s₀.alloc.memory.HandedOut dirs pf) s.alloc (InUse s.live) s.live
  enough : ∀ b ∈ s.live, s.asked b ≤ s.alloc.descs.room b
  poolSize : s.alloc.poolSize pf ≤ 2 ^ 28

theorem keeper (s₀ : TaskHeap) (dirs : List Nat) (pf : PoolFlags) :
    Memory.Keeper dirs pf (s₀.alloc.memory.HandedOut dirs pf) :=
  Memory.handedOut_keeper s₀.alloc.memory dirs pf

theorem Start.inv (start : s.Start dirs pf) : Inv dirs pf s s := by
  have none (p : Nat) : ¬ InUse s.live p := by
    rintro ⟨b, hb, -⟩
    rw [start.live] at hb
    exact absurd hb (Finset.notMem_empty b)
  have noBlock (b : Nat) : b ∉ s.live := fun hb => none _ ⟨b, hb, rfl⟩
  refine
    { kept :=
        { order := ?_, laid := ⟨fun p h => (none p h).elim, fun p _ _ h => (none p h).elim⟩,
          pages := ?_ },
      enough := fun b hb => (noBlock b hb).elim, poolSize := start.poolSize.trans (by decide) }
  · refine
      { arenas := fun b hb => (noBlock b hb).elim, blocks := fun b hb => (noBlock b hb).elim,
        descs := fun p _ h => (none p h).elim,
        lists := fun i b => ?_, nodup := fun i => ?_, counts := fun p _ h => (none p h).elim }
    · rw [start.lists]
      refine iff_of_false List.not_mem_nil ?_
      rintro ⟨p, hp, -⟩
      exact none p hp
    · rw [start.lists]
      exact List.nodup_nil
  · apply Memory.HandedOut.start start.agrees start.user
    rintro w ⟨p, hp, -⟩
    exact none p hp

theorem Inv.sound (inv : Inv dirs pf s₀ s) : s₀.Sound dirs pf s := by
  obtain ⟨kept, enough, -⟩ := inv
  have order := kept.order
  refine
    { enough, apart := fun b hb c hc hne a => order.apart kept.laid hb hc hne,
      headers := fun b hb p hp a => order.header_apart kept.laid hb hp,
      counts := fun p i hp desc => ⟨order.counts p i hp desc, fun b hb => ?_⟩,
      pages := kept.pages.bits, frames := fun g => ?_,
      back := fun none => ?_ }
  · by_cases hlive : b ∈ s.live
    · rw [if_pos hlive]
      exact List.count_eq_zero_of_not_mem fun h => (order.mem_list hp desc hb).mp h hlive
    · rw [if_neg hlive]
      exact List.count_eq_one_of_mem (order.nodup i) ((order.mem_list hp desc hb).mpr hlive)
  · rw [kept.pages.frames]
    apply or_congr_right
    constructor
    · rintro ⟨w, ⟨p, hp, hw⟩, hg⟩
      rw [← heap_pageAt kept.pages.agrees (kept.pages.heap w ⟨p, hp, hw⟩)] at hg
      exact ⟨p, w, hp, hw, hg⟩
    · rintro ⟨p, w, hp, hw, hg⟩
      rw [heap_pageAt kept.pages.agrees (kept.pages.heap w ⟨p, hp, hw⟩)] at hg
      exact ⟨w, ⟨p, hp, hw⟩, hg⟩
  · apply kept.pages.back
    rintro w ⟨p, ⟨b, hb, -⟩, -⟩
    rw [none] at hb
    exact absurd hb (Finset.notMem_empty b)

/-! ## The steps -/

/-- Blocks that keep their room. -/
theorem inBlock_same {d d' : BlockDescs} {c x : Nat} (h : d'.room c = d.room c) :
    d'.InBlock c x ↔ d.InBlock c x := by
  unfold BlockDescs.InBlock
  rw [h]

theorem Inv.malloc (inv : Inv dirs pf s₀ s) (fits : s.Fits pf (· < 3840) size) :
    ∃ s' b, s.step pf (.malloc size words) = .ok (s', b) ∧ Inv dirs pf s₀ s' ∧
      s.Did pf s' (.malloc size words) b := by
  obtain ⟨b, alloc, hcall, serves⟩ :=
    inv.kept.sysMalloc_fits (keeper s₀ dirs pf) inv.poolSize fits.nonzero fits.small fits.pages
  obtain ⟨m, hwrites, kept, zero, same⟩ := serves.writes (keeper s₀ dirs pf) words
  have other {c : Nat} (hc : c ∈ s.live) : c ≠ b := by
    rintro rfl
    exact serves.new hc
  refine ⟨⟨{ alloc with memory := m }, insert b s.live, Function.update s.asked b size⟩, some b, ?_,
    ⟨kept, fun c hc => ?_, ?_⟩, ?_⟩
  · show (s.alloc.sysMalloc pf size >>= _) = _
    rw [hcall, ok_bind]
    show (alloc.mallocWrites size b words >>= _) = _
    rw [hwrites]
    rfl
  · rcases Finset.mem_insert.mp hc with rfl | hc
    · show Function.update s.asked c size c ≤ alloc.descs.room c
      rw [Function.update_self]
      exact serves.enough
    · show Function.update s.asked b size c ≤ alloc.descs.room c
      rw [Function.update_of_ne (other hc), serves.rooms c hc]
      exact inv.enough c hc
  · show alloc.poolSize pf ≤ 2 ^ 28
    rw [serves.poolSize]
    exact inv.poolSize
  · refine ⟨b, rfl, serves.new, rfl, serves.enough, zero,
      fun c hc => ⟨Function.update_of_ne (other hc) _ _, fun a ha => ?_⟩⟩
    have ha' : alloc.descs.InBlock c (4 * a) := (inBlock_same (serves.rooms c hc)).mpr ha
    exact ⟨ha', (same c hc a ha').trans (serves.words a (inv.kept.block hc ha))⟩

theorem Inv.free (inv : Inv dirs pf s₀ s) (hptr : ptr ∈ s.live) :
    ∃ s' b, s.step pf (.free ptr words) = .ok (s', b) ∧ Inv dirs pf s₀ s' ∧
      s.Did pf s' (.free ptr words) b := by
  obtain ⟨m, hwrites, keptw, same⟩ := inv.kept.freeWrites (keeper s₀ dirs pf) hptr words
  obtain ⟨alloc, hcall, frees⟩ := keptw.sysFree (keeper s₀ dirs pf) hptr
  have kept := frees.kept
  refine ⟨⟨alloc, s.live.erase ptr, s.asked⟩, none, ?_, ⟨kept, fun c hc => ?_, ?_⟩, rfl,
    fun w hw => ?_, fun c hc => ⟨rfl, fun a ha => ?_⟩⟩
  · show (s.alloc.freeWrites ptr words >>= _) = _
    rw [hwrites, ok_bind]
    show (Allocator.sysFree { s.alloc with memory := m } pf ptr >>= _) = _
    rw [hcall]
    rfl
  · show s.asked c ≤ alloc.descs.room c
    rw [frees.rooms c hc]
    exact inv.enough c (Finset.mem_of_mem_erase hc)
  · show alloc.poolSize pf ≤ 2 ^ 28
    rw [frees.poolSize]
    exact inv.poolSize
  · -- the page was unused at the start, so that its bit is set only for an arena that is there
    have hp : InUse s.live (block2arena ptr) := ⟨ptr, hptr, rfl⟩
    have covers : s.alloc.descs.Covers (InUse s.live) w := ⟨_, hp, hw⟩
    have heap : alloc.memory.Heap dirs pf w := by
      rw [heap_same kept.pages.shape kept.pages.cr3,
        ← heap_same inv.kept.pages.shape inv.kept.pages.cr3]
      exact inv.kept.pages.heap w covers
    have bits := kept.pages.bits w heap
    rw [inv.kept.pages.unused w covers, or_iff_right Bool.false_ne_true] at bits
    rw [← Bool.not_eq_true, show alloc.memory.bit pf w = true ↔ _ from bits]
    constructor
    · intro gone c hc hne page
      have hc' : c ∈ s.live.erase ptr := Finset.mem_erase.mpr ⟨hne, hc⟩
      apply gone
      refine ⟨block2arena ptr, ⟨c, hc', page⟩, ?_⟩
      rw [← page] at hw ⊢
      exact (BlockDescs.inPages_same (frees.pages c hc')).mpr hw
    · rintro last ⟨_, ⟨c, hc, rfl⟩, hin⟩
      obtain ⟨hne, hlive⟩ := Finset.mem_erase.mp hc
      have hin := (BlockDescs.inPages_same (frees.pages c hc)).mp hin
      exact last c hlive hne (inv.kept.laid.apart _ _ w ⟨c, hlive, rfl⟩ hp hin hw)
  · have hc' := Finset.mem_of_mem_erase hc
    have ha' : alloc.descs.InBlock c (4 * a) := (inBlock_same (frees.rooms c hc)).mpr ha
    have page := (inv.kept.order.blocks c hc').inPages ha
    rw [show 4 * a / 4096 = a / 1024 by omega] at page
    exact ⟨ha', (frees.words a ⟨_, ⟨c, hc, rfl⟩, page⟩).trans (same c hc a ha)⟩

theorem Inv.store (inv : Inv dirs pf s₀ s) (en : ∃ b ∈ s.live, s.alloc.descs.InBlock b (4 * a)) :
    ∃ s' b, s.step pf (.store a w) = .ok (s', b) ∧ Inv dirs pf s₀ s' ∧
      s.Did pf s' (.store a w) b := by
  obtain ⟨b, hb, ha⟩ := en
  have covers := inv.kept.block hb ha
  obtain ⟨m, hput, kept, put⟩ :=
    inv.kept.putWords (keeper s₀ dirs pf) "store" (fun _ => w) [a] fun x hx =>
      List.mem_singleton.mp hx ▸ covers
  refine ⟨{ s with alloc := { s.alloc with memory := m } }, none, ?_,
    ⟨kept, inv.enough, inv.poolSize⟩, rfl, ?_,
    fun c hc hno => ⟨rfl, fun x hx => ⟨hx, ?_⟩⟩⟩
  · show (s.alloc.memory.putWords "store" (fun _ => w) [a] >>= _) = _
    rw [hput]
    rfl
  · exact (put a covers).trans (if_pos (List.mem_singleton_self a))
  · refine (put x (inv.kept.block hc hx)).trans (if_neg fun h => hno ?_)
    rw [← List.mem_singleton.mp h]
    exact hx

/-- EVERY STEP that a task may take comes to its end, does what it is to do, and keeps the
invariant. -/
theorem Inv.step (inv : Inv dirs pf s₀ s) {e : HeapEvent} (en : Enabled pf (· < 3840) s e) :
    ∃ s' b, s.step pf e = .ok (s', b) ∧ Inv dirs pf s₀ s' ∧ s.Did pf s' e b := by
  cases e with
  | malloc size words => exact inv.malloc en
  | free ptr words => exact inv.free en
  | store a w => exact inv.store en

/-- THE HEAP ALLOCATOR IS CORRECT for requests for fewer than 3840 pages: the heap is sound in every
state of every run, and every call comes to its end and does what it is to do. -/
theorem heap_correct (dirs : List Nat) (pf : PoolFlags) (s₀ s : TaskHeap) (start : s₀.Start dirs pf)
    (reach : (machine pf (· < 3840)).Reachable s₀ s) :
    s₀.Sound dirs pf s ∧ ∀ e, Enabled pf (· < 3840) s e → ∃ s' b, s.step pf e = .ok (s', b) ∧
      s.Did pf s' e b := by
  have inv : Inv dirs pf s₀ s := reach.invariant start.inv fun inv en st => by
    obtain ⟨s₁, b, hstep, inv', -⟩ := inv.step en
    cases hstep.symm.trans st
    exact inv'
  refine ⟨inv.sound, fun e en => ?_⟩
  obtain ⟨s', b, hstep, -, did⟩ := inv.step en
  exact ⟨s', b, hstep, did⟩

/-! ### After the start of the kernel -/

/-- The kernel's heap after its start. -/
def boot : TaskHeap := ⟨Allocator.boot, ∅, fun _ => 0⟩

theorem boot_start : boot.Start [] .kernel where
  agrees := boot_agrees
  user := nofun
  live := rfl
  lists _ := rfl
  poolSize := by decide

/-- There are addresses and frames for up to 3840 pages. -/
theorem boot_available {n : Nat} (h : 0 < n) (h' : n ≤ 3840) :
    boot.alloc.memory.Available .kernel n where
  addresses := ⟨0, by
    show 0 + n ≤ (clearBitmap 480).size
    rw [size_clearBitmap]
    omega, fun i _ _ => test_clearBitmap 480 i⟩
  takes i _ := ⟨nofun, by
    show n ≤ boot.alloc.memory.kernelPool.freeCount
    rw [show boot.alloc.memory.kernelPool.freeCount = _ from freeCount_clearBitmap 480 512]
    omega⟩

theorem boot_fits : boot.Fits .kernel (· < 3840) 5000 where
  nonzero := by decide
  small := by decide
  pages n h := by
    rw [show boot.alloc.pagesAsked .kernel 5000 = some 2 from Allocator.boot_asked] at h
    cases h
    exact ⟨by decide, boot_available (by decide) (by decide)⟩

/-- The theorem at the start, with a request for two pages. -/
theorem heap_correct_boot : boot.Sound [] .kernel boot ∧ boot.Fits .kernel (· < 3840) 5000 ∧
    ∃ s' b, boot.step .kernel (.malloc 5000 fun _ => 0) = .ok (s', b) ∧
      boot.Did .kernel s' (.malloc 5000 fun _ => 0) b :=
  have correct := heap_correct [] .kernel boot boot boot_start (.start boot)
  ⟨correct.1, boot_fits, correct.2 (.malloc 5000 fun _ => 0) boot_fits⟩

theorem last_page_fits : boot.Fits .kernel (fun _ => True) 15728000 where
  nonzero := by decide
  small := by decide
  pages n h := by
    unfold Allocator.pagesAsked at h
    rw [if_neg (by decide), if_pos (by decide), show largePages 15728000 = 3840 by decide] at h
    cases h
    exact ⟨trivial, boot_available (by decide) (by decide)⟩

/-- ALL PAGES. A request for 3840 pages, which are all free, fails the assertion of `malloc_page`.
-/
theorem all_pages_stop :
    ¬ ∀ (dirs : List Nat) (pf : PoolFlags) (s₀ s : TaskHeap), s₀.Start dirs pf →
    (machine pf fun _ => True).Reachable s₀ s →
    s₀.Sound dirs pf s ∧ ∀ e, Enabled pf (fun _ => True) s e → ∃ s' b, s.step pf e = .ok (s', b) ∧
      s.Did pf s' e b := by
  intro claim
  obtain ⟨s', b, hstep, -⟩ :=
    (claim [] .kernel boot boot boot_start (.start boot)).2 (.malloc 15728000 fun _ => 0)
      last_page_fits
  obtain ⟨⟨r, alloc⟩, hcall, -⟩ :=
    bind_eq_ok.mp (show (boot.alloc.sysMalloc .kernel 15728000 >>= _) = _ from hstep)
  unfold Allocator.sysMalloc at hcall
  rw [if_neg (by decide), if_pos (by decide)] at hcall
  obtain ⟨⟨a, m⟩, hpage, -⟩ := bind_eq_ok.mp hcall
  have ag : boot.alloc.memory.Agrees [] := boot_agrees
  have user : PoolFlags.kernel = .user → boot.alloc.memory.cr3 ∈ [] := nofun
  have fits : boot.alloc.memory.PageFits .kernel (largePages 15728000) :=
    (Memory.mallocPage_iff ag user).mp ⟨_, hpage⟩
  have count := fits.count.2
  rw [show largePages 15728000 = 3840 by decide] at count
  exact Nat.lt_irrefl _ count

end TaskHeap

end SeekingOs
