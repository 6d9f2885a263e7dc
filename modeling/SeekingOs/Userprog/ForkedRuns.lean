import SeekingOs.Userprog.ForkCopies
import SeekingOs.Userprog.ForkedCalls

/-!
# Parent and child after a fork

The headers that `sys_fork` copies lead to the descriptors of the parent. As long as no process
frees a small block whose header leads to the descriptors of another one, the two heaps have nothing
to do with each other, whatever the order of the calls. A child that frees such a block puts it on
the list of its parent.
-/

namespace SeekingOs

open Lib

/-! ## The pages of another process -/

namespace Memory

variable {m m' m₀ : Memory} {dirs dirs' : List Nat} {c n v w : Nat} {b : Bitmap}
  {R old : Nat → Prop}

/-- Pages whose bits are set belong to the process that runs: no directory is in a page below the
kernel. -/
theorem owns_user (ag : m.Agrees dirs) (run : m.cr3 ∈ dirs)
    (set : ∀ w, R w → userVaddrStart ≤ w ∧ w < kernelStart ∧
      m.userVaddr.test (w - userVaddrStart) = true) : m.Owns dirs .user R where
  agrees := ag
  user _ := run
  heap w h := by
    obtain ⟨low, high, -⟩ := set w h
    refine ⟨low, ?_, fun _ => run⟩
    rw [show vaddrStart .user + (m.vaddrBitmap .user).size = _ from ag.userSize run]
    exact high
  used w h := (set w h).2.2
  notDir w h d hd held := ag.ordered.user_not_dir run (set w h).2.1 held hd

theorem Owns.set (own : m.Owns dirs .user R) (h : R w) :
    userVaddrStart ≤ w ∧ w < kernelStart ∧ m.userVaddr.test (w - userVaddrStart) = true := by
  obtain ⟨low, high, -⟩ := own.heap w h
  rw [show vaddrStart .user + (m.vaddrBitmap .user).size = _ from
    own.agrees.userSize (own.user rfl)] at high
  exact ⟨low, high, own.used w h⟩

/-- The same bitmap marks them in another memory. -/
theorem Owns.transfer (own : m.Owns dirs .user R) (ag : m'.Agrees dirs') (run : m'.cr3 ∈ dirs')
    (same : m'.userVaddr = m.userVaddr) : m'.Owns dirs' .user R := by
  refine owns_user ag run fun w h => ?_
  rw [same]
  exact own.set h

/-- The process that runs does not touch the pages of another directory. -/
theorem Owns.leaves (own : m.Owns dirs .user R) (hc : c ∈ dirs) (ne : m.cr3 ≠ c)
    (wr : Writes m m' dirs (m.Frames .user R)) : Leaves m m' [c] where
  pages d hd w hw := by
    obtain rfl := List.mem_singleton.mp hd
    exact wr.frames (.page d w) (Or.inl ⟨hc, hw⟩)
  words d hd w hw g h := by
    obtain rfl := List.mem_singleton.mp hd
    apply wr.words
    rintro ⟨w', hw', held⟩
    have here : m.Valid dirs (.page m.cr3 w') := Or.inl ⟨own.user rfl, (own.set hw').2.1⟩
    exact ne (Place.page.inj (own.agrees.ordered.inj here (Or.inl ⟨hc, hw⟩) held h)).1

theorem Allotted.leaves (al : Allotted m m' dirs .user v n) (ord : m.Ordered dirs) (hc : c ∈ dirs)
    (ne : m.cr3 ≠ c) : Leaves m m' [c] where
  pages d hd w hw := by
    obtain rfl := List.mem_singleton.mp hd
    obtain ⟨i, -, maps⟩ := al.maps
    exact (maps.pages d w (reserve_shape.valid.mpr (Or.inl ⟨hc, hw⟩)) fun h => ne h.1.symm).trans
      (reserve_frameIn (p := .page _ _))
  words d hd w hw g h := by
    obtain rfl := List.mem_singleton.mp hd
    exact al.content (Or.inl ⟨hc, hw⟩) h (ord.user_not_dir hc hw h)

theorem Released.leaves (re : Released m m' dirs .user v n) (ag : m.Agrees dirs) (hc : c ∈ dirs)
    (ne : m.cr3 ≠ c) : Leaves m m' [c] where
  pages d hd w hw := by
    obtain rfl := List.mem_singleton.mp hd
    obtain ⟨m₁, unmaps, rfl⟩ := re.unmaps
    exact (reserve_frameIn (p := .page _ _)).trans
      (unmaps.pages d w (Or.inl ⟨hc, hw⟩) fun h => ne h.1.symm)
  words d hd w hw g h := by
    obtain rfl := List.mem_singleton.mp hd
    exact re.content ag (Or.inl ⟨hc, hw⟩) h

theorem Leaves.refl (m : Memory) (dirs : List Nat) : Leaves m m dirs :=
  ⟨fun _ _ _ _ => rfl, fun _ _ _ _ _ _ => rfl⟩

/-- THE PAGES OF A HEAP, with the pages `old` of blocks that are not to be freed. -/
structure SetAside (dirs : List Nat) (old : Nat → Prop) (m : Memory) (R : Nat → Prop) : Prop where
  owns : m.Owns dirs .user fun w => R w ∨ old w
  apart : ∀ w, R w → ¬ old w

/-- Meanwhile, since `m₀`, the pages of the directory `c` are left alone. -/
structure Beside (m₀ : Memory) (c : Nat) (dirs : List Nat) (old : Nat → Prop) (m : Memory)
    (R : Nat → Prop) : Prop extends SetAside dirs old m R where
  ne : m.cr3 ≠ c
  leaves : Leaves m₀ m [c]

theorem beside_keeper (m₀ : Memory) (hc : c ∈ dirs) (old : Nat → Prop) :
    Keeper dirs .user (Beside m₀ c dirs old) where
  owns be := be.owns.mono fun w h => .inl h
  writes {m m' R} be wr := by
    have wr' : Writes m m' dirs (m.Frames .user fun w => R w ∨ old w) :=
      wr.mono fun g ⟨w, h, hg⟩ => ⟨w, .inl h, hg⟩
    exact ⟨⟨be.owns.writes wr', be.apart⟩, wr.cr3 ▸ be.ne,
      be.leaves.trans (be.owns.leaves hc be.ne wr')⟩
  mallocPage {m m' R n v} be h := by
    have al := mallocPage_allotted be.owns.agrees be.owns.user h
    obtain ⟨own, new, -⟩ := be.owns.mallocPage h
    refine ⟨⟨own.mono fun w hw => ?_, fun w hw => ?_⟩, al.cr3 ▸ be.ne,
      be.leaves.trans (al.leaves be.owns.agrees.ordered hc be.ne)⟩
    · tauto
    · rcases hw with hw | hw
      · exact be.apart w hw
      · exact fun h => new w hw.1 hw.2 (.inr h)
  mfreePage {m m' R n v} be hn range h := by
    obtain ⟨m₁, hcall, re, own, -⟩ := be.owns.mfreePage hn fun w h h' => .inl (range w h h')
    obtain rfl := Except.ok.inj (hcall.symm.trans h)
    refine ⟨⟨own.mono fun w hw => ?_, fun w hw => be.apart w hw.1⟩, re.cr3 ▸ be.ne,
      be.leaves.trans (re.leaves be.owns.agrees hc be.ne)⟩
    rcases hw with hw | hw
    · exact ⟨.inl hw.1, hw.2⟩
    · exact ⟨.inr hw, fun hin => be.apart w (range w hin.1 hin.2) hw⟩

/-- What the other process sees still agrees, when its pages are left alone. -/
theorem Leaves.agrees (leaves : Leaves m m' [c]) (ag : m'.Agrees dirs) (hc : c ∈ dirs)
    (other : ({ m with cr3 := c, userVaddr := b } : Memory).Agrees dirs) :
    ({ m' with cr3 := c, userVaddr := b } : Memory).Agrees dirs where
  ordered := ag.ordered.activate c b
  run := .inr hc
  userSize := other.userSize
  bits pf w h := by
    cases pf with
    | kernel => exact ag.bits .kernel w ⟨h.1, h.2.1, nofun⟩
    | user =>
      have low : w < kernelStart := by
        rw [← show userVaddrStart + b.size = kernelStart from other.userSize hc]
        exact h.2.1
      refine (other.bits .user w ⟨h.1, h.2.1, fun _ => hc⟩).trans ?_
      show (m.pageAt c w).isSome = true ↔ (m'.pageAt c w).isSome = true
      rw [leaves.pages c (List.mem_singleton_self c) w low]

end Memory

namespace ForkedHeaps

open Memory Allocator

/-! ## What is to hold -/

/-- A free block of an arena that is the process's own. -/
structure OwnBlock (s : ForkedHeaps) (p : Side) (i b : Nat) : Prop where
  header : ((s.space p).arena (block2arena b)).desc = some (.side p, i)
  block : IsBlock i (block2arena b) b
  page : (s.view p).bit .user (block2arena b) = true
  free : b ∉ s.live p

/-- EACH LIST of a process has blocks of its own arenas. -/
def OwnLists (s : ForkedHeaps) : Prop :=
  ∀ p, ∀ i < descCnt, ∃ l : List Nat, (s.nodes p).IsList (.head (.side p) i) (.tail (.side p) i)
    (l.map .block) ∧ ∀ b ∈ l, s.OwnBlock p i b

/-- The descriptors, headers, links and pages of a process are as they were. -/
structure Untouched (s s' : ForkedHeaps) (q : Side) : Prop where
  space : s'.space q = s.space q
  descs : s'.descs (.side q) = s.descs (.side q)
  pages : Leaves s.memory s'.memory [(s.space q).cr3]

/-- The pages that a request may ask `malloc_page` for. -/
def requestPages (size : Nat) : Nat := if size > 1024 then largePages size else 1

/-- A call comes to its end and touches nothing of the other process, or it is a request for which
`malloc_page` fails. -/
def Minds (s : ForkedHeaps) (call : HeapsCall) : Prop :=
  (∃ s' r, s.step call = .ok (s', r) ∧ ∀ q, q ≠ call.caller → s.Untouched s' q) ∨
    ∃ p size e, call = .malloc p size ∧ s.step call = .error e ∧
      (s.view p).mallocPage .user (requestPages size) = .error e

/-- THE CONDITION on a call: a block that is freed is large, or the header of its arena leads to a
descriptor of the process that calls. -/
def OwnFree (s : ForkedHeaps) : HeapsCall → Prop
  | .malloc _ _ => True
  | .free p ptr => ∀ o i, ((s.space p).arena (block2arena ptr)).desc = some (o, i) → o = .side p

/-- THE HEAP OF A PROCESS that has blocks `old` of arenas of another one: all others are blocks of
`x`, which is in order. -/
structure HasHeap (s : ForkedHeaps) (p : Side) (dirs : List Nat) (old : Finset Nat)
    (x : Allocator) : Prop where
  reps : s.Reps p x (InUse (s.live p \ old))
  kept : Kept (SetAside dirs (InUse old)) x (InUse (s.live p \ old)) (s.live p \ old)
  old : ∀ b ∈ old, b ∈ s.live p ∧ ∃ o i, ((s.space p).arena (block2arena b)).desc = some (o, i) ∧
    o ≠ .side p

/-- A PROCESS THAT IS GOING TO FORK, with any heap; no header leads to the child, which is not there
yet. A pool has at most 65535 pages: `mem_pool_init` counts them in 16 bits. -/
structure Start (dirs : List Nat) (s : ForkedHeaps) (parent : Proc) : Prop where
  runs : Runs (s.view .parent) dirs parent
  heap : ∃ old x, s.HasHeap .parent dirs old x
  unborn : ∀ b ∈ s.live .parent, ∀ i, ((s.space .parent).arena (block2arena b)).desc ≠
    some (.side .child, i)
  poolSize : s.poolSize ≤ 65535 * 4096

/-- What every call keeps that meets the condition. -/
structure Inv (dirs : List Nat) (old : Side → Finset Nat) (s : ForkedHeaps) : Prop where
  heap : ∀ p, ∃ x, s.HasHeap p dirs (old p) x
  apart : ∀ p q, p ≠ q → (s.space p).cr3 ≠ (s.space q).cr3
  poolSize : s.poolSize ≤ 2 ^ 28

variable {s s' s₁ : ForkedHeaps} {p q : Side} {dirs : List Nat} {x : Allocator}
  {old : Side → Finset Nat} {before live : Finset Nat} {T : Nat → Prop}
  {b ptr size : Nat}

theorem HasHeap.cr3 (heap : s.HasHeap p dirs before x) : (s.space p).cr3 ∈ dirs := by
  rw [← heap.reps.cr3]
  exact heap.kept.pages.owns.user rfl

/-- A block that has been set aside is in no page of the heap. -/
theorem HasHeap.outside (heap : s.HasHeap p dirs before x) {w : Nat}
    (hw : InUse (s.live p \ before) w) : ¬ InUse before w :=
  heap.kept.pages.apart w (heap.kept.laid.covers hw)

theorem Inv.ownLists (inv : Inv dirs old s) : s.OwnLists := by
  intro p i hi
  obtain ⟨x, heap⟩ := inv.heap p
  refine ⟨x.descs.freeList i, heap.reps.lists.isList i hi, fun b hb => ?_⟩
  obtain ⟨w, hw, desc, hblock, free⟩ := (heap.kept.order.lists i b).mp hb
  obtain rfl := hblock.page
  refine ⟨?_, hblock, ?_, fun hlive => ?_⟩
  · rw [heap.reps.arenas _ hw]
    show (x.descs.arena (block2arena b)).desc.map _ = _
    rw [desc]
    rfl
  · rw [← heap.reps.memory]
    exact heap.kept.pages.owns.used _ (.inl (heap.kept.laid.covers hw))
  · apply free
    exact Finset.mem_sdiff.mpr ⟨hlive, fun hold => heap.outside hw ⟨b, hold, rfl⟩⟩

/-! ## A call -/

/-- A process whose lists, headers, links and pages are untouched has the heap that it had. -/
theorem HasHeap.untouched (heap : s.HasHeap q dirs before x) (un : s.Untouched s' q)
    (ag : (s'.view q).Agrees dirs) (poolSize : s'.poolSize = s.poolSize)
    (live : s'.live q = s.live q) : s'.HasHeap q dirs before { x with memory := s'.view q } where
  reps :=
    { memory := rfl, poolSize := heap.reps.poolSize.trans poolSize.symm,
      lists := heap.reps.lists.congr fun i _ y hy => by
        rcases mem_listNodes.mp hy with rfl | ⟨b, -, rfl⟩ | rfl
        · exact congrArg Prod.fst (congrFun un.descs i)
        · exact congrArg (fun sp => sp.links b) un.space
        · exact congrArg Prod.snd (congrFun un.descs i),
      arenas := fun w hw => by
        rw [un.space]
        rw [live] at hw
        exact heap.reps.arenas w hw }
  kept := by
    rw [live]
    refine ⟨heap.kept.order, heap.kept.laid, heap.kept.pages.owns.transfer ag ?_ ?_,
      heap.kept.pages.apart⟩
    · show (s'.space q).cr3 ∈ dirs
      rw [un.space]
      exact heap.cr3
    · rw [heap.reps.memory]
      exact congrArg HeapSpace.userVaddr un.space
  old b hb := by
    rw [live, un.space]
    exact heap.old b hb

/-- THE STEP, whatever the call: the process has a heap again, and the other one is untouched. -/
theorem Inv.next {x' : Allocator} (inv : Inv dirs old s) (hx : s.HasHeap p dirs (old p) x)
    (ne : q ≠ p) (others : ∀ q', q' ≠ p → q' = q) (reps : s₁.Reps p x' (InUse (live \ old p)))
    (kept : Kept (Beside x.memory (s.space q).cr3 dirs (InUse (old p))) x' (InUse (live \ old p))
      (live \ old p)) (keeps : s.KeepsTo s₁ p T) (outside : ∀ w, T w → ¬ InUse (old p) w)
    (stay : ∀ b ∈ old p, b ∈ live) :
    Inv dirs old { s₁ with live := Function.update s₁.live p live } ∧
      s.Untouched { s₁ with live := Function.update s₁.live p live } q := by
  have un : s.Untouched { s₁ with live := Function.update s₁.live p live } q := by
    refine ⟨keeps.others q ne, keeps.descs _ (by simpa using ne), ?_⟩
    have leaves := kept.pages.leaves
    rw [reps.memory, hx.reps.memory] at leaves
    exact ⟨leaves.pages, leaves.words⟩
  have self : Function.update s₁.live p live p = live := Function.update_self _ _ _
  have cr3 (q' : Side) : (s₁.space q').cr3 = (s.space q').cr3 := by
    by_cases h : q' = p
    · rw [h]
      exact keeps.cr3
    · rw [keeps.others q' h]
  refine ⟨⟨fun q' => ?_, fun q' q'' h => ?_, ?_⟩, un⟩
  · by_cases h : q' = p
    · subst h
      refine ⟨x', ?_, ?_, fun b hb => ?_⟩
      · rw [show ({ s₁ with live := Function.update s₁.live q' live } : ForkedHeaps).live q' =
          live from self]
        exact ⟨reps.memory, reps.poolSize, reps.lists.congr fun _ _ y _ =>
          congrFun (nodes_congr rfl rfl) y, reps.arenas⟩
      · rw [show ({ s₁ with live := Function.update s₁.live q' live } : ForkedHeaps).live q' =
          live from self]
        exact ⟨kept.order, kept.laid, kept.pages.toSetAside⟩
      · rw [show ({ s₁ with live := Function.update s₁.live q' live } : ForkedHeaps).live q' =
          live from self]
        refine ⟨stay b hb, ?_⟩
        rw [keeps.arena _ fun h => outside _ h ⟨b, hb, rfl⟩]
        exact (hx.old b hb).2
    · obtain rfl := others q' h
      obtain ⟨y, hy⟩ := inv.heap q'
      refine ⟨_, hy.untouched un ?_ keeps.poolSize ?_⟩
      · have other := hy.kept.pages.owns.agrees
        rw [hy.reps.memory] at other
        have ag := kept.pages.owns.agrees
        rw [reps.memory] at ag
        have leaves := kept.pages.leaves
        rw [reps.memory, hx.reps.memory] at leaves
        have agrees :=
          @Leaves.agrees (s.view p) (s₁.view p) dirs _ (s.space q').userVaddr leaves ag hy.cr3 other
        unfold ForkedHeaps.view at agrees ⊢
        rw [show ({ s₁ with live := Function.update s₁.live p live } : ForkedHeaps).space q' =
          s.space q' from keeps.others q' ne]
        exact agrees
      · refine (Function.update_of_ne ne _ _).trans ?_
        rw [keeps.live]
  · exact (cr3 q').trans_ne ((inv.apart q' q'' h).trans_eq (cr3 q'').symm)
  · exact keeps.poolSize.le.trans inv.poolSize

/-- The other process. -/
theorem other_side (p : Side) : ∃ q, q ≠ p ∧ ∀ q', q' ≠ p → q' = q := by
  cases p with
  | parent => exact ⟨.child, nofun, fun q' h => by cases q' <;> trivial⟩
  | child => exact ⟨.parent, nofun, fun q' h => by cases q' <;> trivial⟩

/-- The heap of the process that calls, besides the other one. -/
theorem Inv.beside (inv : Inv dirs old s) (hx : s.HasHeap p dirs (old p) x) (ne : q ≠ p) :
    Kept (Beside x.memory (s.space q).cr3 dirs (InUse (old p))) x (InUse (s.live p \ old p))
      (s.live p \ old p) := by
  refine ⟨hx.kept.order, hx.kept.laid, hx.kept.pages, ?_, Leaves.refl _ _⟩
  rw [hx.reps.cr3]
  exact inv.apart p q ne.symm

theorem pagesAsked_eq {n : Nat} (asked : x.pagesAsked .user size = some n) :
    n = requestPages size := by
  unfold pagesAsked at asked
  unfold requestPages
  split at asked
  · cases asked
  split at asked
  next large => rw [if_pos large, Option.some.inj asked]
  next small =>
    rw [if_neg small]
    split at asked
    · exact (Option.some.inj asked).symm
    · cases asked

/-- A REQUEST, whoever makes it. -/
theorem Inv.malloc (inv : Inv dirs old s) (p : Side) (size : Nat) :
    (∃ s' r, s.step (.malloc p size) = .ok (s', r) ∧ Inv dirs old s' ∧ ∀ q, q ≠ p →
      s.Untouched s' q) ∨
      ∃ e, s.step (.malloc p size) = .error e ∧
        (s.view p).mallocPage .user (requestPages size) = .error e := by
  obtain ⟨q, ne, others⟩ := other_side p
  obtain ⟨x, hx⟩ := inv.heap p
  obtain ⟨y, hy⟩ := inv.heap q
  have kept := inv.beside hx ne
  have keeper := beside_keeper x.memory hy.cr3 (InUse (old p))
  have lockstep := hx.reps.sysMalloc kept keeper size
  have outcome := kept.sysMalloc keeper (hx.reps.poolSize.le.trans inv.poolSize) size
  cases hcall : x.sysMalloc .user size with
  | error e =>
    rw [hcall] at outcome
    obtain ⟨n, asked, fails⟩ := outcome
    rw [hx.reps.memory, pagesAsked_eq asked] at fails
    refine .inr ⟨e, ?_, fails⟩
    show (s.sysMalloc p size >>= _) = _
    rw [lockstep.of_error hcall]
    rfl
  | ok r =>
    obtain ⟨r, x'⟩ := r
    rw [hcall] at outcome
    obtain ⟨⟨r', s₁⟩, hstep, same, reps, keeps⟩ := lockstep.of_ok hcall
    obtain rfl : r' = r := same
    refine .inl ?_
    cases r' with
    | none =>
      obtain ⟨rfl, -⟩ := outcome
      have next :=
        inv.next hx ne others reps kept keeps (fun w hw => hx.outside hw) fun b hb =>
          (hx.old b hb).1
      rw [← keeps.live, Function.update_eq_self] at next
      refine ⟨s₁, none, ?_, next.1, fun q' h => others q' h ▸ next.2⟩
      show (s.sysMalloc p size >>= _) = _
      rw [hstep]
      rfl
    | some b =>
      have serves : Serves _ x x' _ size b := outcome
      have page : ¬ InUse (old p) (block2arena b) := by
        apply serves.kept.pages.apart
        exact serves.kept.laid.covers ⟨b, Finset.mem_insert_self b _, rfl⟩
      have new : b ∉ old p := fun h => page ⟨b, h, rfl⟩
      have live : insert b (s.live p) \ old p = insert b (s.live p \ old p) :=
        Finset.insert_sdiff_of_notMem _ new
      have reps : s₁.Reps p x' (InUse (insert b (s.live p) \ old p)) := live ▸ reps
      have kept' := serves.kept
      rw [← live] at kept'
      have next :=
        inv.next hx ne others reps kept' keeps
          (fun w hw => serves.kept.pages.apart w (serves.kept.laid.covers hw)) fun c hc =>
        Finset.mem_insert_of_mem (hx.old c hc).1
      refine ⟨_, some b, ?_, next.1, fun q' h => others q' h ▸ next.2⟩
      show (s.sysMalloc p size >>= _) = _
      rw [hstep, ok_bind]
      show Except.ok _ = Except.ok _
      rw [keeps.live]

/-- A BLOCK IS FREED that is large or of an arena of its own. -/
theorem Inv.free (inv : Inv dirs old s) (hptr : ptr ∈ s.live p) (own : s.OwnFree (.free p ptr)) :
    ∃ s' r, s.step (.free p ptr) = .ok (s', r) ∧ Inv dirs old s' ∧ ∀ q, q ≠ p →
      s.Untouched s' q := by
  obtain ⟨q, ne, others⟩ := other_side p
  obtain ⟨x, hx⟩ := inv.heap p
  obtain ⟨y, hy⟩ := inv.heap q
  have kept := inv.beside hx ne
  have keeper := beside_keeper x.memory hy.cr3 (InUse (old p))
  have notOld : ptr ∉ old p := by
    intro h
    obtain ⟨-, o, i, desc, foreign⟩ := hx.old ptr h
    exact foreign (own o i desc)
  have hL : ptr ∈ s.live p \ old p := Finset.mem_sdiff.mpr ⟨hptr, notOld⟩
  obtain ⟨x', hcall, frees⟩ := kept.sysFree keeper hL
  obtain ⟨s₁, hstep, reps, keeps⟩ := (hx.reps.sysFree kept keeper hL).of_ok hcall
  have live : (s.live p).erase ptr \ old p = (s.live p \ old p).erase ptr :=
    Finset.erase_sdiff_comm _ _ _
  have reps : s₁.Reps p x' (InUse ((s.live p).erase ptr \ old p)) := by
    rw [live]
    refine reps.mono ?_
    rintro w ⟨c, hc, rfl⟩
    exact ⟨c, Finset.mem_of_mem_erase hc, rfl⟩
  have kept' := frees.kept
  rw [← live] at kept'
  have next := inv.next hx ne others reps kept' keeps (fun w hw => hx.outside hw) fun c hc =>
    Finset.mem_erase.mpr ⟨fun e => notOld (e ▸ hc), (hx.old c hc).1⟩
  refine ⟨_, none, ?_, next.1, fun q' h => others q' h ▸ next.2⟩
  show (s.sysFree p ptr >>= _) = _
  rw [hstep, ok_bind]
  show Except.ok _ = Except.ok _
  rw [keeps.live]

/-- EVERY CALL that meets the condition. -/
theorem Inv.step (inv : Inv dirs old s) {call : HeapsCall} (en : Enabled s call)
    (own : s.OwnFree call) : s.Minds call := by
  cases call with
  | malloc p size =>
    rcases inv.malloc p size with ⟨s', r, hstep, -, un⟩ | fails
    · exact .inl ⟨s', r, hstep, un⟩
    · obtain ⟨e, hstep, hpage⟩ := fails
      exact .inr ⟨p, size, e, rfl, hstep, hpage⟩
  | free p ptr =>
    obtain ⟨s', r, hstep, -, un⟩ := inv.free en own
    exact .inl ⟨s', r, hstep, un⟩

theorem Inv.keep (inv : Inv dirs old s) {call : HeapsCall} {r : Option Nat} (en : Enabled s call)
    (own : s.OwnFree call) (hstep : s.step call = .ok (s', r)) : Inv dirs old s' := by
  cases call with
  | malloc p size =>
    rcases inv.malloc p size with ⟨s₁, r₁, hstep₁, inv', -⟩ | ⟨e, fails, -⟩
    · cases hstep.symm.trans hstep₁
      exact inv'
    · cases hstep.symm.trans fails
  | free p ptr =>
    obtain ⟨s₁, r₁, hstep₁, inv', -⟩ := inv.free en own
    cases hstep.symm.trans hstep₁
    exact inv'

/-! ## After the fork -/

variable {parent child : Proc} {m m' : Memory} {c : Nat}

/-- What the child sees agrees with its copy of the bitmap. -/
theorem agrees_child (runs : Runs m dirs parent) (forked : Forked m m' dirs parent child c) :
    ({ m' with cr3 := c, userVaddr := child.vaddrBitmap } : Memory).Agrees (c :: dirs) := by
  have bitmap : child.vaddrBitmap = m.userVaddr := forked.bitmap.trans runs.bitmap
  have size : userVaddrStart + child.vaddrBitmap.size = kernelStart := by
    rw [bitmap]
    exact runs.agrees.userSize runs.run
  refine ⟨forked.agrees.ordered.activate c _, .inr List.mem_cons_self, fun _ => size,
    fun pf w h => ?_⟩
  cases pf with
  | kernel => exact forked.agrees.bits .kernel w ⟨h.1, h.2.1, nofun⟩
  | user =>
    have low : w < kernelStart := by
      rw [← size]
      exact h.2.1
    have heap : m.Heap dirs .user w := by
      refine ⟨h.1, ?_, fun _ => runs.run⟩
      show w < userVaddrStart + m.userVaddr.size
      rw [← bitmap, size]
      exact low
    refine Iff.trans ?_ (runs.agrees.bits .user w heap) |>.trans ?_
    · show child.vaddrBitmap.test _ = true ↔ m.userVaddr.test _ = true
      rw [bitmap]
    · show (m.pageAt m.cr3 w).isSome = true ↔ (m'.pageAt c w).isSome = true
      rw [forked.mapped w low]

@[simp] theorem withChild_space_parent : (s.withChild child m).space .parent = s.space .parent := by
  simp [withChild]

@[simp] theorem withChild_live_parent : (s.withChild child m).live .parent = s.live .parent := by
  simp [withChild]

@[simp] theorem withChild_descs_parent :
    (s.withChild child m).descs (.side .parent) = s.descs (.side .parent) := by simp [withChild]

theorem withChild_space_child (h : m.pageAt kernelDir child.pgdir = some c) :
    (s.withChild child m).space .child =
      { s.space .parent with cr3 := c, userVaddr := child.vaddrBitmap } := by simp [withChild, h]

@[simp] theorem withChild_live_child : (s.withChild child m).live .child = s.live .parent := by
  simp [withChild]

@[simp] theorem withChild_descs_child :
    (s.withChild child m).descs (.side .child) = listInit (.side .child) := by simp [withChild]

/-- What the parent sees is as it was. -/
theorem HasHeap.ofParent (hx : s.HasHeap .parent dirs before x)
    (forked : Forked (s.view .parent) m' dirs parent child c) :
    (s.withChild child m').HasHeap .parent (c :: dirs) before { x with memory := m' } := by
  have space := @withChild_space_parent s child m'
  have view : (s.withChild child m').view .parent = m' := by
    unfold ForkedHeaps.view
    rw [space, ← show m'.cr3 = (s.space .parent).cr3 from forked.cr3,
      ← show m'.userVaddr = (s.space .parent).userVaddr from forked.userVaddr]
    rfl
  have run : m'.cr3 ∈ c :: dirs := by
    rw [show m'.cr3 = (s.space .parent).cr3 from forked.cr3]
    exact List.mem_cons_of_mem c hx.cr3
  refine ⟨⟨view.symm, hx.reps.poolSize, ?_, ?_⟩, ?_, ?_⟩
  · refine hx.reps.lists.congr fun i _ y hy => ?_
    rcases mem_listNodes.mp hy with rfl | ⟨b, -, rfl⟩ | rfl
    · exact congrArg Prod.fst (congrFun withChild_descs_parent i)
    · exact congrArg (fun sp => sp.links b) space
    · exact congrArg Prod.snd (congrFun withChild_descs_parent i)
  · rw [withChild_live_parent, space]
    exact hx.reps.arenas
  · rw [withChild_live_parent]
    refine ⟨hx.kept.order, hx.kept.laid, hx.kept.pages.owns.transfer forked.agrees run ?_,
      hx.kept.pages.apart⟩
    rw [hx.reps.memory]
    exact forked.userVaddr
  · rw [withChild_live_parent, space]
    exact hx.old

/-- The blocks of small arenas; the headers of these lead to the parent or to one that was before
it. -/
def smallBlocks (s : ForkedHeaps) (p : Side) : Finset Nat :=
  (s.live p).filter fun b => ((s.space p).arena (block2arena b)).desc.isSome = true

/-- The allocator of a process that has no list with a block, and large arenas alone. -/
def largeOnly (s : ForkedHeaps) (p : Side) : Allocator where
  memory := s.view p
  descs := ⟨fun _ => [], fun w => ⟨none, ((s.space p).arena w).cnt, ((s.space p).arena w).large⟩⟩
  poolSize _ := s.poolSize

/-- A block that is not small is one of the parent's own allocator. -/
theorem HasHeap.large (hx : s.HasHeap p dirs before x) (hb : b ∈ s.live p \ s.smallBlocks p) :
    b ∈ s.live p \ before ∧ ((s.space p).arena (block2arena b)).desc = none ∧
      ⟨none, ((s.space p).arena (block2arena b)).cnt, ((s.space p).arena (block2arena b)).large⟩ =
        x.descs.arena (block2arena b) := by
  obtain ⟨hlive, notSmall⟩ := Finset.mem_sdiff.mp hb
  have none : ((s.space p).arena (block2arena b)).desc = none := by
    rw [← Option.not_isSome_iff_eq_none]
    exact fun h => notSmall (Finset.mem_filter.mpr ⟨hlive, h⟩)
  have hL : b ∈ s.live p \ before := by
    refine Finset.mem_sdiff.mpr ⟨hlive, fun h => ?_⟩
    obtain ⟨-, o, i, desc, -⟩ := hx.old b h
    rw [none] at desc
    cases desc
  have header := hx.reps.arenas _ ⟨b, hL, rfl⟩
  refine ⟨hL, none, ?_⟩
  rw [header] at none ⊢
  have desc : (x.descs.arena (block2arena b)).desc = Option.none := Option.map_eq_none_iff.mp none
  rw [← desc]
  rfl

/-- A small block is in a page that the parent has, and in none of its large arenas. -/
theorem HasHeap.small (hx : s.HasHeap p dirs before x) (hb : b ∈ s.smallBlocks p) :
    InUse before (block2arena b) ∨ b ∈ s.live p \ before ∧
    (x.descs.arena (block2arena b)).desc ≠ none := by
  obtain ⟨hlive, isSome⟩ := Finset.mem_filter.mp hb
  by_cases h : b ∈ before
  · exact .inl ⟨b, h, rfl⟩
  · have hL : b ∈ s.live p \ before := Finset.mem_sdiff.mpr ⟨hlive, h⟩
    refine .inr ⟨hL, fun none => ?_⟩
    rw [hx.reps.arenas _ ⟨b, hL, rfl⟩] at isSome
    unfold Arena.under at isSome
    rw [none] at isSome
    cases isSome

/-- What the child sees is a copy, of which its own descriptors have nothing. -/
theorem HasHeap.ofChild (hx : s.HasHeap .parent dirs before x)
    (runs : Runs (s.view .parent) dirs parent)
    (forked : Forked (s.view .parent) m' dirs parent child c)
    (unborn : ∀ b ∈ s.live .parent, ∀ i, ((s.space .parent).arena (block2arena b)).desc ≠ some
      (.side .child, i)) :
    (s.withChild child m').HasHeap .child (c :: dirs) (s.smallBlocks .parent)
      ((s.withChild child m').largeOnly .child) := by
  have space := @withChild_space_child s child m' c forked.pgdir
  have live := @withChild_live_child s child m'
  have same {w : Nat} (hw : InUse (s.live .parent \ s.smallBlocks .parent) w) :
      ((s.withChild child m').largeOnly .child).descs.arena w = x.descs.arena w := by
    obtain ⟨b, hb, rfl⟩ := hw
    refine Eq.trans ?_ (hx.large hb).2.2
    unfold largeOnly
    rw [space]
  have pages {w : Nat} (hw : InUse (s.live .parent \ s.smallBlocks .parent) w) :
      ((s.withChild child m').largeOnly .child).descs.arenaPages w = x.descs.arenaPages w := by
    unfold BlockDescs.arenaPages
    rw [same hw]
  have own {w : Nat} (hw : InUse (s.live .parent \ s.smallBlocks .parent) w) :
      InUse (s.live .parent \ before) w := by
    obtain ⟨b, hb, rfl⟩ := hw
    exact ⟨b, (hx.large hb).1, rfl⟩
  have covers {w : Nat} (h : ((s.withChild child m').largeOnly .child).descs.Covers
      (InUse (s.live .parent \ s.smallBlocks .parent)) w) :
      ∃ v, InUse (s.live .parent \ s.smallBlocks .parent) v ∧ x.descs.InPages v w := by
    obtain ⟨v, hv, hin⟩ := h
    exact ⟨v, hv, (BlockDescs.inPages_same (pages hv)).mp hin⟩
  refine ⟨⟨rfl, rfl, ⟨fun i _ => ?_, fun _ _ _ _ _ h => absurd h List.not_mem_nil⟩, fun w hw => ?_⟩,
    ?_, fun b hb => ?_⟩
  · have ends : ((s.withChild child m').descs (.side .child) i) = listInit (.side .child) i :=
      congrFun withChild_descs_child i
    refine Nodes.isList_nil nofun ?_ ?_
    · exact congrArg (fun e => e.1.next) ends
    · exact congrArg (fun e => e.2.prev) ends
  · rw [live] at hw
    obtain ⟨b, hb, rfl⟩ := hw
    have none := (hx.large hb).2.1
    unfold largeOnly Arena.under
    rw [space]
    dsimp only [Option.map_none]
    rw [← none]
  · rw [live]
    refine ⟨?_, ⟨fun w hw => ?_, fun v w y hv hw h h' => ?_⟩, ?_, ?_⟩
    · refine
        { arenas := fun b hb => ⟨b, hb, rfl⟩, blocks := fun b hb => ?_, descs := nofun,
          lists := fun i b => ?_, nodup := fun _ => List.nodup_nil,
          counts := nofun }
      · have here := same ⟨b, hb, rfl⟩
        cases hx.kept.order.blocks b (hx.large hb).1 with
        | small i desc =>
          rw [← here] at desc
          cases desc
        | large _ large pos eq => exact .large rfl (here ▸ large) (here ▸ pos) eq
      · refine iff_of_false List.not_mem_nil ?_
        rintro ⟨v, -, desc, -⟩
        cases desc
    · rw [pages hw]
      exact hx.kept.laid.pos w (own hw)
    · exact hx.kept.laid.apart v w y (own hv) (own hw) ((BlockDescs.inPages_same (pages hv)).mp h)
        ((BlockDescs.inPages_same (pages hw)).mp h')
    · have mine : x.memory.Owns dirs .user fun w =>
          ((s.withChild child m').largeOnly .child).descs.Covers
            (InUse (s.live .parent \ s.smallBlocks .parent)) w ∨
            InUse (s.smallBlocks .parent) w := by
        refine hx.kept.pages.owns.mono fun w hw => ?_
        rcases hw with hw | ⟨b, hb, rfl⟩
        · obtain ⟨v, hv, hin⟩ := covers hw
          exact .inl ⟨v, own hv, hin⟩
        · rcases hx.small hb with h | ⟨hL, -⟩
          · exact .inr h
          · exact .inl (hx.kept.laid.covers ⟨b, hL, rfl⟩)
      have agrees := agrees_child runs forked
      have view : (s.withChild child m').view .child =
          { m' with cr3 := c, userVaddr := child.vaddrBitmap } := by
        unfold ForkedHeaps.view
        rw [space]
        rfl
      rw [← view] at agrees
      refine mine.transfer agrees ?_ ?_
      · rw [show ((s.withChild child m').largeOnly .child).memory = _ from view]
        exact List.mem_cons_self
      · rw [show ((s.withChild child m').largeOnly .child).memory = _ from view, hx.reps.memory]
        exact forked.bitmap.trans runs.bitmap
    · rintro w hw ⟨b, hb, rfl⟩
      obtain ⟨v, hv, hin⟩ := covers hw
      rcases hx.small hb with h | ⟨hL, desc⟩
      · exact hx.kept.pages.apart _ ⟨v, own hv, hin⟩ h
      · have here : InUse (s.live .parent \ before) (block2arena b) := ⟨b, hL, rfl⟩
        have first : x.descs.InPages (block2arena b) (block2arena b) :=
          ⟨Nat.le_refl _, Nat.lt_add_of_pos_right (hx.kept.laid.pos _ here)⟩
        obtain rfl := hx.kept.laid.apart v _ _ (own hv) here hin first
        rw [← same hv] at desc
        exact desc rfl
  · rw [live, space]
    obtain ⟨hlive, isSome⟩ := Finset.mem_filter.mp hb
    obtain ⟨⟨o, i⟩, desc⟩ := Option.isSome_iff_exists.mp isSome
    refine ⟨hlive, o, i, desc, ?_⟩
    rintro rfl
    exact unborn b hlive i desc

/-- So both have their heaps, apart from each other, when `sys_fork` has made the child. -/
theorem Start.inv (start : Start dirs s parent) (fork : s.sysFork parent = .ok (true, s₁)) :
    ∃ c old, Inv (c :: dirs) old s₁ := by
  obtain ⟨⟨r, m⟩, hcall, fork⟩ := bind_eq_ok.mp fork
  cases r with
  | none => cases fork
  | some child =>
    obtain rfl : s.withChild child m = s₁ := (Prod.mk.inj (Except.ok.inj fork)).2
    obtain ⟨before, x, hx⟩ := start.heap
    obtain ⟨c, forked⟩ := (sysFork_ensures start.runs).of_ok hcall
    refine ⟨c, fun p => Side.casesOn p before (s.smallBlocks .parent), fun p => ?_,
      fun p q h => ?_, ?_⟩
    · cases p with
      | parent => exact ⟨_, hx.ofParent forked⟩
      | child => exact ⟨_, hx.ofChild start.runs forked start.unborn⟩
    · have ne : (s.space .parent).cr3 ≠ c := fun e => forked.new (e ▸ hx.cr3)
      cases p <;> cases q
      · exact absurd rfl h
      · rw [withChild_space_parent, withChild_space_child forked.pgdir]
        exact ne
      · rw [withChild_space_parent, withChild_space_child forked.pgdir]
        exact ne.symm
      · exact absurd rfl h
    · exact start.poolSize.trans (by decide)

/-- THE HEAPS ARE INDEPENDENT while no process frees a small block that it has from before a fork:
in every run of such calls, in any order, each list has blocks of arenas of its own process, and
every such call comes to its end and touches nothing of the other process, unless `malloc_page`
fails. -/
theorem heaps_independent (dirs : List Nat) (s₀ s₁ s : ForkedHeaps) (parent : Proc)
    (tr : List (Entry ForkedHeaps HeapsCall (Option Nat))) (start : Start dirs s₀ parent)
    (fork : s₀.sysFork parent = .ok (true, s₁)) (path : machine.Path s₁ tr s)
    (meets : Machine.Meets OwnFree tr) :
    s.OwnLists ∧ ∀ call, Enabled s call → s.OwnFree call → s.Minds call := by
  obtain ⟨c, old, inv₁⟩ := start.inv fork
  have inv : Inv (c :: dirs) old s :=
    path.invariant_of_meets inv₁ meets fun inv en hstep own => inv.keep en own hstep
  exact ⟨inv.ownLists, fun call en own => inv.step en own⟩

/-! ## A parent whose blocks are all in use -/

/-- A process with an arena of three blocks, at the page `w`, all of which it has got. -/
def sample (m : Memory) (w : Nat) : ForkedHeaps where
  memory := m
  space _ :=
    ⟨m.cr3, m.userVaddr, fun _ => ⟨some (.side .parent, 6), 0, false⟩, fun _ => ⟨.null, .null⟩⟩
  descs := listInit
  poolSize := 65535 * 4096
  live _ := (arenaBlocks w 6).toFinset

variable {w : Nat}

theorem mem_sample : b ∈ (sample m w).live p ↔ IsBlock 6 w b := by
  show b ∈ (arenaBlocks w 6).toFinset ↔ _
  rw [List.mem_toFinset, mem_arenaBlocks]

theorem first_block : arena2block w 6 0 ∈ (sample m w).live p := mem_sample.mpr ⟨0, by decide, rfl⟩

theorem sample_inUse {v : Nat} : InUse ((sample m w).live p \ ∅) v ↔ v = w := by
  rw [Finset.sdiff_empty]
  constructor
  · rintro ⟨b, hb, rfl⟩
    exact (mem_sample.mp hb).page
  · rintro rfl
    exact ⟨_, first_block, (@arena2block_page _ 6 0 (by decide)).1⟩

theorem sample_heap (run : m.cr3 ∈ dirs) (ag : m.Agrees dirs) (low : userVaddrStart ≤ w)
    (high : w < kernelStart) (set : m.userVaddr.test (w - userVaddrStart) = true) :
    (sample m w).HasHeap .parent dirs ∅ ⟨m, ⟨fun _ => [], fun _ => ⟨some 6, 0, false⟩⟩,
      fun _ => 65535 * 4096⟩ where
  reps :=
    { memory := rfl, poolSize := rfl, arenas := fun _ _ => rfl,
      lists :=
        ⟨fun i _ => Nodes.isList_nil nofun rfl rfl, fun _ _ _ _ _ h => absurd h List.not_mem_nil⟩ }
  kept := by
    refine ⟨?_, ⟨fun v _ => Nat.one_pos, fun v v' y hv hv' _ _ => ?_⟩,
      owns_user ag run fun v hv => ?_, ?_⟩
    · refine
        { arenas := fun b hb => ⟨b, hb, rfl⟩, blocks := fun b hb => ?_, descs := fun v i _ h => ?_,
          lists := fun i b => ?_,
          nodup := fun _ => List.nodup_nil, counts := fun _ _ _ _ => rfl }
      · rw [Finset.sdiff_empty] at hb
        have hblock := mem_sample.mp hb
        exact .small 6 rfl (hblock.page.symm ▸ hblock)
      · cases h
        decide
      · refine iff_of_false List.not_mem_nil ?_
        rintro ⟨v, hv, desc, hblock, notLive⟩
        cases desc
        rw [sample_inUse.mp hv] at hblock
        rw [Finset.sdiff_empty] at notLive
        exact notLive (mem_sample.mpr hblock)
    · exact (sample_inUse.mp hv).trans (sample_inUse.mp hv').symm
    · rcases hv with ⟨v', hv', here, there⟩ | ⟨b, hb, -⟩
      · rw [sample_inUse.mp hv'] at here there
        obtain rfl : v = w := Nat.le_antisymm (Nat.le_of_lt_succ there) here
        exact ⟨low, high, set⟩
      · exact absurd hb (Finset.notMem_empty b)
    · rintro v - ⟨b, hb, -⟩
      exact absurd hb (Finset.notMem_empty b)
  old b hb := absurd hb (Finset.notMem_empty b)

theorem sample_start (runs : Runs m dirs parent) (hw : w < kernelStart)
    (mapped : (m.pageAt m.cr3 w).isSome = true) :
    Start dirs (sample m w) parent where
  runs := runs
  heap := by
    obtain ⟨low, set⟩ := (runs.marks w hw).mp mapped
    exact ⟨∅, _, sample_heap runs.run runs.agrees low hw set⟩
  unborn b _ i := by
    show some (Owner.side .parent, 6) ≠ some (.side .child, i)
    simp
  poolSize := Nat.le_refl _

/-- After the start of the kernel there is such a process, and it has a child. -/
theorem first_fork : ∃ (dirs : List Nat) (m m' : Memory) (w : Nat) (parent child : Proc),
    Start dirs (sample m w) parent ∧
    (sample m w).sysFork parent = .ok (true, (sample m w).withChild child m') := by
  obtain ⟨m, c, parent, runs, room, mapped⟩ := first_process
  have start := sample_start runs (by decide) mapped
  have forks := sysFork_ensures start.runs
  cases h : ((sample m userVaddrStart).view .parent).sysFork parent with
  | error e => exact absurd room (forks.of_error h)
  | ok r =>
    obtain ⟨r, m'⟩ := r
    cases r with
    | none => exact absurd room (forks.of_ok h)
    | some child =>
      refine ⟨[c], m, m', userVaddrStart, parent, child, start, ?_⟩
      unfold ForkedHeaps.sysFork
      rw [h]
      rfl

/-- A small block is freed, and the arena stays. -/
theorem step_free {o : Owner} {i k : Nat} {r : Option Nat} {s s' : ForkedHeaps}
    (header : (s.space p).arena (block2arena b) = ⟨some (o, i), k, false⟩)
    (some : u32 (k + 1) ≠ blocksPerArena i) (h : s.step (.free p b) = .ok (s', r)) :
    s' = { (s.listAppend p o i (.block b)).setArena p (block2arena b)
        ⟨.some (o, i), u32 (k + 1), false⟩ with
      live := Function.update s.live p ((s.live p).erase b) } := by
  obtain ⟨s₂, hfree, hlive⟩ := bind_eq_ok.mp (show (s.sysFree p b >>= _) = _ from h)
  obtain rfl : { s₂ with live := _ } = s' := (Prod.mk.inj (Except.ok.inj hlive)).1
  obtain ⟨-, -, hfree⟩ := bind_eq_ok.mp hfree
  obtain ⟨-, -, hfree⟩ := bind_eq_ok.mp hfree
  rw [header] at hfree
  change s.freeSmall p b o i = .ok s₂ at hfree
  have kept : ((s.listAppend p o i (.block b)).space p).arena (block2arena b) =
      ⟨.some (o, i), k, false⟩ := by
    unfold ForkedHeaps.listAppend setNodes
    rw [setSpace_self]
    exact header
  unfold ForkedHeaps.freeSmall at hfree
  dsimp only at hfree
  rw [kept, if_neg some] at hfree
  obtain rfl := Except.ok.inj hfree
  rfl

theorem parent_own {cnt k : Nat} {s : ForkedHeaps} (hk : k < 3)
    (header : (s.space .parent).arena w = ⟨some (.side .parent, 6), cnt, false⟩) :
    s.OwnFree (.free .parent (arena2block w 6 k)) := by
  have page : block2arena (arena2block w 6 k) = w := (@arena2block_page w 6 k hk).1
  intro o i h
  rw [page, header] at h
  cases h
  rfl

/-- The parent frees a block of its arena, which stays. -/
theorem parent_frees {old : Side → Finset Nat} {cnt k : Nat} {s : ForkedHeaps}
    (inv : Inv dirs old s) (hk : k < 3) (got : arena2block w 6 k ∈ s.live .parent)
    (header : (s.space .parent).arena w = ⟨some (.side .parent, 6), cnt, false⟩)
    (stays : u32 (cnt + 1) ≠ 3) :
    ∃ s' r, s.step (.free .parent (arena2block w 6 k)) = .ok (s', r) ∧ Inv dirs old s' ∧
      (s'.space .parent).arena w = ⟨some (.side .parent, 6), u32 (cnt + 1), false⟩ ∧
      s'.live .parent = (s.live .parent).erase (arena2block w 6 k) := by
  have page : block2arena (arena2block w 6 k) = w := (@arena2block_page w 6 k hk).1
  have en : Enabled s (.free .parent (arena2block w 6 k)) := got
  have own := parent_own hk header
  rcases inv.step en own with ⟨s', r, hstep, -⟩ | ⟨p, size, e, no, -⟩
  · refine ⟨s', r, hstep, inv.keep en own hstep, ?_⟩
    rw [← page] at header
    rw [step_free header stays hstep]
    constructor
    · unfold setArena
      dsimp only
      rw [setSpace_self, page]
      exact Function.update_self ..
    · exact Function.update_self Side.parent ((s.live .parent).erase _) s.live
  · cases no

/-- The theorem where the parent has freed two of its three blocks after that fork: it may free the
third, and each process may ask for a block. -/
theorem heaps_independent_freed : ∃ (dirs : List Nat) (s₀ s₁ s : ForkedHeaps) (parent : Proc)
    (tr : List (Entry ForkedHeaps HeapsCall (Option Nat))) (w : Nat), Start dirs s₀ parent ∧
    s₀.sysFork parent = .ok (true, s₁) ∧
      machine.Path s₁ tr s ∧ tr.map (·.event) =
        [.free .parent (arena2block w 6 0), .free .parent (arena2block w 6 1)] ∧
      s.OwnLists ∧ s.Minds (.free .parent (arena2block w 6 2)) ∧ ∀ p, s.Minds (.malloc p 1024) := by
  obtain ⟨dirs, m, m', w, parent, child, start, fork⟩ := first_fork
  obtain ⟨c, old, inv⟩ := start.inv fork
  have got (k : Nat) (hk : k < 3) :
      arena2block w 6 k ∈ ((sample m w).withChild child m').live .parent := by
    rw [withChild_live_parent]
    exact mem_sample.mpr ⟨k, hk, rfl⟩
  have apart (j k : Nat) (ne : j ≠ k) : arena2block w 6 j ≠ arena2block w 6 k :=
    fun e => ne (arena2block_inj e)
  have header : (((sample m w).withChild child m').space .parent).arena w =
      ⟨some (.side .parent, 6), 0, false⟩ := by
    rw [withChild_space_parent]
    rfl
  obtain ⟨s₁, r₁, h₁, inv₁, header₁, live₁⟩ :=
    parent_frees inv (by decide) (got 0 (by decide)) header (by decide)
  have got₁ : arena2block w 6 1 ∈ s₁.live .parent := by
    rw [live₁]
    exact Finset.mem_erase.mpr ⟨apart 1 0 (by decide), got 1 (by decide)⟩
  obtain ⟨s₂, r₂, h₂, -, header₂, live₂⟩ := parent_frees inv₁ (by decide) got₁ header₁ (by decide)
  have got₂ : arena2block w 6 2 ∈ s₂.live .parent := by
    rw [live₂, live₁]
    exact Finset.mem_erase.mpr
      ⟨apart 2 1 (by decide), Finset.mem_erase.mpr ⟨apart 2 0 (by decide), got 2 (by decide)⟩⟩
  have first :=
    Machine.Path.start.step (M := machine) (e := .free .parent (arena2block w 6 0))
      (got 0 (by decide)) h₁
  have path := first.step (e := HeapsCall.free .parent (arena2block w 6 1)) got₁ h₂
  have independent := heaps_independent dirs (sample m w) _ s₂ parent _ start fork path
    (Machine.meets_append.mpr
      ⟨Machine.meets_append.mpr
        ⟨fun _ h => absurd h List.not_mem_nil, parent_own (by decide) header⟩,
      parent_own (by decide) header₁⟩)
  exact ⟨dirs, sample m w, _, s₂, parent, _, w, start, fork, path, rfl, independent.1,
    independent.2 _ got₂ (parent_own (by decide) header₂),
    fun p => independent.2 (.malloc p 1024) trivial trivial⟩

/-- A BLOCK FROM BEFORE THE FORK. When the child frees one, it is appended to the list of its
parent. -/
theorem free_changes_parent :
    ¬ ∀ (dirs : List Nat) (s₀ s₁ s : ForkedHeaps) (parent : Proc)
      (tr : List (Entry ForkedHeaps HeapsCall (Option Nat))),
    Start dirs s₀ parent → s₀.sysFork parent = .ok (true, s₁) → machine.Path s₁ tr s →
    s.OwnLists ∧ ∀ call, Enabled s call → s.Minds call := by
  intro claim
  obtain ⟨dirs, m, m', w, parent, child, start, fork⟩ := first_fork
  have minds := (claim dirs _ _ _ parent [] start fork .start).2 (.free .child (arena2block w 6 0))
  have got : arena2block w 6 0 ∈ ((sample m w).withChild child m').live .child := by
    rw [withChild_live_child]
    exact first_block
  generalize hs : (sample m w).withChild child m' = s at *
  have header : (s.space .child).arena (block2arena (arena2block w 6 0)) =
      ⟨some (.side .parent, 6), 0, false⟩ := by
    rw [← hs]
    simp [withChild, sample]
  have ends : s.descs (.side .parent) 6 = listInit (.side .parent) 6 := by
    rw [← hs, withChild_descs_parent]
    rfl
  rcases minds got with ⟨s', r, hstep, untouched⟩ | ⟨p, size, e, no, -⟩
  · have same := (untouched .parent nofun).descs
    -- two of the three blocks stay, so that the arena does too
    rw [step_free header (by decide) hstep] at same
    have last : (s.nodes .child (.tail (.side .parent) 6)).prev = .head (.side .parent) 6 :=
      congrArg (fun e => e.2.prev) ends
    obtain ⟨-, -, tail, -⟩ :=
      Nodes.insertBefore_values last (x := .block (arena2block w 6 0)) nofun nofun nofun
    have now := congrArg Node.prev tail
    have before := congrArg (fun d => (d 6).2.prev) same
    rw [ends] at before
    exact absurd (now.symm.trans before) nofun
  · cases no

end ForkedHeaps

end SeekingOs
