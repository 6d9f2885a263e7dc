import SeekingOs.Kernel.HeapBlocks
import SeekingOs.Kernel.HeapPages

/-!
# The heap of a task

A task calls `sys_malloc` and `sys_free` and writes to its blocks, in any order. Headers and links
lie in the same pages as the blocks; which words the calls put there is a parameter of every step,
so that nothing rests on what they are.
-/

namespace SeekingOs

open Lib

/-! ## The words that the calls write -/

/-- The words of `struct arena`. -/
def headerWords (page : Nat) : List Nat := [1024 * page, 1024 * page + 1, 1024 * page + 2]

/-- The words of `free_elem`, at the start of a block. -/
def linkWords (b : Nat) : List Nat := [b / 4, b / 4 + 1]

/-- The words of a block. -/
def blockWords (b size : Nat) : List Nat := List.range' (b / 4) (size / 4)

theorem mem_headerWords {page a : Nat} :
    a ∈ headerWords page ↔ BlockDescs.InHeader page (4 * a) := by
  unfold headerWords BlockDescs.InHeader arenaSize
  simp only [List.mem_cons, List.not_mem_nil, or_false]
  omega

theorem mem_linkWords {b a : Nat} (h : b % 4 = 0) :
    a ∈ linkWords b ↔ b ≤ 4 * a ∧ 4 * a < b + 8 := by
  unfold linkWords
  simp only [List.mem_cons, List.not_mem_nil, or_false]
  omega

theorem mem_blockWords {b size a : Nat} (h : b % 4 = 0) (h' : size % 4 = 0) :
    a ∈ blockWords b size ↔ b ≤ 4 * a ∧ 4 * a < b + size := by
  unfold blockWords
  rw [List.mem_range'_1]
  omega

namespace Allocator

/-- What `sys_malloc` writes besides clearing a new arena: links of the list, then zeros to the
block, then the header. -/
def mallocWrites (s : Allocator) (size b : Nat) (words : Nat → Nat) : Except Fault Memory :=
  if size > 1024 then s.memory.putWords "sys_malloc" words (headerWords (block2arena b))
  else do
    let descIdx := matchDesc size
    let m ← s.memory.putWords "sys_malloc" words ((s.descs.freeList descIdx).flatMap linkWords)
    let m ← m.putWords "sys_malloc" (fun _ => 0) (blockWords b (blockSize descIdx))
    m.putWords "sys_malloc" words (headerWords (block2arena b))

/-- What `sys_free` writes before it gives a page back: links, those of the block included, and the
header. -/
def freeWrites (s : Allocator) (ptr : Nat) (words : Nat → Nat) : Except Fault Memory :=
  match (s.descs.arena (block2arena ptr)).desc with
  | none => .ok s.memory
  | some descIdx => s.memory.putWords "sys_free" words
      ((s.descs.freeList descIdx ++ [ptr]).flatMap linkWords ++ headerWords (block2arena ptr))

end Allocator

/-! ## The task -/

/-- The allocator, the blocks that the task has got and not given back, and what it asked for. -/
structure TaskHeap where
  alloc : Allocator
  live : Finset Nat
  asked : Nat → Nat

/-- What a task does: two calls, and a word that it writes; `words` are those of headers and links.
-/
inductive HeapEvent where
  | malloc (size : Nat) (words : Nat → Nat)
  | free (ptr : Nat) (words : Nat → Nat)
  | store (a w : Nat)

/-- Addresses and frames for a request that comes to `malloc_page`. -/
structure Memory.Available (m : Memory) (pf : PoolFlags) (n : Nat) : Prop where
  addresses : ∃ t, (m.vaddrBitmap pf).FreeRun n t
  takes : ∀ i, (m.vaddrBitmap pf).FirstRun n i → m.Takes pf n i

namespace TaskHeap

/-- THE REQUEST IS NOT ZERO AND FITS; `few` bounds the pages that it may ask for. -/
structure Fits (s : TaskHeap) (pf : PoolFlags) (few : Nat → Prop) (size : Nat) : Prop where
  nonzero : 0 < size
  small : size < s.alloc.poolSize pf
  pages : ∀ n, s.alloc.pagesAsked pf size = some n → few n ∧ s.alloc.memory.Available pf n

/-- One step. -/
def step (pf : PoolFlags) (s : TaskHeap) : HeapEvent → Except Fault (TaskHeap × Option Nat)
  | .malloc size words => do
    let (b, alloc) ← s.alloc.sysMalloc pf size
    match b with
    | none => return ({ s with alloc }, none)
    | some b => do
      let m ← alloc.mallocWrites size b words
      return (
        { alloc := { alloc with memory := m }, live := insert b s.live,
          asked := Function.update s.asked b size },
        some b)
  | .free ptr words => do
    let m ← s.alloc.freeWrites ptr words
    let alloc ← Allocator.sysFree { s.alloc with memory := m } pf ptr
    return ({ s with alloc, live := s.live.erase ptr }, none)
  | .store a w => do
    let m ← s.alloc.memory.putWords "store" (fun _ => w) [a]
    return ({ s with alloc := { s.alloc with memory := m } }, none)

/-- What a task may do: it frees what it has got, and writes to it. -/
def Enabled (pf : PoolFlags) (few : Nat → Prop) (s : TaskHeap) : HeapEvent → Prop
  | .malloc size _ => s.Fits pf few size
  | .free ptr _ => ptr ∈ s.live
  | .store a _ => ∃ b ∈ s.live, s.alloc.descs.InBlock b (4 * a)

def machine (pf : PoolFlags) (few : Nat → Prop) :
    Machine TaskHeap HeapEvent (Option Nat) Fault where
  enabled := Enabled pf few
  step := step pf

end TaskHeap

/-! ## `malloc_page`, where there is room -/

namespace Memory

variable {m : Memory} {dirs : List Nat} {pf : PoolFlags} {n : Nat}

theorem Available.fits (av : m.Available pf n) (count : 0 < n ∧ n < 3840) : m.PageFits pf n where
  count := count
  notFull := by
    obtain ⟨t, free⟩ := av.addresses
    have := free.1
    exact ⟨t, by omega, free.2 t (Nat.le_refl t) (by omega)⟩
  takes := av.takes

/-- It answers. -/
theorem mallocPage_some (ag : m.Agrees dirs) (user : pf = .user → m.cr3 ∈ dirs)
    (av : m.Available pf n) (count : 0 < n ∧ n < 3840) :
    ∃ a m', m.mallocPage pf n = .ok (some a, m') := by
  obtain ⟨⟨r, m'⟩, h⟩ := (mallocPage_iff ag user).mpr (av.fits count)
  cases r with
  | some a => exact ⟨a, m', h⟩
  | none =>
    obtain ⟨t, free⟩ := av.addresses
    obtain ⟨i, -, first⟩ : ∃ i, bitmapScan false (m.vaddrBitmap pf) n = .ok (some i) ∧
      (m.vaddrBitmap pf).FirstRun n i :=
      bitmapScan_some count.1 free
    have answer := h
    unfold mallocPage at answer
    rw [assertThat_of count, ok_bind,
      (vaddrGet_iff count.1 _).mpr
        ⟨(av.fits count).notFull, .inr ⟨i, first, (av.takes i first).1, rfl⟩⟩,
      ok_bind] at answer
    obtain ⟨⟨b, m₁⟩, hmap, answer⟩ := bind_eq_ok.mp answer
    have cr3 : (m.reserve i true n pf).cr3 = m.cr3 := by cases pf <;> rfl
    obtain ⟨rfl, -⟩ := mapPages_ok (reserve_ordered ag.ordered) (cr3 ▸ ag.run)
      (fun w hw hw' => (freeRun_pages ag user first.free hw hw').1) hmap
    cases answer

end Memory

/-! ## What the allocator keeps -/

/-- The arena at a page has a live block. -/
def InUse (live : Finset Nat) (p : Nat) : Prop := ∃ b ∈ live, block2arena b = p

theorem inUse_insert {live : Finset Nat} {b p : Nat} :
    InUse (insert b live) p ↔ InUse live p ∨ p = block2arena b := by
  unfold InUse
  simp only [Finset.mem_insert, exists_eq_or_imp]
  rw [or_comm, eq_comm]

/-- The last block of an arena takes it along. -/
theorem inUse_erase {live : Finset Nat} {b : Nat}
    (none : ∀ c ∈ live.erase b, block2arena c ≠ block2arena b) :
    InUse (live.erase b) = fun q => InUse live q ∧ q ≠ block2arena b := by
  funext q
  apply propext
  constructor
  · rintro ⟨c, hc, rfl⟩
    exact ⟨⟨c, Finset.mem_of_mem_erase hc, rfl⟩, none c hc⟩
  · rintro ⟨⟨c, hc, rfl⟩, hne⟩
    exact ⟨c, Finset.mem_erase.mpr ⟨fun e => hne (e ▸ rfl), hc⟩, rfl⟩

namespace Allocator

variable {m : Memory} {dirs : List Nat} {pf : PoolFlags} {P : Memory → (Nat → Prop) → Prop}
  {s s' : Allocator} {A B : Nat → Prop}
  {live : Finset Nat} {a b c i n p size : Nat} {rest : List Nat} {words : Nat → Nat}

/-- THE ALLOCATOR IS IN ORDER: lists and counters, the places of the arenas, and the pages that they
have, of which `P` holds. -/
structure Kept (P : Memory → (Nat → Prop) → Prop) (s : Allocator) (A : Nat → Prop)
    (live : Finset Nat) : Prop where
  order : s.descs.InOrder A live
  laid : s.descs.Laid A
  pages : P s.memory (s.descs.Covers A)

theorem pages_congr {R S : Nat → Prop} (pages : P m R) (h : ∀ w, R w ↔ S w) : P m S := by
  have same : R = S := funext fun w => propext (h w)
  rw [← same]
  exact pages

theorem Kept.congr (kept : Kept P s A live) (h : ∀ p, A p ↔ B p) : Kept P s B live := by
  have same : A = B := funext fun p => propext (h p)
  rw [← same]
  exact kept

/-- Words are written to pages of arenas. -/
theorem Kept.putWords (kept : Kept P s A live) (keeper : Memory.Keeper dirs pf P) (func : String)
    (words : Nat → Nat) (as : List Nat) (h : ∀ a ∈ as, s.descs.Covers A (a / 1024)) :
    ∃ m, s.memory.putWords func words as = .ok m ∧ Kept P { s with memory := m } A live ∧
      ∀ a, s.descs.Covers A (a / 1024) → m.word a = if a ∈ as then some (words a)
        else s.memory.word a := by
  obtain ⟨m, hput, wr, put⟩ := (keeper.owns kept.pages).putWords func words as h
  exact ⟨m, hput, ⟨kept.order, kept.laid, keeper.writes kept.pages wr⟩, put⟩

/-- The first block of a list is taken. -/
def take (s : Allocator) (i b : Nat) (rest : List Nat) : Allocator :=
  { s with
    descs :=
      s.descs.recount i (block2arena b) rest (u32 ((s.descs.arena (block2arena b)).cnt - 1)) }

theorem Kept.takeBlock (kept : Kept P s A live) (keeper : Memory.Keeper dirs pf P)
    (hlist : s.descs.freeList i = b :: rest) :
    s.takeBlock i = .ok (b, s.take i b rest) ∧ Kept P (s.take i b rest) A (insert b live) := by
  obtain ⟨hp, desc, hb, hlive, order⟩ := kept.order.takeHead hlist
  have pages (q : Nat) : (s.take i b rest).descs.arenaPages q = s.descs.arenaPages q :=
    BlockDescs.recount_arenaPages desc
  obtain ⟨words, hread⟩ := (keeper.owns kept.pages).readPage (kept.laid.covers hp) "sys_malloc"
  constructor
  · obtain ⟨idx, hidx, eq⟩ := hb
    obtain ⟨first, last⟩ := @arena2block_page (block2arena b) i idx hidx
    rw [← eq] at first last
    unfold Allocator.takeBlock
    rw [hlist]
    dsimp only
    rw [first, last, hread]
    rfl
  · refine ⟨order, kept.laid.same fun q _ => pages q, ?_⟩
    exact pages_congr kept.pages fun w => (BlockDescs.covers_same fun q _ => pages q).symm

/-- What a request that is served leaves. -/
structure Serves (P : Memory → (Nat → Prop) → Prop) (s s' : Allocator) (live : Finset Nat)
    (size b : Nat) : Prop where
  kept : Kept P s' (InUse (insert b live)) (insert b live)
  new : b ∉ live
  enough : size ≤ s'.descs.room b
  rooms : ∀ c ∈ live, s'.descs.room c = s.descs.room c
  poolSize : s'.poolSize = s.poolSize
  words : ∀ a, s.descs.Covers (InUse live) (a / 1024) → s'.memory.word a = s.memory.word a
  small : size ≤ 1024 → (s'.descs.arena (block2arena b)).desc = some (matchDesc size)
  large : 1024 < size → ∀ a, s'.descs.InPages (block2arena b) (a / 1024) → s'.memory.word a = some 0

/-- A small request for which there is a block. -/
theorem Kept.serve_small (kept : Kept P s A live) (keeper : Memory.Keeper dirs pf P)
    (hsize : size ≤ 1024) (hlist : s.descs.freeList (matchDesc size) = b :: rest)
    (used : ∀ p, A p ↔ InUse live p ∨ p = block2arena b) :
    s.takeBlock (matchDesc size) = .ok (b, s.take (matchDesc size) b rest) ∧
      Serves P s (s.take (matchDesc size) b rest) live size b := by
  obtain ⟨-, desc, -, hlive, -⟩ := kept.order.takeHead hlist
  obtain ⟨hcall, kept'⟩ := kept.takeBlock keeper hlist
  refine ⟨hcall, ?_⟩
  refine
    { kept := kept'.congr fun p => (used p).trans inUse_insert.symm, new := hlive, enough := ?_,
      rooms := fun c _ => BlockDescs.recount_room desc,
      poolSize := rfl, words := fun a _ => rfl, small := fun _ =>
        BlockDescs.recount_desc.trans desc, large := fun h => absurd h (by omega) }
  unfold take
  rw [BlockDescs.recount_room desc, BlockDescs.room_small desc]
  exact (matchDesc_spec hsize).2

/-- Pages that `malloc_page` hands out, cleared. -/
theorem Kept.newPages (kept : Kept P s A live) (keeper : Memory.Keeper dirs pf P)
    (hpage : s.memory.mallocPage pf n = .ok (some a, m)) :
    ∃ m₂, m.clearPages "sys_malloc" a n = .ok m₂ ∧
      P m₂ (fun w => s.descs.Covers A w ∨ a ≤ w ∧ w < a + n) ∧
      (∀ w, a ≤ w → w < a + n → ¬ s.descs.Covers A w) ∧
      (∀ x, s.descs.Covers A (x / 1024) → m₂.word x = s.memory.word x) ∧
      ∀ x, a ≤ x / 1024 → x / 1024 < a + n → m₂.word x = some 0 := by
  obtain ⟨own, new, words⟩ := (keeper.owns kept.pages).mallocPage hpage
  have range (w : Nat) (h : a ≤ w) (h' : w < a + n) : s.descs.Covers A w ∨ a ≤ w ∧ w < a + n :=
    .inr ⟨h, h'⟩
  obtain ⟨m₂, hclear, wr, clear⟩ := own.clearPages "sys_malloc" range
  refine ⟨m₂, hclear, keeper.writes (keeper.mallocPage kept.pages hpage) wr, new, fun x hx => ?_,
    fun x h h' => ?_⟩
  · rw [clear x (.inl hx), if_neg, words x hx]
    rintro ⟨h, h'⟩
    exact new _ h h' hx
  · rw [clear x (range _ h h'), if_pos ⟨h, h'⟩]

/-- A small request that gets an arena. -/
theorem Kept.serve_arena (kept : Kept P s (InUse live) live) (keeper : Memory.Keeper dirs pf P)
    (hsize : size ≤ 1024) (empty : s.descs.freeList (matchDesc size) = [])
    (hpage : s.memory.mallocPage pf 1 = .ok (some a, m)) :
    ∃ b s', s.mallocSmall pf size = .ok (some b, s') ∧ Serves P s s' live size b := by
  have hi := matchDesc_lt hsize
  obtain ⟨m₂, hclear, out, new, words, -⟩ := kept.newPages keeper hpage
  have hnew : ¬ InUse live a := fun h => new a (Nat.le_refl a) (by omega) (kept.laid.covers h)
  have same (q : Nat) (hq : InUse live q) : (s.descs.cutArena a (matchDesc size)).arena q =
      s.descs.arena q := by
    apply BlockDescs.setArena_arena_ne
    rintro rfl
    exact hnew hq
  have desc : ((s.descs.cutArena a (matchDesc size)).arena a).desc = some (matchDesc size) := by
    rw [show (s.descs.cutArena a (matchDesc size)).arena a = _ from BlockDescs.setArena_arena_self]
  have pages (q : Nat) (hq : InUse live q) : (s.descs.cutArena a (matchDesc size)).arenaPages q =
      s.descs.arenaPages q := by
    unfold BlockDescs.arenaPages
    rw [same q hq]
  have here : (s.descs.cutArena a (matchDesc size)).arenaPages a = 1 :=
    BlockDescs.arenaPages_small desc
  -- the arena is there, and none of its blocks is live
  have cut : Kept P { s with memory := m₂, descs := s.descs.cutArena a (matchDesc size) }
      (fun q => InUse live q ∨ q = a) live :=
    { order := kept.order.addSmall hi empty hnew, laid := kept.laid.add pages here Nat.one_pos new,
      pages := pages_congr out fun w => (BlockDescs.covers_add pages here).symm }
  obtain ⟨rest, hrest⟩ := arenaBlocks_first a hi
  have hlist : (s.descs.cutArena a (matchDesc size)).freeList (matchDesc size) =
      arena2block a (matchDesc size) 0 :: rest :=
    BlockDescs.setFreeList_freeList_self.trans hrest
  have page : block2arena (arena2block a (matchDesc size) 0) = a :=
    (arena2block_page (blocksPerArena_pos hi)).1
  obtain ⟨hcall, serves⟩ := cut.serve_small keeper hsize hlist (by
    intro p
    rw [page])
  refine ⟨_, _, ?_, { serves with rooms := fun c hc => ?_, words := fun x hx => ?_ }⟩
  · unfold mallocSmall
    dsimp only
    rw [if_pos empty, newArena_eq empty hpage hclear, ok_bind]
    dsimp only
    rw [if_pos rfl, hcall]
    rfl
  · rw [serves.rooms c hc]
    exact BlockDescs.room_same (same _ ⟨c, hc, rfl⟩)
  · exact words x hx

/-- The pages of a large request. -/
theorem largePages_eq (h : size < 2 ^ 28) : largePages size = (size + 4107) / 4096 := by
  unfold largePages arenaSize
  rw [u32_of_lt (n := size + 12 + 4095) (by omega)]

theorem pagesAsked_pos (bound : size < 2 ^ 28) (h : s.pagesAsked pf size = some n) : 0 < n := by
  have pages := largePages_eq bound
  unfold pagesAsked at h
  split at h
  · cases h
  split at h
  · cases h
    omega
  split at h
  · cases h
    exact Nat.one_pos
  · cases h

/-- A large request. -/
theorem Kept.serve_large (kept : Kept P s (InUse live) live) (keeper : Memory.Keeper dirs pf P)
    (hsize : 1024 < size) (bound : size < 2 ^ 28)
    (hpage : s.memory.mallocPage pf (largePages size) = .ok (some a, m)) :
    ∃ b s', s.mallocLarge pf size = .ok (some b, s') ∧ Serves P s s' live size b := by
  have pages := largePages_eq bound
  have pos : 0 < largePages size := by omega
  obtain ⟨m₂, hclear, out, new, words, zero⟩ := kept.newPages keeper hpage
  generalize hn : largePages size = n at *
  have hnew : ¬ InUse live a := fun h => new a (Nat.le_refl a) (by omega) (kept.laid.covers h)
  have page : block2arena (4096 * a + arenaSize) = a := by
    unfold block2arena arenaSize
    omega
  have same (q : Nat) (hq : InUse live q) : (s.descs.setArena a ⟨none, n, true⟩).arena q =
      s.descs.arena q := by
    apply BlockDescs.setArena_arena_ne
    rintro rfl
    exact hnew hq
  have self : (s.descs.setArena a ⟨none, n, true⟩).arena a = ⟨none, n, true⟩ :=
    BlockDescs.setArena_arena_self
  have samePages (q : Nat) (hq : InUse live q) : (s.descs.setArena a ⟨none, n, true⟩).arenaPages q =
      s.descs.arenaPages q := by
    unfold BlockDescs.arenaPages
    rw [same q hq]
  have here : (s.descs.setArena a ⟨none, n, true⟩).arenaPages a = n := by
    rw [BlockDescs.arenaPages_large (by rw [self]), self]
  have used (p : Nat) : (InUse live p ∨ p = a) ↔ InUse (insert (4096 * a + arenaSize) live) p := by
    rw [inUse_insert, page]
  have kept' : Kept P { s with memory := m₂, descs := s.descs.setArena a ⟨none, n, true⟩ }
      (fun q => InUse live q ∨ q = a)
      (insert (4096 * a + arenaSize) live) :=
    { order := kept.order.addLarge pos hnew, laid := kept.laid.add samePages here pos new,
      pages := pages_congr out fun w => (BlockDescs.covers_add samePages here).symm }
  refine ⟨4096 * a + arenaSize,
    { s with memory := m₂, descs := s.descs.setArena a ⟨none, n, true⟩ }, ?_, ?_⟩
  · unfold mallocLarge
    dsimp only
    rw [hn, hpage, ok_bind]
    dsimp only
    rw [hclear]
    rfl
  · refine
      { kept := kept'.congr used, new := fun h => hnew ⟨_, h, page⟩, enough := ?_,
        rooms := fun c hc => BlockDescs.room_same (same _ ⟨c, hc, rfl⟩), poolSize := rfl,
        words := words,
        small := fun h => absurd h (by omega), large := fun _ x hx => ?_ }
    · dsimp only
      rw [BlockDescs.room_large (by rw [page, self]), page, self]
      unfold arenaSize
      dsimp only
      omega
    · dsimp only at hx
      rw [page] at hx
      exact zero x hx.1 (here ▸ hx.2)

/-- What a request comes to: a block, or `NULL` and no change, when it is refused or `malloc_page`
answers that; and it fails only in `malloc_page`. -/
def Outcome (P : Memory → (Nat → Prop) → Prop) (pf : PoolFlags) (s : Allocator) (live : Finset Nat)
    (size : Nat) :
    Except Fault (Option Nat × Allocator) → Prop
  | .ok (some b, s') => Serves P s s' live size b
  | .ok (none, s') => s' = s ∧ (¬ (size > 0 ∧ size < s.poolSize pf) ∨
      ∃ n, s.pagesAsked pf size = some n ∧ s.memory.mallocPage pf n = .ok (none, s.memory))
  | .error e => ∃ n, s.pagesAsked pf size = some n ∧ s.memory.mallocPage pf n = .error e

/-- EVERY REQUEST comes to that. -/
theorem Kept.sysMalloc (kept : Kept P s (InUse live) live) (keeper : Memory.Keeper dirs pf P)
    (bound : s.poolSize pf ≤ 2 ^ 28) (size : Nat) :
    Outcome P pf s live size (s.sysMalloc pf size) := by
  have own := keeper.owns kept.pages
  by_cases refused : ¬ (size > 0 ∧ size < s.poolSize pf)
  · unfold Allocator.sysMalloc
    rw [if_pos refused]
    exact ⟨rfl, .inl refused⟩
  have fits := (not_not.mp refused).2
  by_cases large : size > 1024
  · have asked : s.pagesAsked pf size = some (largePages size) := by
      unfold pagesAsked
      rw [if_neg refused, if_pos large]
    have call : s.sysMalloc pf size = s.mallocLarge pf size := by
      unfold Allocator.sysMalloc
      rw [if_neg refused, if_pos large]
    rw [call]
    cases hpage : s.memory.mallocPage pf (largePages size) with
    | error e =>
      unfold mallocLarge
      dsimp only
      rw [hpage]
      exact ⟨_, asked, hpage⟩
    | ok r =>
      obtain ⟨a, m⟩ := r
      cases a with
      | none =>
        unfold mallocLarge
        dsimp only
        rw [hpage]
        rcases Memory.mallocPage_ok own.agrees own.user hpage with ⟨-, rfl⟩ | ⟨i, hno, -⟩
        · exact ⟨rfl, .inr ⟨_, asked, hpage⟩⟩
        · cases hno
      | some a =>
        obtain ⟨b, s', hcall, serves⟩ :=
          kept.serve_large keeper large (Nat.lt_of_lt_of_le fits bound) hpage
        rw [hcall]
        exact serves
  have hsize := Nat.le_of_not_lt large
  have call : s.sysMalloc pf size = s.mallocSmall pf size := by
    unfold Allocator.sysMalloc
    rw [if_neg refused, if_neg large]
  rw [call]
  cases hlist : s.descs.freeList (matchDesc size) with
  | nil =>
    have asked : s.pagesAsked pf size = some 1 := by
      unfold pagesAsked
      rw [if_neg refused, if_neg large, if_pos hlist]
    cases hpage : s.memory.mallocPage pf 1 with
    | error e =>
      unfold mallocSmall newArena
      dsimp only
      rw [if_pos hlist, hpage]
      exact ⟨_, asked, hpage⟩
    | ok r =>
      obtain ⟨a, m⟩ := r
      cases a with
      | none =>
        unfold mallocSmall newArena
        dsimp only
        rw [if_pos hlist, hpage]
        rcases Memory.mallocPage_ok own.agrees own.user hpage with ⟨-, rfl⟩ | ⟨i, hno, -⟩
        · exact ⟨rfl, .inr ⟨_, asked, hpage⟩⟩
        · cases hno
      | some a =>
        obtain ⟨b, s', hcall, serves⟩ := kept.serve_arena keeper hsize hlist hpage
        rw [hcall]
        exact serves
  | cons b rest =>
    obtain ⟨hp, -⟩ := kept.order.takeHead hlist
    obtain ⟨hcall, serves⟩ :=
      kept.serve_small keeper hsize hlist fun p => ⟨.inl, fun h => h.elim id fun e => e ▸ hp⟩
    unfold mallocSmall
    dsimp only
    rw [hlist, if_neg (List.cons_ne_nil b rest)]
    show Outcome P pf s live size (s.takeBlock (matchDesc size) >>= _)
    rw [hcall]
    exact serves

/-- A REQUEST THAT FITS IS SERVED. -/
theorem Kept.sysMalloc_fits (kept : Kept P s (InUse live) live) (keeper : Memory.Keeper dirs pf P)
    (bound : s.poolSize pf ≤ 2 ^ 28) (nonzero : 0 < size) (small : size < s.poolSize pf)
    (fits : ∀ n, s.pagesAsked pf size = some n → n < 3840 ∧ s.memory.Available pf n) :
    ∃ b s', s.sysMalloc pf size = .ok (some b, s') ∧ Serves P s s' live size b := by
  have outcome := kept.sysMalloc keeper bound size
  have own := keeper.owns kept.pages
  have answers {n : Nat} (asked : s.pagesAsked pf size = some n) : ∃ a m, s.memory.mallocPage pf n =
      .ok (some a, m) := by
    obtain ⟨few, av⟩ := fits n asked
    exact Memory.mallocPage_some own.agrees own.user av
      ⟨pagesAsked_pos (Nat.lt_of_lt_of_le small bound) asked, few⟩
  cases hcall : s.sysMalloc pf size with
  | error e =>
    rw [hcall] at outcome
    obtain ⟨n, asked, fails⟩ := outcome
    obtain ⟨a, m, hpage⟩ := answers asked
    cases hpage.symm.trans fails
  | ok r =>
    obtain ⟨b, s'⟩ := r
    rw [hcall] at outcome
    cases b with
    | some b => exact ⟨b, s', rfl, outcome⟩
    | none =>
      rcases outcome.2 with refused | ⟨n, asked, none⟩
      · exact absurd ⟨nonzero, small⟩ refused
      · obtain ⟨a, m, hpage⟩ := answers asked
        cases hpage.symm.trans none

/-! ## Giving back -/

/-- What is left when a block has been given back. -/
structure Frees (P : Memory → (Nat → Prop) → Prop) (s s' : Allocator) (live : Finset Nat)
    (b : Nat) : Prop where
  kept : Kept P s' (InUse (live.erase b)) (live.erase b)
  rooms : ∀ c ∈ live.erase b, s'.descs.room c = s.descs.room c
  poolSize : s'.poolSize = s.poolSize
  pages : ∀ c ∈ live.erase b, s'.descs.arenaPages (block2arena c) =
    s.descs.arenaPages (block2arena c)
  words : ∀ a, s.descs.Covers (InUse (live.erase b)) (a / 1024) → s'.memory.word a = s.memory.word a

/-- The pages of an arena go back. -/
theorem Kept.dropPages (kept : Kept P s A live) (keeper : Memory.Keeper dirs pf P) (hp : A p)
    (hn : s.descs.arenaPages p = n) :
    ∃ m, s.memory.mfreePage pf p n = .ok m ∧ P m (s.descs.Covers fun q => A q ∧ q ≠ p) ∧
      ∀ x, s.descs.Covers (fun q => A q ∧ q ≠ p) (x / 1024) → m.word x = s.memory.word x := by
  have pos := kept.laid.pos p hp
  rw [hn] at pos
  have range (w : Nat) (h : p ≤ w) (h' : w < p + n) : s.descs.Covers A w := ⟨p, hp, h, hn.symm ▸ h'⟩
  obtain ⟨m, hcall, -, -, words⟩ := (keeper.owns kept.pages).mfreePage pos range
  refine ⟨m, hcall, pages_congr (keeper.mfreePage kept.pages pos range hcall) fun w => ?_,
    fun x hx => ?_⟩
  · rw [kept.laid.covers_drop hp]
    unfold BlockDescs.InPages
    rw [hn]
  · obtain ⟨here, gone⟩ := (kept.laid.covers_drop hp).mp hx
    unfold BlockDescs.InPages at gone
    rw [hn] at gone
    exact words x here gone

/-- A small block goes back. -/
theorem Kept.freeSmall (kept : Kept P s (InUse live) live) (keeper : Memory.Keeper dirs pf P)
    (hb : b ∈ live) (desc : (s.descs.arena (block2arena b)).desc = some i) :
    ∃ s', s.freeSmall pf b i = .ok s' ∧ Frees P s s' live b := by
  have hp : InUse live (block2arena b) := ⟨b, hb, rfl⟩
  have order := kept.order.giveBack hb desc
  generalize hcnt : u32 ((s.descs.arena (block2arena b)).cnt + 1) = cnt at order
  generalize hd : s.descs.recount i (block2arena b) (s.descs.freeList i ++ [b]) cnt = d at order
  have desc' : (d.arena (block2arena b)).desc = some i := by
    rw [← hd, BlockDescs.recount_desc, desc]
  have count : (d.arena (block2arena b)).cnt = cnt := by rw [← hd, BlockDescs.recount_cnt]
  have pages (q : Nat) : d.arenaPages q = s.descs.arenaPages q :=
    hd ▸ BlockDescs.recount_arenaPages desc
  have rooms (c : Nat) : d.room c = s.descs.room c := hd ▸ BlockDescs.recount_room desc
  have full := order.cnt_full hp desc'
  rw [count] at full
  unfold Allocator.freeSmall
  dsimp only
  rw [hcnt, show (s.descs.setFreeList i (s.descs.freeList i ++ [b])).setArena (block2arena b) _ =
    d from hd]
  by_cases last : cnt = blocksPerArena i
  · have none := full.mp last
    have used := inUse_erase none
    obtain ⟨d', htake, harena, order'⟩ := order.dropSmall hp desc' (count.trans last)
    obtain ⟨m, hfree, out, words⟩ := kept.dropPages keeper hp (BlockDescs.arenaPages_small desc)
    have pages' (q : Nat) : d'.arenaPages q = s.descs.arenaPages q := by
      rw [← pages]
      unfold BlockDescs.arenaPages
      rw [harena]
    have kept' : Kept P { s with memory := m, descs := d' } (fun q => InUse live q ∧
        q ≠ block2arena b) (live.erase b) :=
      { order := order', laid := kept.laid.drop.same fun q _ => pages' q,
        pages := pages_congr out fun w => (BlockDescs.covers_same fun q _ => pages' q).symm }
    rw [← used] at kept'
    refine ⟨{ s with memory := m, descs := d' }, ?_,
      { kept := kept', rooms := fun c _ => ?_, poolSize := rfl, pages := fun c _ => pages' _,
        words := fun x hx => ?_ }⟩
    · rw [if_pos last, htake, ok_bind, hfree]
      rfl
    · exact (BlockDescs.room_same (congrFun harena _)).trans (rooms c)
    · exact words x (used ▸ hx)
  · have used (q : Nat) : InUse live q ↔ InUse (live.erase b) q := by
      constructor
      · rintro ⟨c, hc, rfl⟩
        by_cases page : block2arena c = block2arena b
        · by_contra hno
          apply last
          apply full.mpr
          intro x hx hpage
          exact hno ⟨x, hx, hpage.trans page.symm⟩
        · exact ⟨c, Finset.mem_erase.mpr ⟨fun e => page (e ▸ rfl), hc⟩, rfl⟩
      · rintro ⟨c, hc, rfl⟩
        exact ⟨c, Finset.mem_of_mem_erase hc, rfl⟩
    have kept' : Kept P { s with descs := d } (InUse live) (live.erase b) :=
      { order, laid := kept.laid.same fun q _ => pages q,
        pages := pages_congr kept.pages fun w => (BlockDescs.covers_same fun q _ => pages q).symm }
    refine ⟨{ s with descs := d }, ?_,
      { kept := kept'.congr used, rooms := fun c _ => rooms c, poolSize := rfl,
        pages := fun c _ => pages _, words := fun _ _ => rfl }⟩
    rw [if_neg last]
    rfl

/-- A BLOCK THAT IS LIVE CAN BE GIVEN BACK. -/
theorem Kept.sysFree (kept : Kept P s (InUse live) live) (keeper : Memory.Keeper dirs pf P)
    (hb : b ∈ live) : ∃ s', s.sysFree pf b = .ok s' ∧ Frees P s s' live b := by
  have hp : InUse live (block2arena b) := ⟨b, hb, rfl⟩
  have covers := kept.laid.covers hp
  have place := (kept.order.blocks b hb).place.1
  unfold arenaSize at place
  have nonzero : b ≠ 0 := by omega
  have low : lowestPtr pf ≤ b := by
    cases pf with
    | kernel =>
      have heap : kHeapStart ≤ block2arena b := ((keeper.owns kept.pages).heap _ covers).1
      show 4096 * kHeapStart ≤ b
      omega
    | user => exact Nat.zero_le b
  obtain ⟨words, hread⟩ := (keeper.owns kept.pages).readPage covers "sys_free"
  unfold Allocator.sysFree
  rw [assertThat_of nonzero, ok_bind, assertThat_of low, ok_bind]
  dsimp only
  rw [hread, ok_bind]
  cases desc : (s.descs.arena (block2arena b)).desc with
  | some i => exact kept.freeSmall keeper hb desc
  | none =>
    have large : (s.descs.arena (block2arena b)).large = true := by
      cases kept.order.blocks b hb with
      | small i h =>
        rw [desc] at h
        cases h
      | large _ large => exact large
    obtain ⟨m, hfree, out, words⟩ := kept.dropPages keeper hp (BlockDescs.arenaPages_large desc)
    have order := kept.order.dropLarge hb desc
    have used := inUse_erase fun c hc => (order.arenas c hc).2
    have kept' :
        Kept P { s with memory := m } (fun q => InUse live q ∧ q ≠ block2arena b) (live.erase b) :=
      { order, laid := kept.laid.drop, pages := out }
    rw [← used] at kept'
    refine ⟨{ s with memory := m }, ?_,
      { kept := kept', rooms := fun _ _ => rfl, poolSize := rfl, pages := fun _ _ => rfl,
        words := fun x hx => ?_ }⟩
    · dsimp only
      rw [if_pos large, hfree]
      rfl
    · exact words x (used ▸ hx)

/-! ## What is written -/

/-- The words of a header are words of a page of the heap, and of no block. -/
theorem Kept.header (kept : Kept P s A live) (hp : A p) (ha : a ∈ headerWords p) :
    s.descs.Covers A (a / 1024) ∧ ∀ c ∈ live, ¬ s.descs.InBlock c (4 * a) := by
  have inHeader := mem_headerWords.mp ha
  constructor
  · have page : a / 1024 = p := by
      unfold BlockDescs.InHeader arenaSize at inHeader
      omega
    exact page ▸ kept.laid.covers hp
  · intro c hc h
    exact kept.order.header_apart kept.laid hc hp h inHeader

/-- So are those of a block that is free. -/
theorem Kept.link (kept : Kept P s A live) (hb : b ∈ s.descs.freeList i) (ha : a ∈ linkWords b) :
    s.descs.Covers A (a / 1024) ∧ ∀ c ∈ live, ¬ s.descs.InBlock c (4 * a) := by
  obtain ⟨p, hp, desc, hblock, -⟩ := (kept.order.lists i b).mp hb
  have := blockSize_aligned i
  obtain ⟨low, high⟩ := (mem_linkWords hblock.aligned).mp ha
  constructor
  · obtain rfl := hblock.page
    have block : s.descs.Live b := .small i desc hblock
    have here := block.inPages ⟨low, (BlockDescs.room_small desc).symm ▸ (by omega)⟩
    rw [show 4 * a / 4096 = a / 1024 by omega] at here
    exact ⟨_, hp, here⟩
  · intro c hc
    exact kept.order.free_apart kept.laid hb hc low (by omega)

/-- The words of a live block are words of pages of the heap. -/
theorem Kept.block (kept : Kept P s A live) (hb : b ∈ live) (ha : s.descs.InBlock b (4 * a)) :
    s.descs.Covers A (a / 1024) := by
  have here := (kept.order.blocks b hb).inPages ha
  rw [show 4 * a / 4096 = a / 1024 by omega] at here
  exact ⟨_, kept.order.arenas b hb, here⟩

/-- THE BLOCK THAT IS ANSWERED IS CLEAR, and the others keep their words. -/
theorem Serves.writes (serves : Serves P s s' live size b) (keeper : Memory.Keeper dirs pf P)
    (words : Nat → Nat) :
    ∃ m, s'.mallocWrites size b words = .ok m ∧
      Kept P { s' with memory := m } (InUse (insert b live)) (insert b live) ∧
      (∀ a, s'.descs.InBlock b (4 * a) → m.word a = some 0) ∧
      ∀ c ∈ live, ∀ a, s'.descs.InBlock c (4 * a) → m.word a = s'.memory.word a := by
  have kept := serves.kept
  have hb : b ∈ insert b live := Finset.mem_insert_self b live
  have hp : InUse (insert b live) (block2arena b) := ⟨b, hb, rfl⟩
  have header {a : Nat} (ha : a ∈ headerWords (block2arena b)) := kept.header hp ha
  unfold mallocWrites
  by_cases large : size > 1024
  · obtain ⟨m, hput, kept', put⟩ :=
      kept.putWords keeper "sys_malloc" words (headerWords (block2arena b)) fun a ha =>
        (header ha).1
    have same {c a : Nat} (hc : c ∈ insert b live) (ha : s'.descs.InBlock c (4 * a)) :
        m.word a = s'.memory.word a := by
      rw [put a (kept.block hc ha), if_neg fun h => (header h).2 c hc ha]
    rw [if_pos large]
    refine ⟨m, hput, kept', fun a ha => ?_, fun c hc a => same (Finset.mem_insert_of_mem hc)⟩
    rw [same hb ha]
    have page := (kept.order.blocks b hb).inPages ha
    rw [show 4 * a / 4096 = a / 1024 by omega] at page
    exact serves.large large a page
  · have hsize := Nat.le_of_not_lt large
    have desc := serves.small hsize
    have aligned := (kept.order.blocks b hb).aligned
    have mem {a : Nat} : a ∈ blockWords b (blockSize (matchDesc size)) ↔
        s'.descs.InBlock b (4 * a) := by
      unfold BlockDescs.InBlock
      rw [mem_blockWords aligned (blockSize_aligned _).2, BlockDescs.room_small desc]
    have link {a : Nat} (ha : a ∈ (s'.descs.freeList (matchDesc size)).flatMap linkWords) :
        s'.descs.Covers (InUse (insert b live)) (a / 1024) ∧
          ∀ c ∈ insert b live, ¬ s'.descs.InBlock c (4 * a) := by
      obtain ⟨f, hf, ha⟩ := List.mem_flatMap.mp ha
      exact kept.link hf ha
    obtain ⟨m₁, hput₁, kept₁, put₁⟩ :=
      kept.putWords keeper "sys_malloc" words _ fun a ha => (link ha).1
    obtain ⟨m₂, hput₂, kept₂, put₂⟩ :=
      kept₁.putWords keeper "sys_malloc" (fun _ => 0) (blockWords b (blockSize (matchDesc size)))
      fun a ha => kept.block hb (mem.mp ha)
    obtain ⟨m₃, hput₃, kept₃, put₃⟩ :=
      kept₂.putWords keeper "sys_malloc" words (headerWords (block2arena b)) fun a ha =>
        (header ha).1
    dsimp only at hput₂ hput₃ put₂ put₃
    rw [if_neg large]
    dsimp only
    refine ⟨m₃, ?_, kept₃, fun a ha => ?_, fun c hc a ha => ?_⟩
    · rw [hput₁, ok_bind, hput₂, ok_bind, hput₃]
    · have covers := kept.block hb ha
      rw [put₃ a covers, if_neg fun h => (header h).2 b hb ha, put₂ a covers, if_pos (mem.mpr ha)]
    · have hc' : c ∈ insert b live := Finset.mem_insert_of_mem hc
      have covers := kept.block hc' ha
      have hne : b ≠ c := by
        rintro rfl
        exact serves.new hc
      rw [put₃ a covers, if_neg fun h => (header h).2 c hc' ha, put₂ a covers,
        if_neg fun h => kept.order.apart kept.laid hb hc' hne (mem.mp h) ha, put₁ a covers,
        if_neg fun h => (link h).2 c hc' ha]

/-- What `sys_free` writes is in no block that stays. -/
theorem Kept.freeWrites (kept : Kept P s (InUse live) live) (keeper : Memory.Keeper dirs pf P)
    (hb : b ∈ live) (words : Nat → Nat) :
    ∃ m, s.freeWrites b words = .ok m ∧ Kept P { s with memory := m } (InUse live) live ∧
      ∀ c ∈ live.erase b, ∀ a, s.descs.InBlock c (4 * a) → m.word a = s.memory.word a := by
  unfold Allocator.freeWrites
  cases desc : (s.descs.arena (block2arena b)).desc with
  | none => exact ⟨s.memory, rfl, kept, fun _ _ _ _ => rfl⟩
  | some i =>
    dsimp only
    have hp : InUse live (block2arena b) := ⟨b, hb, rfl⟩
    have place {a : Nat} (ha : a ∈ (s.descs.freeList i ++ [b]).flatMap linkWords ++
        headerWords (block2arena b)) :
        s.descs.Covers (InUse live) (a / 1024) ∧
          ∀ c ∈ live.erase b, ¬ s.descs.InBlock c (4 * a) := by
      rcases List.mem_append.mp ha with ha | ha
      · obtain ⟨f, hf, ha'⟩ := List.mem_flatMap.mp ha
        rcases List.mem_append.mp hf with hf | hf
        · obtain ⟨covers, no⟩ := kept.link hf ha'
          exact ⟨covers, fun c hc => no c (Finset.mem_of_mem_erase hc)⟩
        · -- the links of the block itself lie in it
          obtain rfl := List.mem_singleton.mp hf
          have hblock := kept.order.isBlock hb desc
          have := blockSize_aligned i
          obtain ⟨low, high⟩ := (mem_linkWords hblock.aligned).mp ha'
          have inBlock : s.descs.InBlock f (4 * a) :=
            ⟨low, (BlockDescs.room_small desc).symm ▸ (by omega)⟩
          refine ⟨kept.block hb inBlock, fun c hc => ?_⟩
          obtain ⟨hne, hc⟩ := Finset.mem_erase.mp hc
          exact kept.order.apart kept.laid hb hc hne.symm inBlock
      · obtain ⟨covers, no⟩ := kept.header hp ha
        exact ⟨covers, fun c hc => no c (Finset.mem_of_mem_erase hc)⟩
    obtain ⟨m, hput, kept', put⟩ := kept.putWords keeper "sys_free" words _ fun a ha => (place ha).1
    refine ⟨m, hput, kept', fun c hc a ha => ?_⟩
    rw [put a (kept.block (Finset.mem_of_mem_erase hc) ha), if_neg fun h => (place h).2 c hc ha]

end Allocator

end SeekingOs
