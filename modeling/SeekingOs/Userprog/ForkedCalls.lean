import SeekingOs.Kernel.Heap
import SeekingOs.Userprog.ForkedLists

/-!
# The calls of one process

A process whose lists hold blocks of its own arenas is an allocator of its own: `sys_malloc`, and
`sys_free` of a block of one of these arenas, go in lockstep with the calls of that allocator. What
belongs to other processes is not touched.
-/

namespace SeekingOs

open Lib

/-- A header whose descriptor is one of the process. -/
def Arena.under (p : Side) (a : Arena) : TaskArena :=
  ⟨a.desc.map fun descIdx => (.side p, descIdx), a.cnt, a.large⟩

@[simp] theorem Arena.under_cnt {p : Side} {a : Arena} : (a.under p).cnt = a.cnt := rfl

namespace ForkedHeaps

open Allocator

variable {s s' s₁ : ForkedHeaps} {p q : Side} {m m₁ : Memory} {i b page n size a : Nat}
  {x : Allocator} {A B T : Nat → Prop} {L : Finset Nat}
  {dirs : List Nat} {P : Memory → (Nat → Prop) → Prop}

/-! ## What a process keeps to -/

/-- THE PROCESS KEEPS TO ITSELF: what others have is as it was, and its headers outside the pages of
`T`. -/
structure KeepsTo (s s' : ForkedHeaps) (p : Side) (T : Nat → Prop) : Prop where
  others : ∀ q, q ≠ p → s'.space q = s.space q
  descs : ∀ o, o ≠ .side p → s'.descs o = s.descs o
  cr3 : (s'.space p).cr3 = (s.space p).cr3
  arena : ∀ w, ¬ T w → (s'.space p).arena w = (s.space p).arena w
  poolSize : s'.poolSize = s.poolSize
  live : s'.live = s.live

theorem KeepsTo.trans (first : KeepsTo s s₁ p T) (second : KeepsTo s₁ s' p T) :
    KeepsTo s s' p T where
  others q hq := (second.others q hq).trans (first.others q hq)
  descs o ho := (second.descs o ho).trans (first.descs o ho)
  cr3 := second.cr3.trans first.cr3
  arena w hw := (second.arena w hw).trans (first.arena w hw)
  poolSize := second.poolSize.trans first.poolSize
  live := second.live.trans first.live

theorem Relinks.keepsTo (re : Relinks s s' p) : KeepsTo s s' p T where
  others := re.others
  descs := re.descs
  cr3 := re.cr3
  arena w _ := congrFun re.arena w
  poolSize := re.poolSize
  live := re.live

theorem keepsTo_setMemory : KeepsTo s (s.setMemory p m) p T := by
  have self : (s.setMemory p m).space p = { s.space p with userVaddr := m.userVaddr } :=
    setSpace_self
  exact ⟨fun q hq => setSpace_ne hq, fun _ _ => rfl, by rw [self],
    fun _ _ => by rw [self], rfl, rfl⟩

theorem keepsTo_setArena {h : TaskArena} (hT : T page) : KeepsTo s (s.setArena p page h) p T := by
  have self : (s.setArena p page h).space p =
      { s.space p with arena := Function.update (s.space p).arena page h } := setSpace_self
  refine ⟨fun q hq => setSpace_ne hq, fun _ _ => rfl, by rw [self], fun w hw => ?_, rfl, rfl⟩
  rw [self]
  apply Function.update_of_ne
  rintro rfl
  exact hw hT

/-! ## The memory of the process -/

theorem view_setMemory (cr3 : m.cr3 = (s.space p).cr3) : (s.setMemory p m).view p = m := by
  have self : (s.setMemory p m).space p = { s.space p with userVaddr := m.userVaddr } :=
    setSpace_self
  unfold ForkedHeaps.view
  rw [self, ← cr3]
  rfl

theorem view_setArena {h : TaskArena} : (s.setArena p page h).view p = s.view p := by
  have self : (s.setArena p page h).space p =
      { s.space p with arena := Function.update (s.space p).arena page h } := setSpace_self
  unfold ForkedHeaps.view
  rw [self]
  rfl

theorem setArena_self {h : TaskArena} : ((s.setArena p page h).space p).arena page = h := by
  unfold setArena
  rw [setSpace_self]
  exact Function.update_self _ _ _

theorem setArena_ne {h : TaskArena} {w : Nat} (hw : w ≠ page) :
    ((s.setArena p page h).space p).arena w = (s.space p).arena w := by
  unfold setArena
  rw [setSpace_self]
  exact Function.update_of_ne hw _ _

theorem clearPages_cr3 {func : String} (h : m.clearPages func a n = .ok m₁) : m₁.cr3 = m.cr3 := by
  induction n generalizing m a with
  | zero =>
    cases h
    rfl
  | succ n ih =>
    obtain ⟨m₂, hwrite, hrest⟩ := bind_eq_ok.mp h
    rw [ih hrest]
    unfold Memory.writePage at hwrite
    split at hwrite
    · cases hwrite
    · cases hwrite
      rfl

/-! ## One process as an allocator -/

/-- THE ALLOCATOR `x` DESCRIBES the heap of the process: its memory, its lists, and the headers of
these arenas. -/
structure Reps (s : ForkedHeaps) (p : Side) (x : Allocator) (A : Nat → Prop) : Prop where
  memory : x.memory = s.view p
  poolSize : x.poolSize .user = s.poolSize
  lists : s.Lists p x.descs.freeList
  arenas : ∀ w, A w → (s.space p).arena w = (x.descs.arena w).under p

theorem Reps.cr3 (reps : s.Reps p x A) : x.memory.cr3 = (s.space p).cr3 := by
  rw [reps.memory]
  rfl

theorem Reps.mono (reps : s.Reps p x A) (h : ∀ w, B w → A w) : s.Reps p x B :=
  ⟨reps.memory, reps.poolSize, reps.lists, fun w hw => reps.arenas w (h w hw)⟩

/-- The memory changes. -/
theorem Reps.setMemory (reps : s.Reps p x A) (cr3 : m.cr3 = (s.space p).cr3) :
    (s.setMemory p m).Reps p { x with memory := m } A where
  memory := (view_setMemory cr3).symm
  poolSize := reps.poolSize
  lists := reps.lists.congr fun _ _ y _ => congrFun nodes_setMemory y
  arenas w hw := ((@keepsTo_setMemory s p m fun _ => False).arena w id).trans (reps.arenas w hw)

/-- A header is written. -/
theorem Reps.setArena (reps : s.Reps p x A) (page : Nat) (h : Arena) :
    (s.setArena p page (h.under p)).Reps p { x with descs := x.descs.setArena page h }
      (fun w => A w ∨ w = page) where
  memory := reps.memory.trans view_setArena.symm
  poolSize := reps.poolSize
  lists := reps.lists.congr fun i _ y _ => congrFun nodes_setArena y
  arenas w hw := by
    by_cases hp : w = page
    · rw [hp, setArena_self, BlockDescs.setArena_arena_self]
    · rw [setArena_ne hp, BlockDescs.setArena_arena_ne hp]
      exact reps.arenas w (hw.resolve_right hp)

/-- Links change, and lists with them. -/
theorem Reps.relink {d : BlockDescs} (reps : s.Reps p x A) (re : Relinks s s' p)
    (lists : s'.Lists p d.freeList) (arena : d.arena = x.descs.arena) :
    s'.Reps p { x with descs := d } A where
  memory := reps.memory.trans re.view.symm
  poolSize := reps.poolSize.trans re.poolSize.symm
  lists := lists
  arenas w hw := by
    rw [re.arena, show d.arena w = _ from congrFun arena w]
    exact reps.arenas w hw

/-- Links outside the lists are cleared. -/
theorem Reps.clearLinks (reps : s.Reps p x A) (first last : Nat)
    (out : ∀ j < descCnt, ∀ c ∈ x.descs.freeList j, ¬ (first ≤ c ∧ c < last)) :
    (s.clearLinks p first last).Reps p x A := by
  refine reps.relink relinks_clearLinks
    (reps.lists.congr fun j hj y hy => nodes_clearLinks fun c hc => ?_) rfl
  rw [mem_listNodes, hc] at hy
  simp only [reduceCtorEq, ListElem.block.injEq, exists_eq_right', false_or, or_false] at hy
  exact out j hj c hy

/-! ## Blocks and pages -/

/-- A block of a list is in a page of an arena. -/
theorem list_page {d : BlockDescs} (ord : d.InOrder A L) (hb : b ∈ d.freeList i) :
    A (block2arena b) := by
  obtain ⟨w, hw, -, hblock, -⟩ := (ord.lists i b).mp hb
  exact hblock.page ▸ hw

/-- No block of a list starts inside another one. -/
theorem list_spread {d : BlockDescs} {j c : Nat} (ord : d.InOrder A L) (hb : b ∈ d.freeList i)
    (hc : c ∈ d.freeList j) (hne : c ≠ b) : ¬ (b ≤ c ∧ c < b + blockSize i) := by
  obtain ⟨w, -, desc, hb, -⟩ := (ord.lists i b).mp hb
  obtain ⟨w', -, desc', hc, -⟩ := (ord.lists j c).mp hc
  intro inside
  by_cases page : w = w'
  · subst page
    obtain rfl := Option.some.inj (desc.symm.trans desc')
    have pos := blockSize_pos i
    rcases BlockDescs.isBlock_apart hb hc hne.symm with h | h <;> omega
  · obtain ⟨idx, hidx, rfl⟩ := hb
    obtain ⟨first, final⟩ := @arena2block_page w i idx hidx
    have at' : c / 4096 = w' := hc.page
    omega

/-- Pages that the heap does not have are in no list. -/
theorem list_outside {d : BlockDescs} {v : Nat} (kept : Kept P x A L) (hd : d = x.descs)
    (new : ∀ w, v ≤ w → w < v + n → ¬ d.Covers A w) (hb : b ∈ d.freeList i) :
    ¬ (4096 * v ≤ b ∧ b < 4096 * (v + n)) := by
  subst hd
  intro inside
  apply new (block2arena b)
  · unfold block2arena
    omega
  · unfold block2arena
    omega
  · exact kept.laid.covers (list_page kept.order hb)

/-- The lists are short: a block is below the kernel. -/
theorem list_length (kept : Kept P x A L) (keeper : Memory.Keeper dirs .user P) (i : Nat) :
    (x.descs.freeList i).length + 1 < 2 ^ 32 := by
  have own := keeper.owns kept.pages
  have low : ∀ b ∈ x.descs.freeList i, b < 4096 * kernelStart := by
    intro b hb
    have heap := own.heap _ (kept.laid.covers (list_page kept.order hb))
    have below : block2arena b < kernelStart := by
      rw [← own.agrees.userSize (own.user rfl)]
      exact heap.2.1
    unfold block2arena at below
    omega
  have sub : x.descs.freeList i ⊆ List.range (4096 * kernelStart) :=
    fun b hb => List.mem_range.mpr (low b hb)
  have short := (List.Nodup.subperm (kept.order.nodup i) sub).length_le
  rw [List.length_range] at short
  unfold kernelStart at short
  omega

/-! ## `sys_malloc` -/

/-- The blocks that are got when a request has been answered. -/
def got (L : Finset Nat) : Option Nat → Finset Nat
  | some b => insert b L
  | none => L

/-- What a request leaves, in both models. -/
def Answers (s : ForkedHeaps) (p : Side) (L : Finset Nat) (r : Option Nat × ForkedHeaps)
    (r' : Option Nat × Allocator) : Prop :=
  r.1 = r'.1 ∧ r.2.Reps p r'.2 (InUse (got L r.1)) ∧ s.KeepsTo r.2 p (InUse (got L r.1))

/-- The first block of a list is taken. -/
theorem Reps.takeBlock (reps : s.Reps p x A) (ord : x.descs.InOrder A L) (hi : i < descCnt) :
    Lockstep (fun r r' => r.1 = r'.1 ∧ r.2.Reps p r'.2 A ∧ s.KeepsTo r.2 p (· = block2arena r.1) ∧
      r.1 ∈ x.descs.freeList i)
      (s.takeBlock p i) (x.takeBlock i) := by
  have il := reps.lists.isList i hi
  unfold ForkedHeaps.takeBlock Allocator.takeBlock
  cases hlist : x.descs.freeList i with
  | nil =>
    rw [hlist] at il
    rw [il.empty_iff.mpr rfl]
    rfl
  | cons b rest =>
    rw [hlist, List.map_cons] at il
    have first : (s.nodes p (.head (.side p) i)).next = .block b := il.linked.1
    have hb : b ∈ x.descs.freeList i := hlist ▸ List.mem_cons_self
    have hp := list_page ord hb
    obtain ⟨lists, re⟩ := reps.lists.listRemove hi hb
    rw [hlist, List.erase_cons_head] at lists
    have off : (s.listRemove p (.block b)).Reps p { x with descs := x.descs.setFreeList i rest }
        A := reps.relink re lists rfl
    have clear := off.clearLinks b (b + blockSize i) fun j hj c hc => by
      have mem : c ∈ x.descs.freeList j ∧ c ≠ b := by
        by_cases h : j = i
        · subst h
          rw [BlockDescs.setFreeList_freeList_self] at hc
          have nodup := ord.nodup j
          rw [hlist, List.nodup_cons] at nodup
          refine ⟨hlist ▸ List.mem_cons_of_mem b hc, ?_⟩
          rintro rfl
          exact nodup.1 hc
        · rw [BlockDescs.setFreeList_freeList_ne h] at hc
          refine ⟨hc, ?_⟩
          rintro rfl
          exact h (reps.lists.apart j hj i hi c hc hb)
      exact list_spread ord hb mem.1 mem.2
    have keeps : s.KeepsTo ((s.listRemove p (.block b)).clearLinks p b (b + blockSize i)) p
        (· = block2arena b) :=
      re.keepsTo.trans relinks_clearLinks.keepsTo
    have head := off.arenas _ hp
    rw [first]
    dsimp only
    rw [re.view, ← reps.memory]
    refine Lockstep.same fun _ _ => Lockstep.same fun _ _ => ?_
    have counted :=
      clear.setArena (block2arena b)
        { x.descs.arena (block2arena b) with cnt := u32 ((x.descs.arena (block2arena b)).cnt - 1) }
    have arena : (((s.listRemove p (.block b)).clearLinks p b (b + blockSize i)).space p).arena
        (block2arena b) =
        (x.descs.arena (block2arena b)).under p := clear.arenas _ hp
    show _ ∧ _ ∧ _ ∧ _
    rw [arena]
    exact ⟨rfl, counted.mono fun w hw => .inl hw, keeps.trans (keepsTo_setArena rfl),
      List.mem_cons_self⟩

/-- A new arena. -/
theorem Reps.newArena (reps : s.Reps p x A) (kept : Kept P x A L) (hi : i < descCnt)
    (empty : x.descs.freeList i = []) (hpage : (s.view p).mallocPage .user 1 = .ok (some a, m))
    (hclear : m.clearPages "sys_malloc" a 1 = .ok m₁) (cr3 : m.cr3 = (s.space p).cr3)
    (new : ∀ w, a ≤ w → w < a + 1 → ¬ x.descs.Covers A w) :
    ∃ s₁, s.newArena p i = .ok (true, s₁) ∧
      s₁.Reps p { x with memory := m₁, descs := x.descs.cutArena a i } (fun w => A w ∨ w = a) ∧
      s.KeepsTo s₁ p (· = a) := by
  have outside {j c : Nat} (hc : c ∈ x.descs.freeList j) : ¬ (4096 * a ≤ c ∧ c < 4096 * (a + 1)) :=
    list_outside kept rfl new hc
  have there := reps.setMemory ((clearPages_cr3 hclear).trans cr3)
  have clear := there.clearLinks (4096 * a) (4096 * (a + 1)) fun j _ c hc => outside hc
  have headed := clear.setArena a ⟨some i, blocksPerArena i, false⟩
  have keeps :
      s.KeepsTo ((((s.setMemory p m₁).clearLinks p (4096 * a) (4096 * (a + 1)))).setArena p a
      (Arena.under p ⟨some i, blocksPerArena i, false⟩)) p (· = a) :=
    (keepsTo_setMemory.trans relinks_clearLinks.keepsTo).trans (keepsTo_setArena rfl)
  have fresh (j : Nat) (_ : j < descCnt) (k : Nat) (_ : 0 ≤ k) (hk : k < 0 + blocksPerArena i) :
      arena2block a i k ∉ x.descs.freeList j := by
    intro hc
    have := (@arena2block_page a i k (by omega)).1
    exact outside hc (by omega)
  have few := @blocksPerArena_lt i
  have split := headed.lists.splitArena hi fresh (by
    rw [show (x.descs.setArena a _).freeList i = _ from empty, List.length_nil]
    omega)
  obtain ⟨s₁, hsplit, lists, re, arena⟩ := split.of_ok (cutArena_eq a empty)
  refine ⟨s₁, ?_, headed.relink re lists arena, keeps.trans re.keepsTo⟩
  unfold ForkedHeaps.newArena
  rw [hpage, ok_bind]
  dsimp only
  rw [hclear, ok_bind]
  refine bind_eq_ok.mpr ⟨s₁, hsplit, rfl⟩

/-- What `malloc_page` answers to the process. -/
theorem Kept.allotted (kept : Kept P x A L) (keeper : Memory.Keeper dirs .user P)
    (hpage : x.memory.mallocPage .user n = .ok (some a, m)) :
    m.cr3 = x.memory.cr3 ∧ ∃ m₁, m.clearPages "sys_malloc" a n = .ok m₁ ∧ ∀ w, a ≤ w → w < a + n →
      ¬ x.descs.Covers A w := by
  obtain ⟨m₁, hclear, -, new, -⟩ := kept.newPages keeper hpage
  have own := keeper.owns kept.pages
  exact ⟨(Memory.mallocPage_allotted own.agrees own.user hpage).cr3, m₁, hclear, new⟩

/-- `NULL` changes nothing. -/
theorem Kept.none (kept : Kept P x A L) (keeper : Memory.Keeper dirs .user P)
    (hpage : x.memory.mallocPage .user n = .ok (none, m)) : m = x.memory := by
  have own := keeper.owns kept.pages
  rcases Memory.mallocPage_ok own.agrees own.user hpage with ⟨-, same⟩ | ⟨i, hno, -⟩
  · exact same
  · cases hno

/-- A request that gets nothing. -/
theorem Reps.answers_none (reps : s.Reps p x (InUse L)) (cr3 : m.cr3 = (s.space p).cr3) :
    Answers s p L (none, s.setMemory p m) (none, { x with memory := m }) :=
  ⟨rfl, reps.setMemory cr3, keepsTo_setMemory⟩

/-- A large request. -/
theorem Reps.mallocLarge (reps : s.Reps p x (InUse L)) (kept : Kept P x (InUse L) L)
    (keeper : Memory.Keeper dirs .user P) (size : Nat) :
    Lockstep (Answers s p L) (s.mallocLarge p size) (x.mallocLarge .user size) := by
  have cr3 := reps.cr3
  unfold ForkedHeaps.mallocLarge Allocator.mallocLarge
  dsimp only
  rw [← reps.memory]
  refine Lockstep.same fun r hpage => ?_
  obtain ⟨r, m⟩ := r
  cases r with
  | none =>
    obtain rfl := Kept.none kept keeper hpage
    exact reps.answers_none cr3
  | some a =>
    obtain ⟨hcr3, m₁, hclear, new⟩ := Kept.allotted kept keeper hpage
    dsimp only
    refine Lockstep.same fun m₂ hclear => ?_
    have there := reps.setMemory ((clearPages_cr3 hclear).trans (hcr3.trans cr3))
    have clear :=
      there.clearLinks (4096 * a) (4096 * (a + largePages size)) fun j _ c hc =>
        list_outside kept rfl new hc
    have headed := clear.setArena a ⟨none, largePages size, true⟩
    have used (w : Nat) : InUse (got L (some (4096 * a + arenaSize))) w ↔ InUse L w ∨ w = a := by
      have page : block2arena (4096 * a + arenaSize) = a := by
        unfold block2arena arenaSize
        omega
      show InUse (insert (4096 * a + arenaSize) L) w ↔ _
      rw [inUse_insert, page]
    refine ⟨rfl, headed.mono fun w hw => (used w).mp hw, ?_⟩
    exact (keepsTo_setMemory.trans relinks_clearLinks.keepsTo).trans
      (keepsTo_setArena ((used a).mpr (.inr rfl)))

/-- KeepsTo, for more pages. -/
theorem KeepsTo.mono {U : Nat → Prop} (keeps : KeepsTo s s' p T) (h : ∀ w, T w → U w) :
    KeepsTo s s' p U :=
  { keeps with arena := fun w hw => keeps.arena w fun hT => hw (h w hT) }

/-- A small request, when there is a block for it. -/
theorem Reps.answers_block (reps : s₁.Reps p x A) (ord : x.descs.InOrder A L) (hi : i < descCnt)
    (keeps : ∀ b ∈ x.descs.freeList i, s.KeepsTo s₁ p (InUse (insert b L)))
    (used : ∀ b ∈ x.descs.freeList i, ∀ w, InUse (insert b L) w → A w) :
    Lockstep (Answers s p L) (s₁.takeBlock p i >>= fun r => pure (some r.1, r.2))
      (x.takeBlock i >>= fun r => pure (some r.1, r.2)) := by
  refine (reps.takeBlock ord hi).bind fun r r' _ _ h => ?_
  obtain ⟨same, reps', keeps', hb⟩ := h
  refine ⟨congrArg some same, reps'.mono (used _ hb), (keeps _ hb).trans (keeps'.mono ?_)⟩
  rintro w rfl
  exact ⟨r.1, Finset.mem_insert_self r.1 L, rfl⟩

/-- A small request. -/
theorem Reps.mallocSmall (reps : s.Reps p x (InUse L)) (kept : Kept P x (InUse L) L)
    (keeper : Memory.Keeper dirs .user P) (hsize : size ≤ 1024) :
    Lockstep (Answers s p L) (s.mallocSmall p size) (x.mallocSmall .user size) := by
  have cr3 := reps.cr3
  have hi := matchDesc_lt hsize
  unfold ForkedHeaps.mallocSmall Allocator.mallocSmall
  dsimp only
  generalize matchDesc size = i at hi
  by_cases empty : x.descs.freeList i = []
  · rw [if_pos ((reps.lists.listEmpty hi).mpr empty), if_pos empty]
    cases hpage : x.memory.mallocPage .user 1 with
    | error e =>
      unfold ForkedHeaps.newArena Allocator.newArena
      rw [← reps.memory, hpage]
      rfl
    | ok r =>
      obtain ⟨r, m⟩ := r
      cases r with
      | none =>
        obtain rfl := Kept.none kept keeper hpage
        unfold ForkedHeaps.newArena Allocator.newArena
        rw [← reps.memory, hpage]
        exact reps.answers_none cr3
      | some a =>
        obtain ⟨hcr3, m₁, hclear, new⟩ := Kept.allotted kept keeper hpage
        obtain ⟨s₁, harena, reps₁, keeps⟩ :=
          reps.newArena kept hi empty (reps.memory ▸ hpage) hclear (hcr3.trans cr3) new
        rw [harena, newArena_eq empty hpage hclear, ok_bind, ok_bind]
        dsimp only
        rw [if_pos rfl, if_pos rfl]
        have hnew : ¬ InUse L a :=
          fun h => new a (Nat.le_refl a) (Nat.lt_succ_self a) (kept.laid.covers h)
        have page {b : Nat} (hb : b ∈ (x.descs.cutArena a i).freeList i) : block2arena b = a := by
          rw [show (x.descs.cutArena a i).freeList i = arenaBlocks a i from
            BlockDescs.setFreeList_freeList_self] at hb
          exact (mem_arenaBlocks.mp hb).page
        refine reps₁.answers_block (kept.order.addSmall hi empty hnew) hi
          (fun b hb => keeps.mono ?_) fun b hb w hw => ?_
        · rintro w rfl
          exact ⟨b, Finset.mem_insert_self b L, page hb⟩
        · rcases inUse_insert.mp hw with h | h
          · exact .inl h
          · exact .inr (h.trans (page hb))
  · rw [if_neg fun h => empty ((reps.lists.listEmpty hi).mp h), if_neg empty]
    refine reps.answers_block kept.order hi (fun b _ => (Relinks.refl s p).keepsTo) fun b hb w hw =>
      ?_
    rcases inUse_insert.mp hw with h | rfl
    · exact h
    · exact list_page kept.order hb

/-- `sys_malloc`, ANY REQUEST: the process gets what the allocator answers. -/
theorem Reps.sysMalloc (reps : s.Reps p x (InUse L)) (kept : Kept P x (InUse L) L)
    (keeper : Memory.Keeper dirs .user P) (size : Nat) :
    Lockstep (Answers s p L) (s.sysMalloc p size) (x.sysMalloc .user size) := by
  unfold ForkedHeaps.sysMalloc Allocator.sysMalloc
  rw [reps.poolSize]
  split
  · exact ⟨rfl, reps, (Relinks.refl s p).keepsTo⟩
  split
  · exact reps.mallocLarge kept keeper size
  · next hsize => exact reps.mallocSmall kept keeper (Nat.le_of_not_lt hsize)

/-! ## `sys_free` -/

/-- What is left when a block has been given back, in both models. -/
def GivesBack (s : ForkedHeaps) (p : Side) (L : Finset Nat) (s' : ForkedHeaps) (x' : Allocator) :
    Prop :=
  s'.Reps p x' (InUse L) ∧ s.KeepsTo s' p (InUse L)

/-- The pages of an arena are given back. -/
theorem Kept.released (kept : Kept P x (InUse L) L) (keeper : Memory.Keeper dirs .user P)
    (hp : InUse L page) (hfree : x.memory.mfreePage .user page (x.descs.arenaPages page) = .ok m) :
    m.cr3 = x.memory.cr3 := by
  obtain ⟨m', hcall, re, -⟩ :=
    (keeper.owns kept.pages).mfreePage (kept.laid.pos page hp) fun w h h' => ⟨page, hp, h, h'⟩
  obtain rfl := Except.ok.inj (hfree.symm.trans hcall)
  exact re.cr3

/-- A small block of an arena of the process. -/
theorem Reps.freeSmall (reps : s.Reps p x (InUse L)) (kept : Kept P x (InUse L) L)
    (keeper : Memory.Keeper dirs .user P) (hb : b ∈ L)
    (desc : (x.descs.arena (block2arena b)).desc = some i) :
    Lockstep (GivesBack s p L) (s.freeSmall p b (.side p) i) (x.freeSmall .user b i) := by
  have hp : InUse L (block2arena b) := ⟨b, hb, rfl⟩
  have hi := kept.order.descs _ _ hp desc
  have new (j : Nat) (_ : j < descCnt) : b ∉ x.descs.freeList j := by
    intro h
    obtain ⟨-, -, -, -, no⟩ := (kept.order.lists j b).mp h
    exact no hb
  obtain ⟨lists, re⟩ := reps.lists.listAppend hi new
  have listed : (s.listAppend p (.side p) i (.block b)).Reps p
      { x with descs := x.descs.setFreeList i (x.descs.freeList i ++ [b]) } (InUse L) :=
    reps.relink re lists rfl
  have arena : ((s.listAppend p (.side p) i (.block b)).space p).arena (block2arena b) =
      (x.descs.arena (block2arena b)).under p :=
    listed.arenas _ hp
  unfold ForkedHeaps.freeSmall Allocator.freeSmall
  dsimp only
  rw [arena, Arena.under_cnt]
  generalize u32 ((x.descs.arena (block2arena b)).cnt + 1) = cnt
  have counted :=
    (listed.setArena (block2arena b) { x.descs.arena (block2arena b) with cnt }).mono
      fun w (hw : InUse L w) => .inl hw
  have keeps : s.KeepsTo ((s.listAppend p (.side p) i (.block b)).setArena p (block2arena b)
      (Arena.under p { x.descs.arena (block2arena b) with cnt })) p (InUse L) :=
        re.keepsTo.trans (keepsTo_setArena hp)
  by_cases last : cnt = blocksPerArena i
  · rw [if_pos last, if_pos last]
    have short : ((x.descs.setFreeList i (x.descs.freeList i ++ [b])).freeList i).length <
        2 ^ 32 := by
      rw [BlockDescs.setFreeList_freeList_self, List.length_append, List.length_singleton]
      exact list_length kept keeper i
    refine (counted.lists.takeOff hi short).bind fun s₁ d₁ _ _ h => ?_
    obtain ⟨lists₁, re₁, arena₁⟩ := h
    have off := counted.relink re₁ lists₁ arena₁
    rw [← off.memory]
    refine Lockstep.same fun m hfree => ?_
    have cr3 := Kept.released kept keeper hp (BlockDescs.arenaPages_small desc ▸ hfree)
    exact ⟨off.setMemory (cr3.trans off.cr3), (keeps.trans re₁.keepsTo).trans keepsTo_setMemory⟩
  · rw [if_neg last, if_neg last]
    exact ⟨counted, keeps⟩

/-- `sys_free` OF A BLOCK of these arenas. -/
theorem Reps.sysFree (reps : s.Reps p x (InUse L)) (kept : Kept P x (InUse L) L)
    (keeper : Memory.Keeper dirs .user P) (hb : b ∈ L) :
    Lockstep (GivesBack s p L) (s.sysFree p b) (x.sysFree .user b) := by
  have hp : InUse L (block2arena b) := ⟨b, hb, rfl⟩
  have low : lowestPtr .user ≤ b := Nat.zero_le b
  have arena : (s.space p).arena (block2arena b) = (x.descs.arena (block2arena b)).under p :=
    reps.arenas _ hp
  unfold ForkedHeaps.sysFree Allocator.sysFree
  rw [assertThat_of low, ok_bind, ← reps.memory]
  refine Lockstep.same fun _ _ => ?_
  dsimp only
  refine Lockstep.same fun _ _ => ?_
  rw [arena]
  unfold Arena.under
  cases desc : (x.descs.arena (block2arena b)).desc with
  | some i => exact reps.freeSmall kept keeper hb desc
  | none =>
    dsimp only [Option.map_none]
    split
    · refine Lockstep.same fun m hfree => ?_
      have cr3 := Kept.released kept keeper hp (BlockDescs.arenaPages_large desc ▸ hfree)
      exact ⟨reps.setMemory (cr3.trans reps.cr3), keepsTo_setMemory⟩
    · rfl

end ForkedHeaps

end SeekingOs
