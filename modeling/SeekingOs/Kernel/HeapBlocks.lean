import Mathlib.Data.List.Perm.Subperm
import SeekingOs.Kernel.Exhausted

/-!
# Arenas, blocks and free lists

Each block of a small arena is either live or on the list of its size, and the counter of the arena
says how many are on the list. The calls of the allocator keep this, an arena coming and going as a
whole.
-/

namespace SeekingOs

open Lib

/-- A block of the small arena at a page. -/
def IsBlock (i page b : Nat) : Prop := ∃ idx < blocksPerArena i, b = arena2block page i idx

variable {d d' : BlockDescs} {live : Finset Nat} {A : Nat → Prop} {i j p q b c n : Nat}
  {rest : List Nat} {a : Arena}

theorem IsBlock.page (h : IsBlock i p b) : block2arena b = p := by
  obtain ⟨idx, hidx, rfl⟩ := h
  exact (arena2block_page hidx).1

theorem blockSize_aligned (i : Nat) : 16 ≤ blockSize i ∧ blockSize i % 4 = 0 := by
  have := Nat.two_pow_pos i
  unfold blockSize
  omega

theorem IsBlock.aligned (h : IsBlock i p b) : b % 4 = 0 := by
  obtain ⟨idx, -, rfl⟩ := h
  have size := (blockSize_aligned i).2
  have mul : idx * blockSize i % 4 = 0 := by rw [Nat.mul_mod, size, Nat.mul_zero, Nat.zero_mod]
  unfold arena2block arenaSize
  omega

theorem mem_arenaBlocks : b ∈ arenaBlocks p i ↔ IsBlock i p b := by
  unfold arenaBlocks IsBlock
  simp only [List.mem_map, List.mem_range, eq_comm]

theorem nodup_arenaBlocks : (arenaBlocks p i).Nodup :=
  List.Nodup.map (fun _ _ => arena2block_inj) List.nodup_range

@[simp] theorem length_arenaBlocks : (arenaBlocks p i).length = blocksPerArena i := by
  unfold arenaBlocks
  rw [List.length_map, List.length_range]

theorem blocksPerArena_lt : blocksPerArena i < 4096 :=
  Nat.lt_of_le_of_lt (Nat.div_le_self _ _) (by decide)

namespace BlockDescs

/-- The blocks of an arena that are on a list. -/
def freeIn (d : BlockDescs) (i p : Nat) : List Nat :=
  (d.freeList i).filter fun b => block2arena b = p

theorem mem_freeIn : b ∈ d.freeIn i p ↔ b ∈ d.freeList i ∧ block2arena b = p := by
  unfold freeIn
  rw [List.mem_filter, decide_eq_true_iff]

/-- What a block of the allocator is: one of a small arena, or all of a large one. -/
inductive Live (d : BlockDescs) (b : Nat) : Prop where
  | small (i : Nat) : (d.arena (block2arena b)).desc = some i →
      IsBlock i (block2arena b) b → Live d b
  | large : (d.arena (block2arena b)).desc = none → (d.arena (block2arena b)).large = true →
      0 < (d.arena (block2arena b)).cnt →
      b = 4096 * block2arena b + arenaSize → Live d b

theorem Live.congr (h : d.Live b) (same : d'.arena (block2arena b) = d.arena (block2arena b)) :
    d'.Live b := by
  cases h with
  | small i desc hb => exact .small i (same ▸ desc) hb
  | large none large pos eq => exact .large (same ▸ none) (same ▸ large) (same ▸ pos) eq

/-- THE HEAP IS IN ORDER, with these arenas and these live blocks. -/
structure InOrder (d : BlockDescs) (A : Nat → Prop) (live : Finset Nat) : Prop where
  arenas : ∀ b ∈ live, A (block2arena b)
  blocks : ∀ b ∈ live, d.Live b
  descs : ∀ p i, A p → (d.arena p).desc = some i → i < descCnt
  lists : ∀ i b, b ∈ d.freeList i ↔ ∃ p, A p ∧ (d.arena p).desc = some i ∧ IsBlock i p b ∧ b ∉ live
  nodup : ∀ i, (d.freeList i).Nodup
  counts : ∀ p i, A p → (d.arena p).desc = some i → (d.arena p).cnt = (d.freeIn i p).length

theorem InOrder.congr {B : Nat → Prop} (ord : d.InOrder A live) (h : ∀ p, A p ↔ B p) :
    d.InOrder B live := by
  have same : A = B := funext fun p => propext (h p)
  rw [← same]
  exact ord

/-- A block of an arena is on the list unless it is live. -/
theorem InOrder.mem_list (ord : d.InOrder A live) (hp : A p) (desc : (d.arena p).desc = some i)
    (hb : IsBlock i p b) : b ∈ d.freeList i ↔ b ∉ live := by
  rw [ord.lists]
  constructor
  · rintro ⟨-, -, -, -, h⟩
    exact h
  · intro h
    exact ⟨p, hp, desc, hb, h⟩

/-- A live block of a small arena is one of its blocks. -/
theorem InOrder.isBlock (ord : d.InOrder A live) (hb : b ∈ live)
    (desc : (d.arena (block2arena b)).desc = some i) : IsBlock i (block2arena b) b := by
  cases ord.blocks b hb with
  | small j hj hblock =>
    obtain rfl := Option.some.inj (hj.symm.trans desc)
    exact hblock
  | large none =>
    rw [none] at desc
    cases desc

theorem InOrder.mem_freeIn (ord : d.InOrder A live) (hp : A p) (desc : (d.arena p).desc = some i) :
    b ∈ d.freeIn i p ↔ IsBlock i p b ∧ b ∉ live := by
  rw [BlockDescs.mem_freeIn]
  constructor
  · rintro ⟨hmem, rfl⟩
    obtain ⟨q, -, -, hb, hlive⟩ := (ord.lists i b).mp hmem
    obtain rfl := hb.page
    exact ⟨hb, hlive⟩
  · rintro ⟨hb, hlive⟩
    exact ⟨(ord.mem_list hp desc hb).mpr hlive, hb.page⟩

/-- The counter is at most the number of blocks. -/
theorem InOrder.subperm (ord : d.InOrder A live) (hp : A p) (desc : (d.arena p).desc = some i) :
    (d.freeIn i p).Subperm (arenaBlocks p i) := by
  apply List.Nodup.subperm ((ord.nodup i).filter _)
  intro b hb
  exact mem_arenaBlocks.mpr ((ord.mem_freeIn hp desc).mp hb).1

theorem InOrder.cnt_le (ord : d.InOrder A live) (hp : A p) (desc : (d.arena p).desc = some i) :
    (d.arena p).cnt ≤ blocksPerArena i := by
  rw [ord.counts p i hp desc, ← @length_arenaBlocks i p]
  exact (ord.subperm hp desc).length_le

/-- THE COUNTER IS FULL exactly when no block of the arena is live. -/
theorem InOrder.cnt_full (ord : d.InOrder A live) (hp : A p) (desc : (d.arena p).desc = some i) :
    (d.arena p).cnt = blocksPerArena i ↔ ∀ b ∈ live, block2arena b ≠ p := by
  have sub := ord.subperm hp desc
  rw [ord.counts p i hp desc]
  constructor
  · rintro full b hb rfl
    have perm := sub.perm_of_length_le (Nat.le_of_eq (length_arenaBlocks.trans full.symm))
    have hmem := perm.mem_iff.mpr (mem_arenaBlocks.mpr (ord.isBlock hb desc))
    exact ((ord.mem_freeIn hp desc).mp hmem).2 hb
  · intro none
    have all : (arenaBlocks p i).Subperm (d.freeIn i p) := by
      apply List.Nodup.subperm nodup_arenaBlocks
      intro b hb
      have hb := mem_arenaBlocks.mp hb
      exact (ord.mem_freeIn hp desc).mpr ⟨hb, fun hlive => none b hlive hb.page⟩
    apply Nat.le_antisymm
    · exact sub.length_le.trans (Nat.le_of_eq length_arenaBlocks)
    · exact (Nat.le_of_eq length_arenaBlocks.symm).trans all.length_le

/-! ## Arenas come -/

/-- A small arena, all of whose blocks are free. -/
theorem InOrder.addSmall (ord : d.InOrder A live) (hi : i < descCnt) (empty : d.freeList i = [])
    (new : ¬ A p) : (d.cutArena p i).InOrder (fun q => A q ∨ q = p) live := by
  have other {q : Nat} (hq : A q) : (d.cutArena p i).arena q = d.arena q := by
    apply setArena_arena_ne
    rintro rfl
    exact new hq
  have self : (d.cutArena p i).arena p = ⟨some i, blocksPerArena i, false⟩ := setArena_arena_self
  have list : (d.cutArena p i).freeList i = arenaBlocks p i := setFreeList_freeList_self
  have lists {j : Nat} (hj : j ≠ i) : (d.cutArena p i).freeList j = d.freeList j :=
    setFreeList_freeList_ne hj
  -- an arena of that size from before has no block that is free
  have free {q b : Nat} (hq : A q) (desc : (d.arena q).desc = some i) (hb : IsBlock i q b) :
      b ∈ live := by
    by_contra hno
    have hmem := (ord.mem_list hq desc hb).mpr hno
    rw [empty] at hmem
    cases hmem
  have notLive {b : Nat} (hb : IsBlock i p b) : b ∉ live := by
    intro hlive
    have := ord.arenas b hlive
    rw [hb.page] at this
    exact new this
  refine
    { arenas := fun b hb => .inl (ord.arenas b hb),
      blocks := fun b hb => (ord.blocks b hb).congr (other (ord.arenas b hb)),
      descs := fun q j hq desc => ?_, lists := fun j b => ?_, nodup := fun j => ?_,
      counts := fun q j hq desc => ?_ }
  · rcases hq with hq | rfl
    · rw [other hq] at desc
      exact ord.descs q j hq desc
    · rw [self] at desc
      cases desc
      exact hi
  · by_cases hj : j = i
    · subst hj
      rw [list, mem_arenaBlocks]
      constructor
      · intro hb
        exact ⟨p, .inr rfl, by rw [self], hb, notLive hb⟩
      · rintro ⟨q, hq | rfl, desc, hb, hlive⟩
        · rw [other hq] at desc
          exact absurd (free hq desc hb) hlive
        · exact hb
    · rw [lists hj, ord.lists]
      apply exists_congr
      intro q
      constructor
      · rintro ⟨hq, desc, rest⟩
        exact ⟨.inl hq, by rw [other hq, desc], rest⟩
      · rintro ⟨hq | rfl, desc, rest⟩
        · exact ⟨hq, other hq ▸ desc, rest⟩
        · rw [self] at desc
          cases desc
          exact absurd rfl hj
  · by_cases hj : j = i
    · subst hj
      rw [list]
      exact nodup_arenaBlocks
    · rw [lists hj]
      exact ord.nodup j
  · unfold freeIn
    rcases hq with hq | rfl
    · rw [other hq] at desc ⊢
      rw [ord.counts q j hq desc]
      by_cases hj : j = i
      · subst hj
        have none : (arenaBlocks p j).filter (fun b => decide (block2arena b = q)) = [] := by
          apply List.filter_eq_nil_iff.mpr
          intro b hb
          rw [(mem_arenaBlocks.mp hb).page, decide_eq_true_iff]
          rintro rfl
          exact new hq
        unfold freeIn
        rw [list, none, empty, List.filter_nil]
      · rw [lists hj]
        rfl
    · rw [self] at desc ⊢
      cases desc
      have all : (arenaBlocks q i).filter (fun b => decide (block2arena b = q)) =
          arenaBlocks q i := by
        apply List.filter_eq_self.mpr
        intro b hb
        rw [(mem_arenaBlocks.mp hb).page]
        exact decide_eq_true rfl
      rw [list, all]
      exact length_arenaBlocks.symm

/-- A large arena, with its block. -/
theorem InOrder.addLarge (ord : d.InOrder A live) (hn : 0 < n) (new : ¬ A p) :
    (d.setArena p ⟨none, n, true⟩).InOrder (fun q => A q ∨
      q = p) (insert (4096 * p + arenaSize) live) := by
  have other {q : Nat} (hq : A q) : (d.setArena p ⟨none, n, true⟩).arena q = d.arena q := by
    apply setArena_arena_ne
    rintro rfl
    exact new hq
  have self : (d.setArena p ⟨none, n, true⟩).arena p = ⟨none, n, true⟩ := setArena_arena_self
  have page : block2arena (4096 * p + arenaSize) = p := by
    unfold block2arena arenaSize
    omega
  refine
    { arenas := fun b hb => ?_, blocks := fun b hb => ?_, descs := fun q j hq desc => ?_,
      lists := fun j b => ?_, nodup := ord.nodup,
      counts := fun q j hq desc => ?_ }
  · rcases Finset.mem_insert.mp hb with rfl | hb
    · exact .inr page
    · exact .inl (ord.arenas b hb)
  · rcases Finset.mem_insert.mp hb with rfl | hb
    · refine .large ?_ ?_ ?_ ?_ <;> rw [page]
      · rw [self]
      · rw [self]
      · rw [self]
        exact hn
    · exact (ord.blocks b hb).congr (other (ord.arenas b hb))
  · rcases hq with hq | rfl
    · rw [other hq] at desc
      exact ord.descs q j hq desc
    · rw [self] at desc
      cases desc
  · rw [setArena_freeList, ord.lists]
    apply exists_congr
    intro q
    constructor
    · rintro ⟨hq, desc, hb, hlive⟩
      refine ⟨.inl hq, by rw [other hq, desc], hb, ?_⟩
      intro hmem
      rcases Finset.mem_insert.mp hmem with rfl | hmem
      · rw [← hb.page, page] at hq
        exact new hq
      · exact hlive hmem
    · rintro ⟨hq | rfl, desc, hb, hlive⟩
      · exact ⟨hq, other hq ▸ desc, hb, fun h => hlive (Finset.mem_insert_of_mem h)⟩
      · rw [self] at desc
        cases desc
  · rcases hq with hq | rfl
    · rw [other hq] at desc ⊢
      exact ord.counts q j hq desc
    · rw [self] at desc
      cases desc

/-! ## Blocks come and go -/

/-- The descriptors with another list and counter, for an arena that is there. -/
def recount (d : BlockDescs) (i p : Nat) (l : List Nat) (cnt : Nat) : BlockDescs :=
  (d.setFreeList i l).setArena p { d.arena p with cnt }

@[simp] theorem recount_desc {l : List Nat} :
    ((d.recount i p l n).arena q).desc = (d.arena q).desc := by
  unfold recount
  by_cases h : q = p
  · subst h
    rw [setArena_arena_self]
  · rw [setArena_arena_ne h, setFreeList_arena]

@[simp] theorem recount_large {l : List Nat} :
    ((d.recount i p l n).arena q).large = (d.arena q).large := by
  unfold recount
  by_cases h : q = p
  · subst h
    rw [setArena_arena_self]
  · rw [setArena_arena_ne h, setFreeList_arena]

theorem recount_arena {l : List Nat} (h : q ≠ p) : (d.recount i p l n).arena q = d.arena q := by
  unfold recount
  rw [setArena_arena_ne h, setFreeList_arena]

@[simp] theorem recount_cnt {l : List Nat} : ((d.recount i p l n).arena p).cnt = n := by
  unfold recount
  rw [setArena_arena_self]

@[simp] theorem recount_list {l : List Nat} : (d.recount i p l n).freeList i = l :=
  setFreeList_freeList_self

theorem recount_lists {l : List Nat} (h : j ≠ i) : (d.recount i p l n).freeList j = d.freeList j :=
  setFreeList_freeList_ne h

theorem Live.recount {l : List Nat} (h : d.Live b) (desc : (d.arena p).desc = some i) :
    (d.recount i p l n).Live b := by
  cases h with
  | small j hj hblock => exact .small j (by rw [recount_desc, hj]) hblock
  | large none large pos eq =>
    refine .large (by rw [recount_desc, none]) (by rw [recount_large, large]) ?_ eq
    have hne : block2arena b ≠ p := by
      intro h
      rw [h, desc] at none
      cases none
    rw [recount_arena hne]
    exact pos

/-- One block of a small arena changes sides, and the counter goes with it. -/
theorem InOrder.recount {l : List Nat} {live' : Finset Nat} (ord : d.InOrder A live) (hp : A p)
    (desc : (d.arena p).desc = some i) (arenas : ∀ b ∈ live', A (block2arena b))
    (blocks : ∀ b ∈ live', d.Live b)
    (same : ∀ b, ¬ IsBlock i p b → (b ∈ live' ↔ b ∈ live) ∧ (b ∈ l ↔ b ∈ d.freeList i))
    (moved : ∀ b, IsBlock i p b → (b ∈ l ↔ b ∉ live')) (nodup : l.Nodup)
    (others : ∀ q, q ≠ p → (l.filter fun b => block2arena b = q) = d.freeIn i q) :
    (d.recount i p l (l.filter fun b => block2arena b = p).length).InOrder A live' := by
  refine
    { arenas, blocks := fun b hb => (blocks b hb).recount desc,
      descs := fun q j hq h => ord.descs q j hq (recount_desc ▸ h), lists := fun j b => ?_,
      nodup := fun j => ?_, counts := fun q j hq h => ?_ }
  · simp only [recount_desc]
    by_cases hj : j = i
    · subst hj
      rw [recount_list]
      by_cases hb : IsBlock j p b
      · rw [moved b hb]
        constructor
        · intro h
          exact ⟨p, hp, desc, hb, h⟩
        · rintro ⟨-, -, -, -, h⟩
          exact h
      · rw [(same b hb).2, ord.lists]
        simp only [(same b hb).1]
    · rw [recount_lists hj, ord.lists]
      apply exists_congr
      intro q
      apply and_congr_right
      intro hq
      apply and_congr_right
      intro hdesc
      apply and_congr_right
      intro hb
      have hno : ¬ IsBlock i p b := by
        intro hc
        obtain rfl : q = p := hb.page.symm.trans hc.page
        exact hj (Option.some.inj (hdesc.symm.trans desc))
      rw [(same b hno).1]
  · by_cases hj : j = i
    · subst hj
      rw [recount_list]
      exact nodup
    · rw [recount_lists hj]
      exact ord.nodup j
  · rw [recount_desc] at h
    unfold freeIn
    by_cases hqp : q = p
    · subst hqp
      obtain rfl := Option.some.inj (h.symm.trans desc)
      rw [recount_cnt, recount_list]
    · rw [recount_arena hqp, ord.counts q j hq h]
      by_cases hj : j = i
      · subst hj
        rw [recount_list, others q hqp]
      · rw [recount_lists hj]
        rfl

/-- A block of another arena is not one of this one. -/
theorem not_isBlock (h : block2arena b = q) (hne : q ≠ p) : ¬ IsBlock i p b :=
  fun hc => hne (h.symm.trans hc.page)

/-- THE HEAD OF A LIST goes to the caller. -/
theorem InOrder.takeHead (ord : d.InOrder A live) (hlist : d.freeList i = b :: rest) :
    A (block2arena b) ∧ (d.arena (block2arena b)).desc = some i ∧
    IsBlock i (block2arena b) b ∧ b ∉ live ∧
      (d.recount i (block2arena b) rest (u32 ((d.arena (block2arena b)).cnt - 1))).InOrder A
        (insert b live) := by
  obtain ⟨p, hp, desc, hb, hlive⟩ := (ord.lists i b).mp (hlist ▸ List.mem_cons_self)
  obtain rfl := hb.page
  refine ⟨hp, desc, hb, hlive, ?_⟩
  have nodup := ord.nodup i
  rw [hlist] at nodup
  obtain ⟨first, nodup⟩ := List.nodup_cons.mp nodup
  have count : u32 ((d.arena (block2arena b)).cnt - 1) =
      (rest.filter fun c => block2arena c = block2arena b).length := by
    have full := ord.counts _ i hp desc
    have small := ord.cnt_le hp desc
    have := @blocksPerArena_lt i
    unfold freeIn at full
    rw [hlist, List.filter_cons, if_pos (decide_eq_true rfl), List.length_cons] at full
    rw [show ((d.arena (block2arena b)).cnt : Int) - 1 =
      ((d.arena (block2arena b)).cnt - 1 : Nat) by omega, u32_of_lt (by omega)]
    omega
  rw [count]
  refine ord.recount hp desc (fun c hc => ?_) (fun c hc => ?_) (fun c hc => ?_) (fun c hc => ?_)
    nodup (fun q hq => ?_)
  · rcases Finset.mem_insert.mp hc with rfl | hc
    · exact hp
    · exact ord.arenas c hc
  · rcases Finset.mem_insert.mp hc with rfl | hc
    · exact .small i desc hb
    · exact ord.blocks c hc
  · have hne : c ≠ b := by
      rintro rfl
      exact hc hb
    rw [Finset.mem_insert, or_iff_right hne, hlist, List.mem_cons, or_iff_right hne]
    exact ⟨Iff.rfl, Iff.rfl⟩
  · rw [Finset.mem_insert, not_or]
    have iff := ord.mem_list hp desc hc
    rw [hlist, List.mem_cons] at iff
    constructor
    · intro h
      refine ⟨?_, iff.mp (.inr h)⟩
      rintro rfl
      exact first h
    · rintro ⟨hne, h⟩
      exact (iff.mpr h).resolve_left hne
  · unfold freeIn
    rw [hlist, List.filter_cons_of_neg]
    rw [decide_eq_true_iff]
    exact hq.symm

/-- A BLOCK THAT IS GIVEN BACK goes to the end of the list. -/
theorem InOrder.giveBack (ord : d.InOrder A live) (hb : b ∈ live)
    (desc : (d.arena (block2arena b)).desc = some i) :
    (d.recount i (block2arena b) (d.freeList i ++ [b])
      (u32 ((d.arena (block2arena b)).cnt + 1))).InOrder A (live.erase b) := by
  have hp := ord.arenas b hb
  have hblock := ord.isBlock hb desc
  have new : b ∉ d.freeList i := fun h => (ord.mem_list hp desc hblock).mp h hb
  have count : u32 ((d.arena (block2arena b)).cnt + 1) =
      ((d.freeList i ++ [b]).filter fun c => block2arena c = block2arena b).length := by
    have full := ord.counts _ i hp desc
    have small := ord.cnt_le hp desc
    have := @blocksPerArena_lt i
    unfold freeIn at full
    rw [List.filter_append, List.length_append, ← full, List.filter_cons,
      if_pos (decide_eq_true rfl), List.filter_nil]
    exact u32_of_lt (n := (d.arena (block2arena b)).cnt + 1) (by omega)
  rw [count]
  refine ord.recount hp desc (fun c hc => ?_) (fun c hc => ?_) (fun c hc => ?_) (fun c hc => ?_) ?_
    (fun q hq => ?_)
  · exact ord.arenas c (Finset.mem_of_mem_erase hc)
  · exact ord.blocks c (Finset.mem_of_mem_erase hc)
  · have hne : c ≠ b := by
      rintro rfl
      exact hc hblock
    rw [Finset.mem_erase, and_iff_right hne, List.mem_append, List.mem_singleton, or_iff_left hne]
    exact ⟨Iff.rfl, Iff.rfl⟩
  · rw [Finset.mem_erase, List.mem_append, List.mem_singleton, ord.mem_list hp desc hc, not_and_or,
      not_not, or_comm]
  · rw [List.nodup_append]
    refine ⟨ord.nodup i, List.nodup_singleton b, ?_⟩
    rintro c hc _ hc' rfl
    rw [List.mem_singleton] at hc'
    exact new (hc' ▸ hc)
  · unfold freeIn
    rw [List.filter_append, List.filter_cons_of_neg, List.filter_nil, List.append_nil]
    rw [decide_eq_true_iff]
    exact hq.symm

/-! ## Arenas go -/

/-- The loop of `sys_free` finds each of these blocks on the list, and takes it off. -/
theorem takeOff_eq {left k : Nat} (nodup : (d.freeList i).Nodup)
    (all : ∀ idx, k ≤ idx → idx < k + left → arena2block p i idx ∈ d.freeList i) :
    d.takeOff p i left k = .ok
      (d.setFreeList i ((d.freeList i).diff ((List.range' k left).map (arena2block p i)))) := by
  induction left generalizing k d with
  | zero =>
    rw [List.range'_zero, List.map_nil, List.diff_nil, setFreeList_same]
    rfl
  | succ left ih =>
    have here := all k (Nat.le_refl k) (by omega)
    unfold takeOff
    dsimp only
    rw [assertThat_of here, ok_bind, ih]
    · rw [setFreeList_freeList_self, setFreeList_twice, List.range'_succ, List.map_cons,
        List.diff_cons]
    · rw [setFreeList_freeList_self]
      exact nodup.erase _
    · intro idx h h'
      rw [setFreeList_freeList_self, nodup.mem_erase_iff]
      refine ⟨fun e => ?_, all idx (by omega) (by omega)⟩
      have := arena2block_inj e
      omega

/-- A SMALL ARENA GOES when its counter is full. -/
theorem InOrder.dropSmall (ord : d.InOrder A live) (hp : A p) (desc : (d.arena p).desc = some i)
    (full : (d.arena p).cnt = blocksPerArena i) :
    ∃ d', d.takeOff p i (blocksPerArena i) 0 = .ok d' ∧ d'.arena = d.arena ∧
      d'.InOrder (fun q => A q ∧ q ≠ p) live := by
  have free := (ord.cnt_full hp desc).mp full
  have take := @takeOff_eq d i p (blocksPerArena i) 0 (ord.nodup i) (by
    intro idx _ hidx
    have hb : IsBlock i p (arena2block p i idx) := ⟨idx, by omega, rfl⟩
    exact (ord.mem_list hp desc hb).mpr fun h => free _ h hb.page)
  rw [← List.range_eq_range',
    show (List.range (blocksPerArena i)).map (arena2block p i) = arenaBlocks p i from rfl,
    (ord.nodup i).sdiff_eq_filter] at take
  have mem {b : Nat} : b ∈ (d.freeList i).filter (· ∉ arenaBlocks p i) ↔
      b ∈ d.freeList i ∧ ¬ IsBlock i p b := by
    rw [List.mem_filter, decide_eq_true_iff, mem_arenaBlocks]
  refine ⟨_, take, rfl, ?_⟩
  refine
    { arenas := fun b hb => ⟨ord.arenas b hb, free b hb⟩,
      blocks := fun b hb => (ord.blocks b hb).congr rfl,
      descs := fun q j hq h => ord.descs q j hq.1 h, lists := fun j b => ?_, nodup := fun j => ?_,
      counts := fun q j hq h => ?_ }
  · by_cases hj : j = i
    · subst hj
      rw [setFreeList_freeList_self, mem, ord.lists]
      constructor
      · rintro ⟨⟨q, hq, h, hb, hlive⟩, hno⟩
        refine ⟨q, ⟨hq, ?_⟩, h, hb, hlive⟩
        rintro rfl
        exact hno hb
      · rintro ⟨q, ⟨hq, hne⟩, h, hb, hlive⟩
        exact ⟨⟨q, hq, h, hb, hlive⟩, not_isBlock hb.page hne⟩
    · rw [setFreeList_freeList_ne hj, ord.lists]
      apply exists_congr
      intro q
      constructor
      · rintro ⟨hq, h, rest⟩
        refine ⟨⟨hq, ?_⟩, h, rest⟩
        rintro rfl
        exact hj (Option.some.inj (h.symm.trans desc))
      · rintro ⟨hq, h, rest⟩
        exact ⟨hq.1, h, rest⟩
  · by_cases hj : j = i
    · subst hj
      rw [setFreeList_freeList_self]
      exact (ord.nodup j).filter _
    · rw [setFreeList_freeList_ne hj]
      exact ord.nodup j
  · have count := ord.counts q j hq.1 h
    rw [setFreeList_arena, count]
    unfold freeIn
    by_cases hj : j = i
    · subst hj
      rw [setFreeList_freeList_self, List.filter_filter]
      congr 1
      apply List.filter_congr
      intro b hb
      rw [Bool.eq_iff_iff, Bool.and_eq_true, decide_eq_true_iff, decide_eq_true_iff,
        mem_arenaBlocks, iff_self_and]
      intro page
      exact not_isBlock page hq.2
    · rw [setFreeList_freeList_ne hj]

/-- A LARGE ARENA GOES with its block. -/
theorem InOrder.dropLarge (ord : d.InOrder A live) (hb : b ∈ live)
    (desc : (d.arena (block2arena b)).desc = none) :
    d.InOrder (fun q => A q ∧ q ≠ block2arena b) (live.erase b) := by
  have alone {c : Nat} (hc : c ∈ live) (page : block2arena c = block2arena b) : c = b := by
    have eq {x : Nat} (hx : x ∈ live) (hpage : block2arena x = block2arena b) :
        x = 4096 * block2arena b + arenaSize := by
      cases ord.blocks x hx with
      | small j hj =>
        rw [hpage, desc] at hj
        cases hj
      | large _ _ _ eq => rw [eq, ← hpage, ← eq]
    exact (eq hc page).trans (eq hb rfl).symm
  refine
    { arenas := fun c hc => ?_, blocks := fun c hc => ord.blocks c (Finset.mem_of_mem_erase hc),
      descs := fun q j hq h => ord.descs q j hq.1 h,
      lists := fun j c => ?_, nodup := ord.nodup, counts := fun q j hq h => ord.counts q j hq.1 h }
  · obtain ⟨hne, hc⟩ := Finset.mem_erase.mp hc
    exact ⟨ord.arenas c hc, fun page => hne (alone hc page)⟩
  · rw [ord.lists]
    apply exists_congr
    intro q
    constructor
    · rintro ⟨hq, h, hblock, hlive⟩
      refine ⟨⟨hq, ?_⟩, h, hblock, fun hc => hlive (Finset.mem_of_mem_erase hc)⟩
      rintro rfl
      rw [desc] at h
      cases h
    · rintro ⟨⟨hq, hne⟩, h, hblock, hlive⟩
      refine ⟨hq, h, hblock, fun hc => hlive (Finset.mem_erase.mpr ⟨?_, hc⟩)⟩
      rintro rfl
      exact hne hblock.page.symm

/-! ## The pages of the arenas -/

/-- The pages that an arena has. -/
def arenaPages (d : BlockDescs) (p : Nat) : Nat :=
  match (d.arena p).desc with
  | some _ => 1
  | none => (d.arena p).cnt

/-- A page of the arena. -/
def InPages (d : BlockDescs) (p w : Nat) : Prop := p ≤ w ∧ w < p + d.arenaPages p

/-- A page of one of the arenas. -/
def Covers (d : BlockDescs) (A : Nat → Prop) (w : Nat) : Prop := ∃ p, A p ∧ d.InPages p w

/-- No two arenas share a page. -/
structure Laid (d : BlockDescs) (A : Nat → Prop) : Prop where
  pos : ∀ p, A p → 0 < d.arenaPages p
  apart : ∀ p q w, A p → A q → d.InPages p w → d.InPages q w → p = q

theorem arenaPages_small (h : (d.arena p).desc = some i) : d.arenaPages p = 1 := by
  unfold arenaPages
  rw [h]

theorem arenaPages_large (h : (d.arena p).desc = none) : d.arenaPages p = (d.arena p).cnt := by
  unfold arenaPages
  rw [h]

theorem Laid.covers (laid : d.Laid A) (hp : A p) : d.Covers A p := by
  have pos := laid.pos p hp
  exact ⟨p, hp, Nat.le_refl p, by omega⟩

/-- Counting changes no pages. -/
theorem recount_arenaPages {l : List Nat} (desc : (d.arena p).desc = some i) :
    (d.recount i p l n).arenaPages q = d.arenaPages q := by
  unfold arenaPages
  rw [recount_desc]
  by_cases hq : q = p
  · rw [hq, desc]
  · rw [recount_arena hq]

/-- Arenas that keep their pages. -/
theorem inPages_same (same : d'.arenaPages p = d.arenaPages p) :
    d'.InPages p q ↔ d.InPages p q := by
  unfold InPages
  rw [same]

theorem covers_same (same : ∀ p, A p → d'.arenaPages p = d.arenaPages p) :
    d'.Covers A q ↔ d.Covers A q := by
  apply exists_congr
  intro p
  apply and_congr_right
  intro hp
  exact inPages_same (same p hp)

theorem Laid.same (laid : d.Laid A) (same : ∀ p, A p → d'.arenaPages p = d.arenaPages p) :
    d'.Laid A where
  pos p hp := by
    rw [same p hp]
    exact laid.pos p hp
  apart p q w hp hq h h' :=
    laid.apart p q w hp hq ((inPages_same (same p hp)).mp h) ((inPages_same (same q hq)).mp h')

/-- One arena more. -/
theorem covers_add (same : ∀ q, A q → d'.arenaPages q = d.arenaPages q)
    (here : d'.arenaPages p = n) :
    d'.Covers (fun q => A q ∨ q = p) c ↔ d.Covers A c ∨ p ≤ c ∧ c < p + n := by
  constructor
  · rintro ⟨q, hq | rfl, h⟩
    · exact .inl ⟨q, hq, (inPages_same (same q hq)).mp h⟩
    · exact .inr ⟨h.1, here ▸ h.2⟩
  · rintro (⟨q, hq, h⟩ | h)
    · exact ⟨q, .inl hq, (inPages_same (same q hq)).mpr h⟩
    · exact ⟨p, .inr rfl, h.1, here.symm ▸ h.2⟩

theorem Laid.add (laid : d.Laid A) (same : ∀ q, A q → d'.arenaPages q = d.arenaPages q)
    (here : d'.arenaPages p = n) (hn : 0 < n) (new : ∀ w, p ≤ w → w < p + n → ¬ d.Covers A w) :
    d'.Laid fun q => A q ∨ q = p := by
  have clash {q w : Nat} (hq : A q) (h : d'.InPages q w) (h' : d'.InPages p w) : False := by
    unfold InPages at h'
    rw [here] at h'
    exact new w h'.1 h'.2 ⟨q, hq, (inPages_same (same q hq)).mp h⟩
  constructor
  · rintro q (hq | rfl)
    · rw [same q hq]
      exact laid.pos q hq
    · exact here.symm ▸ hn
  · rintro q q' w (hq | rfl) (hq' | rfl) h h'
    · exact laid.apart q q' w hq hq' ((inPages_same (same q hq)).mp h)
        ((inPages_same (same q' hq')).mp h')
    · exact (clash hq h h').elim
    · exact (clash hq' h' h).elim
    · rfl

/-- One arena less. -/
theorem Laid.covers_drop (laid : d.Laid A) (hp : A p) : d.Covers (fun q => A q ∧ q ≠ p) c ↔
    d.Covers A c ∧ ¬ d.InPages p c := by
  constructor
  · rintro ⟨q, ⟨hq, hne⟩, h⟩
    exact ⟨⟨q, hq, h⟩, fun h' => hne (laid.apart q p c hq hp h h')⟩
  · rintro ⟨⟨q, hq, h⟩, hno⟩
    refine ⟨q, ⟨hq, ?_⟩, h⟩
    rintro rfl
    exact hno h

theorem Laid.drop (laid : d.Laid A) : d.Laid fun q => A q ∧ q ≠ p where
  pos q hq := laid.pos q hq.1
  apart q q' w hq hq' := laid.apart q q' w hq.1 hq'.1

/-! ## The bytes of the blocks -/

/-- The bytes that a block has. -/
def room (d : BlockDescs) (b : Nat) : Nat :=
  match (d.arena (block2arena b)).desc with
  | some i => blockSize i
  | none => 4096 * (d.arena (block2arena b)).cnt - arenaSize

/-- A byte of a block. -/
def InBlock (d : BlockDescs) (b c : Nat) : Prop := b ≤ c ∧ c < b + d.room b

theorem room_small (h : (d.arena (block2arena b)).desc = some i) : d.room b = blockSize i := by
  unfold room
  rw [h]

theorem room_large (h : (d.arena (block2arena b)).desc = none) :
    d.room b = 4096 * (d.arena (block2arena b)).cnt - arenaSize := by
  unfold room
  rw [h]

theorem recount_room {l : List Nat} (desc : (d.arena p).desc = some i) :
    (d.recount i p l n).room b = d.room b := by
  unfold room
  rw [recount_desc]
  by_cases hq : block2arena b = p
  · rw [hq, desc]
  · rw [recount_arena hq]

theorem room_same (h : d'.arena (block2arena b) = d.arena (block2arena b)) :
    d'.room b = d.room b := by
  unfold room
  rw [h]

/-- A block lies after the header, in the pages of its arena. -/
theorem Live.place (h : d.Live b) : 4096 * block2arena b + arenaSize ≤ b ∧
    b + d.room b ≤ 4096 * (block2arena b + d.arenaPages (block2arena b)) := by
  cases h with
  | small i desc hb =>
    obtain ⟨idx, hidx, eq⟩ := hb
    have pos := blockSize_pos i
    obtain ⟨-, last⟩ := @arena2block_page (block2arena b) i idx hidx
    rw [← eq] at last
    rw [room_small desc, arenaPages_small desc]
    have first : 4096 * block2arena b + arenaSize ≤ b := by
      conv_rhs => rw [eq]
      unfold arena2block
      omega
    exact ⟨first, by omega⟩
  | large desc _ pos eq =>
    rw [room_large desc, arenaPages_large desc]
    unfold arenaSize at *
    omega

/-- Blocks start and end with words. -/
theorem Live.aligned (h : d.Live b) : b % 4 = 0 := by
  cases h with
  | small i _ hb => exact hb.aligned
  | large _ _ _ eq =>
    unfold arenaSize at eq
    omega

theorem Live.inPages (h : d.Live b) (hc : d.InBlock b c) :
    d.InPages (block2arena b) (c / 4096) := by
  obtain ⟨low, high⟩ := h.place
  obtain ⟨h1, h2⟩ := hc
  unfold arenaSize at low
  constructor <;> omega

/-- Two blocks of one size in one arena. -/
theorem isBlock_apart (hb : IsBlock i p b) (hc : IsBlock i p c) (hne : b ≠ c) :
    b + blockSize i ≤ c ∨ c + blockSize i ≤ b := by
  obtain ⟨j, -, rfl⟩ := hb
  obtain ⟨k, -, rfl⟩ := hc
  have hjk : j ≠ k := by
    rintro rfl
    exact hne rfl
  unfold arena2block
  rcases Nat.lt_or_gt_of_ne hjk with h | h
  · have := Nat.mul_le_mul_right (blockSize i) (Nat.succ_le_of_lt h)
    rw [Nat.succ_mul] at this
    omega
  · have := Nat.mul_le_mul_right (blockSize i) (Nat.succ_le_of_lt h)
    rw [Nat.succ_mul] at this
    omega

/-- TWO LIVE BLOCKS HAVE NO BYTE IN COMMON. -/
theorem InOrder.apart (ord : d.InOrder A live) (laid : d.Laid A) (hb : b ∈ live) (hc : c ∈ live)
    (hne : b ≠ c) (h : d.InBlock b n) : ¬ d.InBlock c n := by
  intro h'
  have same :=
    laid.apart _ _ _ (ord.arenas b hb) (ord.arenas c hc) ((ord.blocks b hb).inPages h)
      ((ord.blocks c hc).inPages h')
  cases hdesc : (d.arena (block2arena b)).desc with
  | some i =>
    have first := ord.isBlock hb hdesc
    have second := ord.isBlock hc (same ▸ hdesc)
    rw [← same] at second
    have apart := isBlock_apart first second hne
    unfold InBlock at h h'
    rw [room_small hdesc] at h
    rw [room_small (same ▸ hdesc)] at h'
    omega
  | none =>
    apply hne
    have eq {x : Nat} (hx : x ∈ live) (page : block2arena b = block2arena x) :
        x = 4096 * block2arena x + arenaSize := by
      cases ord.blocks x hx with
      | small j hj =>
        rw [← page, hdesc] at hj
        cases hj
      | large _ _ _ eq => exact eq
    rw [eq hb rfl, eq hc same, same]

/-- NO LIVE BLOCK HAS A BYTE OF A FREE ONE. -/
theorem InOrder.free_apart (ord : d.InOrder A live) (laid : d.Laid A) (hb : b ∈ d.freeList i)
    (hc : c ∈ live) (low : b ≤ n) (high : n < b + blockSize i) : ¬ d.InBlock c n := by
  intro h
  obtain ⟨p, hp, desc, hblock, hlive⟩ := (ord.lists i b).mp hb
  have here : d.InPages p (n / 4096) := by
    obtain rfl := hblock.page
    have block : d.Live b := .small i desc hblock
    exact block.inPages ⟨low, (room_small desc).symm ▸ high⟩
  obtain rfl := laid.apart _ _ _ (ord.arenas c hc) hp ((ord.blocks c hc).inPages h) here
  have apart := isBlock_apart hblock (ord.isBlock hc desc) (by
    rintro rfl
    exact hlive hc)
  unfold InBlock at h
  rw [room_small desc] at h
  omega

/-- A byte of the header of the arena at a page. -/
def InHeader (p c : Nat) : Prop := 4096 * p ≤ c ∧ c < 4096 * p + arenaSize

/-- NO BLOCK HAS A BYTE OF A HEADER. -/
theorem InOrder.header_apart (ord : d.InOrder A live) (laid : d.Laid A) (hb : b ∈ live) (hp : A p)
    (h : d.InBlock b n) : ¬ InHeader p n := by
  rintro ⟨low, high⟩
  have pos := laid.pos p hp
  have here : d.InPages p (n / 4096) := by
    unfold arenaSize at high
    constructor <;> omega
  obtain rfl := laid.apart _ _ _ (ord.arenas b hb) hp ((ord.blocks b hb).inPages h) here
  have := (ord.blocks b hb).place.1
  have := h.1
  omega

end BlockDescs

end SeekingOs
