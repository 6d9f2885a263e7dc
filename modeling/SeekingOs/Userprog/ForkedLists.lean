import SeekingOs.Kernel.Exhausted
import SeekingOs.Userprog.ForkedHeaps

/-!
# The free lists of one process

The list of a descriptor, taken as the links of a process spell it out, is the `freeList` that the
model of one allocator has for it. The loops of `sys_malloc` and `sys_free` go in lockstep with
those of that model, and write nothing but links of the process and ends of its own lists.
-/

namespace SeekingOs

open Lib

namespace ForkedHeaps

variable {s s' s₁ : ForkedHeaps} {p q : Side} {o : Owner} {i j b c page first last left k : Nat}
  {fl : Nat → List Nat} {x y : ListElem}

/-! ## Updates -/

@[simp] theorem setSpace_self {x : HeapSpace} : (s.setSpace p x).space p = x :=
  Function.update_self _ _ _

theorem setSpace_ne {x : HeapSpace} (h : q ≠ p) : (s.setSpace p x).space q = s.space q :=
  Function.update_of_ne h _ _

/-- The elements of the lists are where the writes have put them. -/
@[simp] theorem nodes_setNodes {n : Nodes ListElem} : (s.setNodes p n).nodes p = n := by
  funext x
  cases x with
  | head o i => rfl
  | tail o i => rfl
  | block b =>
    show ((s.setSpace p { s.space p with links := fun b => n (.block b) }).space p).links b =
      n (.block b)
    rw [setSpace_self]

theorem nodes_congr (links : (s'.space p).links = (s.space p).links) (descs : s'.descs = s.descs) :
    s'.nodes p = s.nodes p := by
  funext x
  cases x with
  | head o i => exact congrArg (fun d => (d o i).1) descs
  | tail o i => exact congrArg (fun d => (d o i).2) descs
  | block b => exact congrFun links b

@[simp] theorem nodes_setMemory {m : Memory} : (s.setMemory p m).nodes p = s.nodes p := by
  refine nodes_congr ?_ rfl
  show ((s.setSpace p { s.space p with userVaddr := m.userVaddr }).space p).links = _
  rw [setSpace_self]

@[simp] theorem nodes_setArena {a : TaskArena} : (s.setArena p page a).nodes p = s.nodes p := by
  refine nodes_congr ?_ rfl
  unfold setArena
  rw [setSpace_self]

theorem nodes_clearLinks (h : ∀ b, x = .block b → ¬ (first ≤ b ∧ b < last)) :
    (s.clearLinks p first last).nodes p x = s.nodes p x := by
  cases x with
  | head o i => rfl
  | tail o i => rfl
  | block b =>
    show ((s.clearLinks p first last).space p).links b = (s.space p).links b
    unfold clearLinks
    rw [setSpace_self]
    exact if_neg (h b rfl)

/-! ## What is not written -/

/-- ONLY LINKS of the process and the ends of its own lists are written. -/
structure Relinks (s s' : ForkedHeaps) (p : Side) : Prop where
  memory : s'.memory = s.memory
  cr3 : (s'.space p).cr3 = (s.space p).cr3
  userVaddr : (s'.space p).userVaddr = (s.space p).userVaddr
  arena : (s'.space p).arena = (s.space p).arena
  others : ∀ q, q ≠ p → s'.space q = s.space q
  descs : ∀ o, o ≠ .side p → s'.descs o = s.descs o
  poolSize : s'.poolSize = s.poolSize
  live : s'.live = s.live

theorem Relinks.refl (s : ForkedHeaps) (p : Side) : Relinks s s p :=
  ⟨rfl, rfl, rfl, rfl, fun _ _ => rfl, fun _ _ => rfl, rfl, rfl⟩

theorem Relinks.trans (first : Relinks s s₁ p) (second : Relinks s₁ s' p) : Relinks s s' p where
  memory := second.memory.trans first.memory
  cr3 := second.cr3.trans first.cr3
  userVaddr := second.userVaddr.trans first.userVaddr
  arena := second.arena.trans first.arena
  others q hq := (second.others q hq).trans (first.others q hq)
  descs o ho := (second.descs o ho).trans (first.descs o ho)
  poolSize := second.poolSize.trans first.poolSize
  live := second.live.trans first.live

theorem Relinks.view (re : Relinks s s' p) : s'.view p = s.view p := by
  unfold ForkedHeaps.view
  rw [re.memory, re.cr3, re.userVaddr]

/-- Writes to the elements of a list that is the process's own. -/
theorem relinks_setNodes {n : Nodes ListElem}
    (own : ∀ o, o ≠ .side p → ∀ i, n (.head o i) = s.nodes p (.head o i) ∧
      n (.tail o i) = s.nodes p (.tail o i)) : Relinks s (s.setNodes p n) p := by
  have self : (s.setNodes p n).space p = { s.space p with links := fun b => n (.block b) } :=
    setSpace_self
  refine ⟨rfl, by rw [self], by rw [self], by rw [self], fun q hq => setSpace_ne hq,
    fun o ho => ?_, rfl, rfl⟩
  funext i
  obtain ⟨head, tail⟩ := own o ho i
  exact Prod.ext head tail

theorem relinks_clearLinks : Relinks s (s.clearLinks p first last) p := by
  unfold clearLinks
  refine ⟨rfl, ?_, ?_, ?_, fun q hq => setSpace_ne hq, fun _ _ => rfl, rfl, rfl⟩ <;>
    rw [setSpace_self]

/-! ## The lists -/

/-- The nodes of a list of the process. -/
def listNodes (p : Side) (i : Nat) (l : List Nat) : List ListElem :=
  .head (.side p) i :: (l.map .block ++ [.tail (.side p) i])

theorem mem_listNodes {l : List Nat} : x ∈ listNodes p i l ↔ x = .head (.side p) i ∨
    (∃ b ∈ l, x = .block b) ∨ x = .tail (.side p) i := by
  unfold listNodes
  simp only [List.mem_cons, List.mem_append, List.mem_map, List.not_mem_nil, or_false, eq_comm]

/-- Nor are the ends of the lists of others. -/
theorem end_other {l : List Nat} (h : o ≠ .side p) :
    ListElem.head o j ∉ listNodes p i l ∧ ListElem.tail o j ∉ listNodes p i l := by
  constructor <;> simp [mem_listNodes, h]

/-- THE LISTS of a process, one for each descriptor, without a block in common. -/
structure Lists (s : ForkedHeaps) (p : Side) (fl : Nat → List Nat) : Prop where
  isList :
    ∀ i < descCnt, (s.nodes p).IsList (.head (.side p) i) (.tail (.side p) i) ((fl i).map .block)
  apart : ∀ i < descCnt, ∀ j < descCnt, ∀ b, b ∈ fl i → b ∈ fl j → i = j

theorem Lists.congr (ls : s.Lists p fl)
    (same : ∀ i < descCnt, ∀ x ∈ listNodes p i (fl i), s'.nodes p x = s.nodes p x) :
    s'.Lists p fl where
  isList i hi := (ls.isList i hi).congr (same i hi)
  apart := ls.apart

/-- A node of one list is none of another. -/
theorem Lists.foreign (ls : s.Lists p fl) (hi : i < descCnt) (hj : j < descCnt) (hne : j ≠ i)
    (hx : x ∈ listNodes p j (fl j)) : x ∉ listNodes p i (fl i) := by
  intro hx'
  rw [mem_listNodes] at hx hx'
  rcases hx with rfl | ⟨b, hb, rfl⟩ | rfl
  · simp [hne] at hx'
  · simp only [reduceCtorEq, ListElem.block.injEq, exists_eq_right', false_or, or_false] at hx'
    exact hne (ls.apart j hj i hi b hb hx')
  · simp [hne] at hx'

theorem Lists.nodup (ls : s.Lists p fl) (hi : i < descCnt) : (fl i).Nodup := by
  have nodup := (List.nodup_cons.mp (ls.isList i hi).nodup).2
  exact List.Nodup.of_map _ (List.nodup_append.mp nodup).1

theorem block_mem_map {l : List Nat} : ListElem.block b ∈ l.map .block ↔ b ∈ l := by
  simp only [List.mem_map, ListElem.block.injEq, exists_eq_right]

/-- `elem_find` answers whether the block is on the list. -/
theorem Lists.elemFind (ls : s.Lists p fl) (hi : i < descCnt) (short : (fl i).length < 2 ^ 32) :
    s.elemFind p (.side p) i (.block b) = .ok (decide (b ∈ fl i)) := by
  have enough : ((fl i).map ListElem.block).length < 2 ^ 32 := by
    rw [List.length_map]
    exact short
  unfold ForkedHeaps.elemFind
  rw [(ls.isList i hi).find_eq enough]
  dsimp only
  simp only [block_mem_map]

/-- `list_empty` -/
theorem Lists.listEmpty (ls : s.Lists p fl) (hi : i < descCnt) : s.listEmpty p (.side p) i = true ↔
    fl i = [] := by
  unfold ForkedHeaps.listEmpty
  rw [decide_eq_true_iff, (ls.isList i hi).empty_iff, List.map_eq_nil_iff]

/-- A BLOCK IS APPENDED to a list. -/
theorem Lists.listAppend (ls : s.Lists p fl) (hi : i < descCnt) (new : ∀ j < descCnt, b ∉ fl j) :
    (s.listAppend p (.side p) i (.block b)).Lists p (Function.update fl i (fl i ++ [b])) ∧
    Relinks s (s.listAppend p (.side p) i (.block b)) p := by
  have fresh {j : Nat} (hj : j < descCnt) : ListElem.block b ∉ listNodes p j (fl j) := by
    rw [mem_listNodes]
    simpa using new j hj
  obtain ⟨list, others⟩ := (ls.isList i hi).append (fresh hi)
  unfold ForkedHeaps.listAppend
  refine ⟨⟨fun j hj => ?_, fun j hj k hk c hc hc' => ?_⟩, relinks_setNodes fun o ho j => ⟨?_, ?_⟩⟩
  · rw [nodes_setNodes]
    by_cases h : j = i
    · subst h
      rw [Function.update_self, List.map_append]
      exact list
    · rw [Function.update_of_ne h]
      refine (ls.isList j hj).congr fun y hy => others y (ls.foreign hi hj h hy) ?_
      rintro rfl
      exact fresh hj hy
  · by_cases h : j = i
    · subst h
      by_cases h' : k = j
      · exact h'.symm
      rw [Function.update_of_ne h'] at hc'
      rw [Function.update_self, List.mem_append, List.mem_singleton] at hc
      rcases hc with hc | rfl
      · exact ls.apart j hj k hk c hc hc'
      · exact absurd hc' (new k hk)
    · rw [Function.update_of_ne h] at hc
      by_cases h' : k = i
      · subst h'
        rw [Function.update_self, List.mem_append, List.mem_singleton] at hc'
        rcases hc' with hc' | rfl
        · exact ls.apart j hj k hk c hc hc'
        · exact absurd hc (new j hj)
      · rw [Function.update_of_ne h'] at hc'
        exact ls.apart j hj k hk c hc hc'
  · exact others _ (end_other ho).1 (by simp)
  · exact others _ (end_other ho).2 (by simp)

/-- A BLOCK IS TAKEN OFF its list. -/
theorem Lists.listRemove (ls : s.Lists p fl) (hi : i < descCnt) (hb : b ∈ fl i) :
    (s.listRemove p (.block b)).Lists p (Function.update fl i ((fl i).erase b)) ∧
    Relinks s (s.listRemove p (.block b)) p := by
  obtain ⟨l, l', hl⟩ := List.append_of_mem hb
  have nodup := ls.nodup hi
  rw [hl] at nodup
  have fresh : b ∉ l := fun h => (List.nodup_append.mp nodup).2.2 b h b List.mem_cons_self rfl
  have erase : (fl i).erase b = l ++ l' := by
    rw [hl, List.erase_append_right _ fresh, List.erase_cons_head]
  have il := ls.isList i hi
  rw [hl, List.map_append, List.map_cons] at il
  obtain ⟨list, others⟩ := il.remove
  have others {y : ListElem} (hy : y ∉ listNodes p i (fl i)) : (s.nodes p).remove (.block b) y =
      s.nodes p y := by
    apply others
    rw [← List.map_cons, ← List.map_append, ← hl]
    exact hy
  have sub {j c : Nat} (hc : c ∈ Function.update fl i ((fl i).erase b) j) : c ∈ fl j := by
    by_cases h : j = i
    · subst h
      rw [Function.update_self] at hc
      exact List.mem_of_mem_erase hc
    · rw [Function.update_of_ne h] at hc
      exact hc
  unfold ForkedHeaps.listRemove
  refine ⟨⟨fun j hj => ?_, fun j hj k hk c hc hc' => ls.apart j hj k hk c (sub hc) (sub hc')⟩,
    relinks_setNodes fun o ho j => ⟨?_, ?_⟩⟩
  · rw [nodes_setNodes]
    by_cases h : j = i
    · subst h
      rw [Function.update_self, erase, List.map_append]
      exact list
    · rw [Function.update_of_ne h]
      exact (ls.isList j hj).congr fun y hy => others (ls.foreign hi hj h hy)
  · exact others (end_other ho).1
  · exact others (end_other ho).2

/-! ## The loops -/

/-- An assertion about an answer. -/
theorem assertThat_decide {cond : Prop} [Decidable cond] {func text : String} :
    assertThat false (decide cond = true) func text = assertThat false cond func text := by
  unfold assertThat
  rw [Bool.decide_eq_true]

/-- The two models do the same: links of the process alone are written, for the lists that the other
one has. -/
def Relists (s : ForkedHeaps) (p : Side) (d : BlockDescs) (s' : ForkedHeaps) (d' : BlockDescs) :
    Prop :=
  s'.Lists p d'.freeList ∧ Relinks s s' p ∧ d'.arena = d.arena

variable {d : BlockDescs}

/-- An arena is cut into blocks. -/
theorem Lists.splitArena (hi : i < descCnt) (ls : s.Lists p d.freeList)
    (fresh : ∀ j < descCnt, ∀ n, k ≤ n → n < k + left → arena2block page i n ∉ d.freeList j)
    (short : (d.freeList i).length + left < 2 ^ 32) :
    Lockstep (Relists s p d) (splitArena p page i left k s) (d.splitArena page i left k) := by
  induction left generalizing s d k with
  | zero => exact ⟨ls, Relinks.refl s p, rfl⟩
  | succ left ih =>
    have new (j : Nat) (hj : j < descCnt) := fresh j hj k (Nat.le_refl k) (by omega)
    obtain ⟨ls', re⟩ := ls.listAppend hi new
    unfold ForkedHeaps.splitArena BlockDescs.splitArena
    dsimp only
    rw [ls.elemFind hi (by omega), ok_bind, assertThat_of (decide_eq_false (new i hi)),
      assertThat_of (new i hi), ok_bind, ok_bind]
    have rest := @ih _ (k + 1) (d.setFreeList i (d.freeList i ++ [arena2block page i k])) ls' ?_ ?_
    · refine rest.mono fun s' d' h => ⟨h.1, re.trans h.2.1, h.2.2⟩
    · intro j hj n hn hn'
      by_cases h : j = i
      · subst h
        rw [BlockDescs.setFreeList_freeList_self, List.mem_append, List.mem_singleton, not_or]
        refine ⟨fresh j hj n (by omega) (by omega), fun e => ?_⟩
        have := arena2block_inj e
        omega
      · rw [BlockDescs.setFreeList_freeList_ne h]
        exact fresh j hj n (by omega) (by omega)
    · rw [BlockDescs.setFreeList_freeList_self, List.length_append, List.length_singleton]
      omega

/-- The blocks of an arena are taken off. -/
theorem Lists.takeOff (hi : i < descCnt) (ls : s.Lists p d.freeList)
    (short : (d.freeList i).length < 2 ^ 32) :
    Lockstep (Relists s p d) (takeOff p (.side p) page i left k s) (d.takeOff page i left k) := by
  induction left generalizing s d k with
  | zero => exact ⟨ls, Relinks.refl s p, rfl⟩
  | succ left ih =>
    unfold ForkedHeaps.takeOff BlockDescs.takeOff
    dsimp only
    rw [ls.elemFind hi short, ok_bind, assertThat_decide]
    refine Lockstep.same fun _ passed => ?_
    have hb := assertThat_ok passed
    obtain ⟨ls', re⟩ := ls.listRemove hi hb
    have rest :=
      @ih _ (k + 1) (d.setFreeList i ((d.freeList i).erase (arena2block page i k))) ls' ?_
    · exact rest.mono fun s' d' h => ⟨h.1, re.trans h.2.1, h.2.2⟩
    · rw [BlockDescs.setFreeList_freeList_self]
      exact Nat.lt_of_le_of_lt List.length_erase_le short

end ForkedHeaps

end SeekingOs
