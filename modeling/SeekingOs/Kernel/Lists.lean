import Mathlib.Data.List.Perm.Subperm
import SeekingOs.Kernel.Base
import SeekingOs.Lib.Linked

/-!
# `lib/kernel/list.c`

A `struct list` is two end nodes, and its elements are linked between them. Any number of lists
share the nodes. `Represents lists s seq` says that list `i` holds the sequence `seq i` and that no
node is in two lists; every operation keeps it (`Op.Allowed.step`) and leaves the nodes of the other
lists alone.

The functions turn interrupts off around the links they write. Here an operation is one step.
-/

namespace SeekingOs.KernelList

open Lib Nodes

/-- The address of a `struct list_elem`. -/
abbrev Elem := BitVec 32

/-- `NULL` -/
def null : Elem := 0#32

/-- `struct list` -/
structure Ends where
  head : Elem
  tail : Elem
  deriving DecidableEq, Repr

/-- `list_init` -/
def listInit (l : Ends) (s : Nodes Elem) : Nodes Elem :=
  let s := s.setPrev l.head null
  let s := s.setNext l.head l.tail
  let s := s.setPrev l.tail l.head
  s.setNext l.tail null

/-- `list_insert_before` -/
def listInsertBefore (before elem : Elem) (s : Nodes Elem) : Nodes Elem :=
  s.insertBefore before elem

/-- `list_push` -/
def listPush (l : Ends) (elem : Elem) (s : Nodes Elem) : Nodes Elem :=
  listInsertBefore (s l.head).next elem s

/-- `list_append` -/
def listAppend (l : Ends) (elem : Elem) (s : Nodes Elem) : Nodes Elem :=
  listInsertBefore l.tail elem s

/-- `list_remove` -/
def listRemove (elem : Elem) (s : Nodes Elem) : Nodes Elem := s.remove elem

/-- `list_empty` -/
def listEmpty (l : Ends) (s : Nodes Elem) : Bool := if (s l.head).next = l.tail then true else false

/-- `list_pop` -/
def listPop (l : Ends) (s : Nodes Elem) : Option Elem × Nodes Elem :=
  if listEmpty l s then (none, s)
  else
    let elem := (s l.head).next
    (some elem, listRemove elem s)

/-- `elem_find` -/
def elemFind (turns : Nat) (l : Ends) (obj : Elem) (s : Nodes Elem) : Except (Cut Fault) Bool :=
  whileLoop (walkTurn s l.tail (fun mov _ => if mov = obj then .leave true else .again ()) fun _ =>
    false) turns ((s l.head).next, ())

/-- `list_traversal`; `func` may read and change a state of its own, but no links. -/
def listTraversal {σ : Type} (turns : Nat) (l : Ends) (func : Elem → Int → σ → Bool × σ) (arg : Int)
    (st : σ) (s : Nodes Elem) : Except (Cut Fault) (Option Elem × σ) :=
  if listEmpty l s then .ok (none, st)
  else
    whileLoop (walkTurn s l.tail
      (fun elem st => if (func elem arg st).1 then .leave (some elem, (func elem arg st).2)
        else .again (func elem arg st).2)
      fun st => (none, st)) turns ((s l.head).next, st)

/-- `list_len` -/
def listLen (turns : Nat) (l : Ends) (s : Nodes Elem) : Except (Cut Fault) Nat :=
  whileLoop (walkTurn s l.tail (fun _ (length : Nat) => .again (u32 (length + 1))) fun length =>
    length) turns ((s l.head).next, 0)

/-! ## Operations -/

/-- A call that changes links. Lists go by their index. -/
inductive Op (ι : Type) where
  | push (i : ι) (elem : Elem)
  | append (i : ι) (elem : Elem)
  | insertBefore (before elem : Elem)
  | remove (elem : Elem)
  | pop (i : ι)

variable {ι : Type} [DecidableEq ι] (lists : ι → Ends)

/-- What the code does; only `list_pop` answers. -/
def Op.run : Op ι → Nodes Elem → Option Elem × Nodes Elem
  | .push i elem, s => (none, listPush (lists i) elem s)
  | .append i elem, s => (none, listAppend (lists i) elem s)
  | .insertBefore before elem, s => (none, listInsertBefore before elem s)
  | .remove elem, s => (none, listRemove elem s)
  | .pop i, s => listPop (lists i) s

def runAll : List (Op ι) → Nodes Elem → List (Option Elem) × Nodes Elem
  | [], s => ([], s)
  | op :: ops, s =>
    let (answer, s) := op.run lists s
    let (answers, s) := runAll ops s
    (answer :: answers, s)

/-! ## Sequences -/

/-- The sequences of all lists. -/
abbrev Seqs (ι : Type) := ι → List Elem

/-- `x` is put before `b`, behind all when `b` is not there. -/
def putBefore (b x : Elem) : List Elem → List Elem
  | [] => [x]
  | y :: l => if y = b then x :: y :: l else y :: putBefore b x l

/-- Whether an operation is about list `j`. -/
def Op.edits (seq : Seqs ι) (j : ι) : Op ι → Bool
  | .push i _ => j = i
  | .append i _ => j = i
  | .insertBefore before _ => before ∈ seq j ++ [(lists j).tail]
  | .remove elem => elem ∈ seq j
  | .pop i => j = i

/-- What an operation makes of the sequence of a list it is about. -/
def Op.edit : Op ι → List Elem → List Elem
  | .push _ elem, l => elem :: l
  | .append _ elem, l => l ++ [elem]
  | .insertBefore before elem, l => putBefore before elem l
  | .remove elem, l => l.erase elem
  | .pop _, l => l.tail

/-- What an operation answers. -/
def Op.answer (seq : Seqs ι) : Op ι → Option Elem
  | .pop i => (seq i).head?
  | _ => none

/-- What an operation does to the sequences. -/
def Op.effect (op : Op ι) (seq : Seqs ι) : Seqs ι :=
  fun j => if op.edits lists seq j then op.edit (seq j) else seq j

def effectAll : List (Op ι) → Seqs ι → List (Option Elem) × Seqs ι
  | [], seq => ([], seq)
  | op :: ops, seq =>
    let (answers, seq') := effectAll ops (op.effect lists seq)
    (op.answer seq :: answers, seq')

/-- The nodes of a list, its ends included. -/
def nodes (seq : Seqs ι) (i : ι) : List Elem := (lists i).head :: (seq i ++ [(lists i).tail])

/-- An element that is in no list. -/
def Fresh (seq : Seqs ι) (elem : Elem) : Prop := ∀ i, elem ∉ nodes lists seq i

/-- An inserted element is in no list and goes before an element or a tail; a removed one is in a
list. -/
def Op.Allowed (seq : Seqs ι) : Op ι → Prop
  | .push _ elem => Fresh lists seq elem
  | .append _ elem => Fresh lists seq elem
  | .insertBefore before elem => Fresh lists seq elem ∧ ∃ i, before ∈ seq i ++ [(lists i).tail]
  | .remove elem => ∃ i, elem ∈ seq i
  | .pop _ => True

def AllAllowed : List (Op ι) → Seqs ι → Prop
  | [], _ => True
  | op :: ops, seq => op.Allowed lists seq ∧ AllAllowed ops (op.effect lists seq)

/-! ## The refinement -/

/-- THE INVARIANT. Every list holds its sequence, and no node is in two lists. -/
structure Represents (s : Nodes Elem) (seq : Seqs ι) : Prop where
  isList : ∀ i, IsList s (lists i).head (lists i).tail (seq i)
  apart : ∀ {i j x}, x ∈ nodes lists seq i → x ∈ nodes lists seq j → i = j

variable {lists} {s s' : Nodes Elem} {seq seq' : Seqs ι} {i j : ι} {x : Elem} {l l' : List Elem}

/-- ONE LIST IS EDITED: it holds a new sequence, of its own elements and of such that were in no
list, and the nodes of the others are left alone. -/
theorem Represents.edit (rep : Represents lists s seq)
    (il : IsList s' (lists i).head (lists i).tail l')
    (among : ∀ x ∈ l', x ∈ seq i ∨ Fresh lists seq x)
    (same : ∀ j, j ≠ i → ∀ y ∈ nodes lists seq j, s' y = s y) (this : seq' i = l')
    (others : ∀ j, j ≠ i → seq' j = seq j) : Represents lists s' seq' := by
  have sameNodes : ∀ j, j ≠ i → nodes lists seq' j = nodes lists seq j :=
    fun j hj => by rw [nodes, nodes, others j hj]
  -- a node of the edited list was in no other one
  have alone : ∀ {j x}, j ≠ i → x ∈ nodes lists seq' i → x ∉ nodes lists seq' j := by
    intro j x hj hx hxj
    rw [sameNodes j hj] at hxj
    rw [nodes, this] at hx
    have old : x ∈ nodes lists seq i ∨ Fresh lists seq x := by
      rcases List.mem_cons.mp hx with rfl | hx
      · exact Or.inl List.mem_cons_self
      rcases List.mem_append.mp hx with hx | hx
      · exact (among x hx).imp_left fun h => List.mem_cons_of_mem _ (List.mem_append_left _ h)
      · exact Or.inl (List.mem_cons_of_mem _ (List.mem_append_right _ hx))
    rcases old with old | fresh
    · exact hj (rep.apart hxj old)
    · exact fresh j hxj
  refine ⟨fun j => ?_, fun {j k x} hxj hxk => ?_⟩
  · by_cases hj : j = i
    · subst hj
      rw [this]
      exact il
    · rw [others j hj]
      exact (rep.isList j).congr (same j hj)
  · by_cases hj : j = i
    · by_contra hne
      subst hj
      exact alone (Ne.symm hne) hxj hxk
    · by_cases hk : k = i
      · subst hk
        exact absurd hxj (alone hj hxk)
      · rw [sameNodes j hj] at hxj
        rw [sameNodes k hk] at hxk
        exact rep.apart hxj hxk

/-- What one operation is to do: the sequences go on as they should, and a list that it is not about
keeps its sequence and its nodes. -/
structure Step (lists : ι → Ends) (op : Op ι) (s : Nodes Elem) (seq : Seqs ι) : Prop where
  represents : Represents lists (op.run lists s).2 (op.effect lists seq)
  answer : (op.run lists s).1 = op.answer seq
  frame : ∀ j, op.edits lists seq j = false → op.effect lists seq j = seq j ∧
    ∀ y ∈ nodes lists seq j, (op.run lists s).2 y = s y

/-- A step is that of one list. -/
theorem Represents.step {op : Op ι} (rep : Represents lists s seq)
    (about : ∀ j, op.edits lists seq j = true ↔ j = i)
    (il : IsList (op.run lists s).2 (lists i).head (lists i).tail (op.edit (seq i)))
    (among : ∀ x ∈ op.edit (seq i), x ∈ seq i ∨ Fresh lists seq x)
    (same : ∀ z, z ∉ nodes lists seq i → ¬ Fresh lists seq z → (op.run lists s).2 z = s z)
    (answer : (op.run lists s).1 = op.answer seq) : Step lists op s seq := by
  have frame : ∀ j, j ≠ i → ∀ y ∈ nodes lists seq j, (op.run lists s).2 y = s y := by
    intro j hj y hy
    exact same y (fun hyi => hj (rep.apart hy hyi)) fun fresh => fresh j hy
  have this : op.effect lists seq i = op.edit (seq i) := if_pos ((about i).mpr rfl)
  have others : ∀ j, j ≠ i → op.effect lists seq j = seq j :=
    fun j hj => if_neg fun h => hj ((about j).mp h)
  refine ⟨rep.edit il among frame this others, answer, fun j hj => ?_⟩
  have ne : j ≠ i := by
    rintro rfl
    rw [(about j).mpr rfl] at hj
    cases hj
  exact ⟨others j ne, frame j ne⟩

/-- An insertion before a node of list `i`. -/
theorem Represents.insert {op : Op ι} {b elem : Elem} {r post : List Elem}
    (rep : Represents lists s seq) (about : ∀ j, op.edits lists seq j = true ↔ j = i)
    (fresh : Fresh lists seq elem) (parts : seq i = l ++ r)
    (here : r ++ [(lists i).tail] = b :: post) (edit : op.edit (seq i) = l ++ elem :: r)
    (run : op.run lists s = (none, s.insertBefore b elem)) (answer : op.answer seq = none) :
    Step lists op s seq := by
  have il := rep.isList i
  have new := fresh i
  rw [nodes] at new
  rw [parts] at il new
  obtain ⟨grown, others⟩ := il.insert here new
  apply rep.step about
  · rw [run, edit]
    exact grown
  · rw [edit, parts]
    intro x hx
    rcases List.mem_append.mp hx with hx | hx
    · exact Or.inl (List.mem_append_left _ hx)
    rcases List.mem_cons.mp hx with rfl | hx
    · exact Or.inr fresh
    · exact Or.inl (List.mem_append_right _ hx)
  · intro z hz notFresh
    rw [run]
    rw [nodes, parts] at hz
    exact others z hz fun e => notFresh (e ▸ fresh)
  · rw [run, answer]

/-- An element of list `i` is taken out. -/
theorem Represents.remove {op : Op ι} {elem : Elem} {r : List Elem} (rep : Represents lists s seq)
    (about : ∀ j, op.edits lists seq j = true ↔ j = i) (parts : seq i = l ++ elem :: r)
    (edit : op.edit (seq i) = l ++ r) (run : (op.run lists s).2 = s.remove elem)
    (answer : (op.run lists s).1 = op.answer seq) : Step lists op s seq := by
  have il := rep.isList i
  rw [parts] at il
  obtain ⟨shrunk, others⟩ := il.remove
  apply rep.step about
  · rw [run, edit]
    exact shrunk
  · rw [edit, parts]
    intro x hx
    left
    rcases List.mem_append.mp hx with hx | hx
    · exact List.mem_append_left _ hx
    · exact List.mem_append_right _ (List.mem_cons_of_mem _ hx)
  · intro z hz _
    rw [run]
    rw [nodes, parts] at hz
    exact others z hz
  · exact answer

/-! ## The five operations -/

omit [DecidableEq ι] in
/-- The first node behind the head. -/
theorem head_next (il : IsList s (lists i).head (lists i).tail l) :
    ∃ post, l ++ [(lists i).tail] = (s (lists i).head).next :: post := by
  have lk := il.linked
  cases l with
  | nil =>
    have first : (s (lists i).head).next = (lists i).tail := lk.1
    exact ⟨[], by rw [first]; rfl⟩
  | cons x l =>
    have first : (s (lists i).head).next = x := lk.1
    exact ⟨l ++ [(lists i).tail], by rw [first]; rfl⟩

theorem putBefore_of_notMem {b : Elem} (h : b ∉ l) : putBefore b x l = l ++ [x] := by
  induction l with
  | nil => rfl
  | cons y l ih =>
    rw [List.mem_cons, not_or] at h
    rw [putBefore, if_neg (Ne.symm h.1), ih h.2]
    rfl

theorem putBefore_append {b : Elem} {r : List Elem} (h : b ∉ l) :
    putBefore b x (l ++ b :: r) = l ++ x :: b :: r := by
  induction l with
  | nil => exact if_pos rfl
  | cons y l ih =>
    rw [List.mem_cons, not_or] at h
    show (if y = b then x :: y :: (l ++ b :: r) else y :: putBefore b x (l ++ b :: r)) =
      y :: (l ++ x :: b :: r)
    rw [if_neg (Ne.symm h.1), ih h.2]

omit [DecidableEq ι] in
/-- An element of a list splits it at the one place where it stands. -/
theorem Represents.split (rep : Represents lists s seq) (h : x ∈ seq i) :
    ∃ l r, seq i = l ++ x :: r ∧ x ∉ l := by
  obtain ⟨l, r, parts⟩ := List.append_of_mem h
  refine ⟨l, r, parts, fun hx => ?_⟩
  have nodup := (List.nodup_cons.mp (rep.isList i).nodup).2
  rw [parts] at nodup
  have apart := (List.nodup_append.mp (List.nodup_append.mp nodup).1).2.2
  exact apart x hx x List.mem_cons_self rfl

omit [DecidableEq ι] in
theorem mem_nodes (h : x ∈ seq i ++ [(lists i).tail]) : x ∈ nodes lists seq i :=
  List.mem_cons_of_mem _ h

/-- EVERY OPERATION, on lists that represent sequences. -/
theorem Op.Allowed.step {op : Op ι} (ok : op.Allowed lists seq) (rep : Represents lists s seq) :
    Step lists op s seq := by
  cases op with
  | push i elem =>
    obtain ⟨post, first⟩ := head_next (rep.isList i)
    exact rep.insert (i := i) (l := []) (fun j => decide_eq_true_iff) ok rfl first rfl rfl rfl
  | append i elem =>
    exact rep.insert (i := i) (fun j => decide_eq_true_iff) ok (List.append_nil _).symm
      rfl rfl rfl rfl
  | insertBefore before elem =>
    obtain ⟨fresh, i, hb⟩ := ok
    have about : ∀ j, (Op.insertBefore before elem : Op ι).edits lists seq j = true ↔ j = i := by
      intro j
      rw [Op.edits, decide_eq_true_iff]
      refine ⟨fun hj => rep.apart (mem_nodes hj) (mem_nodes hb), ?_⟩
      rintro rfl
      exact hb
    rcases List.mem_append.mp hb with here | tail
    · obtain ⟨l, r, parts, notBefore⟩ := rep.split here
      refine rep.insert about fresh parts rfl ?_ rfl rfl
      rw [Op.edit, parts]
      exact putBefore_append notBefore
    · obtain rfl := List.mem_singleton.mp tail
      refine rep.insert about fresh (List.append_nil _).symm rfl ?_ rfl rfl
      exact putBefore_of_notMem (rep.isList i).tail_notMem
  | remove elem =>
    obtain ⟨i, here⟩ := ok
    have about : ∀ j, (Op.remove elem : Op ι).edits lists seq j = true ↔ j = i := by
      intro j
      rw [Op.edits, decide_eq_true_iff]
      refine ⟨fun hj => rep.apart (mem_nodes (List.mem_append_left _ hj))
        (mem_nodes (List.mem_append_left _ here)), ?_⟩
      rintro rfl
      exact here
    obtain ⟨l, r, parts, notBefore⟩ := rep.split here
    refine rep.remove about parts ?_ rfl rfl
    rw [Op.edit, parts, List.erase_append_right _ notBefore, List.erase_cons_head]
  | pop i =>
    have about : ∀ j, (Op.pop i : Op ι).edits lists seq j = true ↔ j = i :=
      fun j => decide_eq_true_iff
    have empty := (rep.isList i).empty_iff
    cases parts : seq i with
    | nil =>
      have run : (Op.pop i).run lists s = (none, s) := by
        simp [Op.run, listPop, listEmpty, empty.mpr parts]
      apply rep.step about
      · have il := rep.isList i
        rw [parts] at il
        rw [run, Op.edit, parts]
        exact il
      · rw [Op.edit, parts]
        exact fun x hx => absurd hx List.not_mem_nil
      · intro z _ _
        rw [run]
      · rw [run, Op.answer, parts]
        rfl
    | cons x l =>
      have full : ¬ (s (lists i).head).next = (lists i).tail := fun e => by
        rw [empty.mp e] at parts
        cases parts
      have first : (s (lists i).head).next = x := by
        obtain ⟨post, shape⟩ := head_next (rep.isList i)
        rw [parts] at shape
        exact (List.cons.inj shape).1.symm
      rw [first] at full
      have run : (Op.pop i).run lists s = (some x, s.remove x) := by
        simp [Op.run, listPop, listEmpty, listRemove, first, full]
      refine rep.remove (l := []) about parts ?_ ?_ ?_
      · rw [Op.edit, parts]
        rfl
      · rw [run]
      · rw [run, Op.answer, parts]
        rfl

/-! ## Runs -/

theorem Represents.run {ops : List (Op ι)} (rep : Represents lists s seq)
    (ok : AllAllowed lists ops seq) :
    Represents lists (runAll lists ops s).2 (effectAll lists ops seq).2 ∧
    (runAll lists ops s).1 = (effectAll lists ops seq).1 := by
  induction ops generalizing s seq with
  | nil => exact ⟨rep, rfl⟩
  | cons op ops ih =>
    obtain ⟨first, rest⟩ := ok
    have step := first.step rep
    obtain ⟨rep', answers⟩ := ih step.represents rest
    exact ⟨rep', congrArg₂ List.cons step.answer answers⟩

omit [DecidableEq ι] in
/-- Lists that have been initialised, at places of their own, are empty. -/
theorem represents_init (next : ∀ i, (s (lists i).head).next = (lists i).tail)
    (prev : ∀ i, (s (lists i).tail).prev = (lists i).head)
    (ends : ∀ i, (lists i).head ≠ (lists i).tail)
    (apart : ∀ {i j x}, x ∈ nodes lists (fun _ => []) i → x ∈ nodes lists (fun _ => []) j → i = j) :
    Represents lists s fun _ => [] :=
  ⟨fun i => isList_nil (ends i) (next i) (prev i), apart⟩

omit [DecidableEq ι] in
/-- `list_init` makes a list empty and writes no other node. -/
theorem listInit_spec {l : Ends} (ends : l.head ≠ l.tail) :
    IsList (listInit l s) l.head l.tail [] ∧ ∀ x, x ≠ l.head → x ≠ l.tail →
      listInit l s x = s x := by
  refine ⟨isList_nil ends ?_ ?_, fun x hh ht => ?_⟩
  · rw [listInit, setNext_ne ends, setPrev_ne ends, setNext_self]
  · rw [listInit, setNext_self, setPrev_self]
  · rw [listInit, setNext_ne ht, setPrev_ne ht, setNext_ne hh, setPrev_ne hh]

/-- A list that is initialised again is empty, and the others are as they were. -/
theorem Represents.init (rep : Represents lists s seq) (i : ι) :
    Represents lists (listInit (lists i) s) (Function.update seq i []) := by
  have ends : (lists i).head ≠ (lists i).tail := fun e => by
    have nodup := (rep.isList i).nodup
    rw [e] at nodup
    exact (List.nodup_cons.mp nodup).1 (List.mem_append_right _ (List.mem_singleton_self _))
  obtain ⟨empty, others⟩ := listInit_spec (s := s) ends
  refine rep.edit empty (fun x hx => absurd hx List.not_mem_nil) ?_ (Function.update_self i [] seq)
    fun j hj => Function.update_of_ne hj [] seq
  intro j hj y hy
  have foreign : y ∉ nodes lists seq i := fun hyi => hj (rep.apart hy hyi)
  apply others y
  · rintro rfl
    exact foreign List.mem_cons_self
  · rintro rfl
    exact foreign (mem_nodes (List.mem_append_right _ (List.mem_singleton_self _)))

/-! ## Questions -/

/-- The first element on which `func` answers true, and its state then. -/
def firstHit {σ : Type} (func : Elem → Int → σ → Bool × σ) (arg : Int) :
    List Elem → σ → Option Elem × σ
  | [], st => (none, st)
  | elem :: l, st =>
    if (func elem arg st).1 then (some elem, (func elem arg st).2)
    else firstHit func arg l (func elem arg st).2

/-- There are fewer elements than addresses. -/
theorem length_lt {h t : Elem} (il : IsList s h t l) : l.length < 2 ^ 32 := by
  have distinct : (l.map BitVec.toNat).Nodup := by
    have nodup := (List.nodup_append.mp (List.nodup_cons.mp il.nodup).2).1
    exact nodup.map fun x y e => BitVec.eq_of_toNat_eq e
  have head : h.toNat ∉ l.map BitVec.toNat := by
    intro hh
    obtain ⟨x, hx, e⟩ := List.mem_map.mp hh
    rw [BitVec.eq_of_toNat_eq e] at hx
    exact (List.nodup_cons.mp il.nodup).1 (List.mem_append_left _ hx)
  have within : h.toNat :: l.map BitVec.toNat ⊆ List.range (2 ^ 32) := by
    intro n hn
    rw [List.mem_range]
    rcases List.mem_cons.mp hn with rfl | hn
    · exact h.isLt
    · obtain ⟨x, _, rfl⟩ := List.mem_map.mp hn
      exact x.isLt
  have le := (List.Nodup.subperm (List.nodup_cons.mpr ⟨head, distinct⟩) within).length_le
  rw [List.length_cons, List.length_map, List.length_range] at le
  exact le

omit [DecidableEq ι] in
theorem listEmpty_eq {e : Ends} (il : IsList s e.head e.tail l) :
    listEmpty e s = decide (l = []) := by
  have empty := il.empty_iff
  by_cases h : l = []
  · rw [listEmpty, if_pos (empty.mpr h), decide_eq_true h]
  · rw [listEmpty, if_neg fun he => h (empty.mp he), decide_eq_false h]

theorem elemFind_eq {e : Ends} {turns : Nat} (il : IsList s e.head e.tail l)
    (enough : l.length < turns) (obj : Elem) : elemFind turns e obj s = .ok (decide (obj ∈ l)) := by
  rw [elemFind, il.walk_eq enough]
  congr 1
  clear il enough
  induction l with
  | nil => rfl
  | cons x l ih =>
    rw [visits]
    by_cases hit : x = obj
    · rw [if_pos hit, decide_eq_true (hit ▸ List.mem_cons_self)]
    · rw [if_neg hit]
      simp only [List.mem_cons, Ne.symm hit, false_or]
      exact ih

theorem listTraversal_eq {e : Ends} {turns : Nat} {σ : Type} (il : IsList s e.head e.tail l)
    (enough : l.length < turns) (func : Elem → Int → σ → Bool × σ) (arg : Int) (st : σ) :
    listTraversal turns e func arg st s = .ok (firstHit func arg l st) := by
  rw [listTraversal, listEmpty_eq il]
  by_cases empty : l = []
  · rw [decide_eq_true empty, if_pos rfl, empty]
    rfl
  · rw [decide_eq_false empty, if_neg Bool.false_ne_true, il.walk_eq enough]
    congr 1
    clear il enough empty
    induction l generalizing st with
    | nil => rfl
    | cons x l ih =>
      rw [visits, firstHit]
      by_cases hit : (func x arg st).1 = true
      · rw [if_pos hit, if_pos hit]
      · rw [if_neg hit, if_neg hit]
        exact ih (func x arg st).2

theorem listLen_eq {e : Ends} {turns : Nat} (il : IsList s e.head e.tail l)
    (enough : l.length < turns) : listLen turns e s = .ok l.length := by
  have counts : ∀ (m : List Elem) (n : Nat), n + m.length < 2 ^ 32 →
      visits (fun _ (length : Nat) => (.again (u32 (length + 1)) : Turn Nat Nat))
        (fun length => length) m n = n + m.length := by
    intro m
    induction m with
    | nil => exact fun n _ => rfl
    | cons x m ih =>
      intro n small
      rw [List.length_cons] at small ⊢
      have next : u32 (n + 1 : Int) = n + 1 := u32_of_lt (n := n + 1) (by omega)
      rw [visits, next]
      simp only
      rw [ih (n + 1) (by omega)]
      omega
  rw [listLen, il.walk_eq enough, counts l 0 (by have := length_lt il; omega), Nat.zero_add]

/-! ## The whole -/

/-- Both chains of a list are its sequence, and undo one another. -/
structure Chains (s : Nodes Elem) (e : Ends) (l : List Elem) : Prop where
  forward : chain (fun x => (s x).next) e.tail (l.length + 1) (s e.head).next = some l
  backward : chain (fun x => (s x).prev) e.head (l.length + 1) (s e.tail).prev = some l.reverse
  forth_back : ∀ x ∈ e.head :: l, (s (s x).next).prev = x
  back_forth : ∀ x ∈ l ++ [e.tail], (s (s x).prev).next = x

/-- What the other functions answer about a list. -/
structure Answers (s : Nodes Elem) (e : Ends) (l : List Elem) : Prop where
  len : ∀ turns, l.length < turns → listLen turns e s = .ok l.length
  empty : listEmpty e s = decide (l = [])
  find : ∀ turns obj, l.length < turns → elemFind turns e obj s = .ok (decide (obj ∈ l))
  traversal : ∀ (turns : Nat) (σ : Type) (func : Elem → Int → σ → Bool × σ) (arg : Int) (st : σ),
    l.length < turns →
    listTraversal turns e func arg st s = .ok (firstHit func arg l st)

/-- THE LISTS ARE SEQUENCES. Whatever operations are run, each list is the sequence that they
define, read in both directions; a further operation leaves the lists alone that it is not about;
and every question is answered from the sequence. -/
theorem lists_refine_sequences {ι : Type} [DecidableEq ι] (lists : ι → Ends) (s₀ : Nodes Elem)
    (seq₀ : Seqs ι) (start : Represents lists s₀ seq₀) (ops : List (Op ι))
    (ok : AllAllowed lists ops seq₀) :
    (runAll lists ops s₀).1 = (effectAll lists ops seq₀).1 ∧
      (∀ i, Chains (runAll lists ops s₀).2 (lists i) ((effectAll lists ops seq₀).2 i)) ∧
      (∀ i, Answers (runAll lists ops s₀).2 (lists i) ((effectAll lists ops seq₀).2 i)) ∧
      ∀ op : Op ι, op.Allowed lists (effectAll lists ops seq₀).2 →
        ∀ j, op.edits lists (effectAll lists ops seq₀).2 j = false →
        ∀ y ∈ nodes lists (effectAll lists ops seq₀).2 j, (op.run lists (runAll lists ops s₀).2).2
          y = (runAll lists ops s₀).2 y := by
  obtain ⟨rep, answers⟩ := start.run ok
  refine ⟨answers, fun i => ?_, fun i => ?_, fun op allowed j other =>
    ((allowed.step rep).frame j other).2⟩
  · have il := rep.isList i
    exact ⟨il.forward, il.backward, il.forth_back, il.back_forth⟩
  · have il := rep.isList i
    refine ⟨fun turns enough => listLen_eq il enough, listEmpty_eq il, fun turns obj enough =>
      elemFind_eq il enough obj, ?_⟩
    intro turns σ func arg st enough
    exact listTraversal_eq il enough func arg st

/-- Two lists. -/
def twoLists (i : Bool) : Ends := if i then ⟨0x100, 0x108⟩ else ⟨0x200, 0x208⟩

/-- They have been initialised. -/
def twoInitialised : Nodes Elem :=
  listInit (twoLists true) (listInit (twoLists false) fun _ => ⟨null, null⟩)

theorem twoInitialised_represents : Represents twoLists twoInitialised fun _ => [] := by
  refine represents_init (by decide) (by decide) (by decide) ?_
  intro i j x hi hj
  simp only [nodes, List.nil_append, List.mem_cons, List.not_mem_nil, or_false] at hi hj
  cases i <;> cases j <;> rcases hi with rfl | rfl <;> first | rfl | exact absurd hj (by decide)

/-- An element goes into each list, another one before the first, and one comes out of either. -/
def fewOps : List (Op Bool) :=
  [.push true 0x300, .append false 0x310, .insertBefore 0x300 0x320, .pop true, .remove 0x310]

theorem fewOps_allowed : AllAllowed twoLists fewOps fun _ => [] :=
  ⟨fun i => by cases i <;> decide, fun i => by cases i <;> decide,
    ⟨fun i => by cases i <;> decide, true, by decide⟩, trivial,
    ⟨false, by decide⟩, trivial⟩

theorem lists_refine_sequences_two :
    (runAll twoLists fewOps twoInitialised).1 = (effectAll twoLists fewOps fun _ => []).1 ∧
      (∀ i, Chains (runAll twoLists fewOps twoInitialised).2 (twoLists i)
        ((effectAll twoLists fewOps fun _ => []).2 i)) ∧
      (∀ i, Answers (runAll twoLists fewOps twoInitialised).2 (twoLists i)
        ((effectAll twoLists fewOps fun _ => []).2 i)) ∧
      ∀ op : Op Bool, op.Allowed twoLists (effectAll twoLists fewOps fun _ => []).2 →
        ∀ j, op.edits twoLists (effectAll twoLists fewOps fun _ => []).2 j = false →
          ∀ y ∈ nodes twoLists (effectAll twoLists fewOps fun _ => []).2 j,
            (op.run twoLists (runAll twoLists fewOps twoInitialised).2).2 y =
              (runAll twoLists fewOps twoInitialised).2 y :=
  lists_refine_sequences twoLists twoInitialised (fun _ => []) twoInitialised_represents fewOps
    fewOps_allowed

end SeekingOs.KernelList
