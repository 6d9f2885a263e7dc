import Mathlib.Data.List.Nodup
import Mathlib.Logic.Function.Basic
import SeekingOs.Lib.Loop

/-!
# Doubly linked lists

A list lies between two ends that are no elements of it; every node has a link to the one before it
and one to the one after it. `IsList s h t l` says that the nodes between the ends `h` and `t` are
`l`, in that order. The edits are those of the usual routines: an element is put before a node,
taken out, or searched for from the head on. A `walk` goes from element to element with a state of
its own, and `chain` lists the nodes it meets.
-/

namespace SeekingOs.Lib

/-- The links of a node. -/
structure Node (α : Type) where
  prev : α
  next : α
  deriving DecidableEq, Repr

/-- All nodes, by their addresses. -/
abbrev Nodes (α : Type) := α → Node α

namespace Nodes

variable {α : Type}

section Edits

variable [DecidableEq α]

def setNext (s : Nodes α) (x y : α) : Nodes α := Function.update s x { s x with next := y }

def setPrev (s : Nodes α) (x y : α) : Nodes α := Function.update s x { s x with prev := y }

/-- `elem` is put before `before`. -/
def insertBefore (s : Nodes α) (before elem : α) : Nodes α :=
  let s := s.setNext (s before).prev elem
  let s := s.setPrev elem (s before).prev
  let s := s.setNext elem before
  s.setPrev before elem

/-- `elem` is taken out. -/
def remove (s : Nodes α) (elem : α) : Nodes α :=
  let s := s.setNext (s elem).prev (s elem).next
  s.setPrev (s elem).next (s elem).prev

/-- The search for `x` from `mov` on, for so many turns; `none` when they do not suffice. -/
def find (s : Nodes α) (tail x : α) : (turns : Nat) → (mov : α) → Option Bool
  | 0, _ => none
  | turns + 1, mov =>
    if mov = tail then some false else if mov = x then some true
    else find s tail x turns (s mov).next

end Edits

/-! ## Runs of nodes -/

/-- Each node of the list is linked with the next one, both ways. -/
def Linked (s : Nodes α) : List α → Prop
  | x :: y :: l => (s x).next = y ∧ (s y).prev = x ∧ Linked s (y :: l)
  | _ => True

variable {s s' : Nodes α} {h t x y z : α} {l l' r : List α}

theorem linked_append : Linked s (l ++ x :: r) ↔ Linked s (l ++ [x]) ∧ Linked s (x :: r) := by
  induction l with
  | nil => exact (and_iff_right trivial).symm
  | cons y l ih =>
    cases l with
    | nil =>
      show _ ∧ _ ∧ Linked s (x :: r) ↔ (_ ∧ _ ∧ True) ∧ _
      rw [and_true, and_assoc]
    | cons z l =>
      show _ ∧ _ ∧ Linked s ((z :: l) ++ x :: r) ↔ (_ ∧ _ ∧ Linked s ((z :: l) ++ [x])) ∧ _
      rw [ih, and_assoc, and_assoc]

/-- The links that count are the forward ones of all nodes but the last, and the backward ones of
all but the first. -/
theorem Linked.congr (lk : Linked s (x :: l))
    (next : ∀ y ∈ (x :: l).dropLast, (s' y).next = (s y).next)
    (prev : ∀ y ∈ l, (s' y).prev = (s y).prev) : Linked s' (x :: l) := by
  induction l generalizing x with
  | nil => trivial
  | cons y l ih =>
    obtain ⟨forth, back, rest⟩ := lk
    refine ⟨(next x List.mem_cons_self).trans forth, (prev y List.mem_cons_self).trans back,
      ih rest ?_ ?_⟩
    · intro z hz
      exact next z (List.mem_cons_of_mem x hz)
    · intro z hz
      exact prev z (List.mem_cons_of_mem y hz)

/-- THE LIST between the ends `h` and `t`. -/
structure IsList (s : Nodes α) (h t : α) (l : List α) : Prop where
  linked : Linked s (h :: (l ++ [t]))
  nodup : (h :: (l ++ [t])).Nodup

/-- A list whose nodes are left alone is the same list. -/
theorem IsList.congr (il : IsList s h t l) (same : ∀ y ∈ h :: (l ++ [t]), s' y = s y) :
    IsList s' h t l where
  linked := by
    apply il.linked.congr
    · intro y hy
      rw [same y (List.dropLast_subset _ hy)]
    · intro y hy
      rw [same y (List.mem_cons_of_mem h hy)]
  nodup := il.nodup

theorem isList_nil (ne : h ≠ t) (next : (s h).next = t) (prev : (s t).prev = h) :
    IsList s h t [] where
  linked := ⟨next, prev, trivial⟩
  nodup := by
    rw [List.nil_append, List.nodup_cons, List.mem_singleton]
    exact ⟨ne, List.nodup_singleton t⟩

/-- The list is empty when the head leads to the tail. -/
theorem IsList.empty_iff (il : IsList s h t l) : (s h).next = t ↔ l = [] := by
  have lk := il.linked
  have nodup := il.nodup
  cases l with
  | nil => exact iff_of_true lk.1 rfl
  | cons x l =>
    refine iff_of_false ?_ (List.cons_ne_nil x l)
    have first : (s h).next = x := lk.1
    rw [first]
    rintro rfl
    simp at nodup

variable [DecidableEq α]

/-- The search comes to its end, with the right answer. -/
theorem Linked.find_eq (lk : Linked s (y :: (l ++ [t]))) (ht : t ∉ l) {turns : Nat}
    (enough : l.length < turns) : s.find t x turns (s y).next = some (decide (x ∈ l)) := by
  induction l generalizing y turns with
  | nil =>
    obtain ⟨turns, rfl⟩ := Nat.exists_eq_succ_of_ne_zero (Nat.ne_of_gt enough)
    have first : (s y).next = t := lk.1
    unfold find
    rw [first, if_pos rfl, decide_eq_false List.not_mem_nil]
  | cons z l ih =>
    obtain ⟨turns, rfl⟩ := Nat.exists_eq_succ_of_ne_zero (Nat.ne_of_gt (Nat.zero_lt_of_lt enough))
    obtain ⟨first, -, rest⟩ := lk
    rw [List.mem_cons, not_or] at ht
    have first : (s y).next = z := first
    unfold find
    rw [first, if_neg (Ne.symm ht.1)]
    by_cases hx : z = x
    · rw [if_pos hx, decide_eq_true (hx ▸ List.mem_cons_self)]
    · rw [if_neg hx, ih rest ht.2 (Nat.lt_of_succ_lt_succ enough)]
      simp only [List.mem_cons, Ne.symm hx, false_or]

omit [DecidableEq α] in
theorem IsList.tail_notMem (il : IsList s h t l) : t ∉ l := by
  intro ht
  have nodup := (List.nodup_cons.mp il.nodup).2
  rw [List.nodup_append] at nodup
  exact nodup.2.2 t ht t (List.mem_singleton_self t) rfl

theorem IsList.find_eq (il : IsList s h t l) {turns : Nat} (enough : l.length < turns) :
    s.find t x turns (s h).next = some (decide (x ∈ l)) :=
  il.linked.find_eq il.tail_notMem enough

/-! ## The edits -/

@[simp] theorem setNext_self : (s.setNext x y) x = { s x with next := y } :=
  Function.update_self _ _ _

@[simp] theorem setPrev_self : (s.setPrev x y) x = { s x with prev := y } :=
  Function.update_self _ _ _

theorem setNext_ne (hne : z ≠ x) : (s.setNext x y) z = s z := Function.update_of_ne hne _ _

theorem setPrev_ne (hne : z ≠ x) : (s.setPrev x y) z = s z := Function.update_of_ne hne _ _

/-- What `insertBefore` does, for an element that is neither of its neighbours. -/
theorem insertBefore_values (hy : (s t).prev = y) (hxt : x ≠ t) (hxy : x ≠ y) (hyt : y ≠ t) :
    (s.insertBefore t x) y = { s y with next := x } ∧ (s.insertBefore t x) x = ⟨y, t⟩ ∧
    (s.insertBefore t x) t = { s t with prev := x } ∧
      ∀ z, z ≠ y → z ≠ x → z ≠ t → (s.insertBefore t x) z = s z := by
  have back : ((s.setNext y x) t).prev = y := by rw [setNext_ne (Ne.symm hyt), hy]
  have unfolded : s.insertBefore t x = (((s.setNext y x).setPrev x y).setNext x t).setPrev t x := by
    unfold insertBefore
    dsimp only
    rw [hy, back]
  rw [unfolded]
  refine ⟨?_, ?_, ?_, fun z hzy hzx hzt => ?_⟩
  · rw [setPrev_ne hyt, setNext_ne (Ne.symm hxy), setPrev_ne (Ne.symm hxy), setNext_self]
  · rw [setPrev_ne hxt, setNext_self, setPrev_self]
  · rw [setPrev_self, setNext_ne (Ne.symm hxt), setPrev_ne (Ne.symm hxt), setNext_ne (Ne.symm hyt)]
  · rw [setPrev_ne hzt, setNext_ne hzx, setPrev_ne hzx, setNext_ne hzy]

/-- What `remove` does, for an element between two different nodes. -/
theorem remove_values (hy : (s x).prev = y) (hz : (s x).next = z) (hxy : x ≠ y) (hyz : y ≠ z) :
    (s.remove x) y = { s y with next := z } ∧ (s.remove x) z = { s z with prev := y } ∧ ∀ w, w ≠ y →
      w ≠ z → (s.remove x) w = s w := by
  have same : (s.setNext y z) x = s x := setNext_ne hxy
  have unfolded : s.remove x = (s.setNext y z).setPrev z y := by
    unfold remove
    dsimp only
    rw [hy, hz, same, hy, hz]
  rw [unfolded]
  refine ⟨?_, ?_, fun w hwy hwz => ?_⟩
  · rw [setPrev_ne hyz, setNext_self]
  · rw [setPrev_self, setNext_ne (Ne.symm hyz)]
  · rw [setPrev_ne hwz, setNext_ne hwy]

omit [DecidableEq α] in
/-- The last node of a run. -/
theorem exists_last (h : α) (l : List α) : ∃ pre y, h :: l = pre ++ [y] :=
  ⟨_, _, (List.dropLast_append_getLast (List.cons_ne_nil h l)).symm⟩

/-- AN ELEMENT IS PUT BEFORE A NODE, the tail or an element; nodes outside the list are left alone.
-/
theorem IsList.insert {b : α} {post : List α} (il : IsList s h t (l ++ l'))
    (here : l' ++ [t] = b :: post) (new : x ∉ h :: (l ++ l' ++ [t])) :
    IsList (s.insertBefore b x) h t (l ++ x :: l') ∧
      ∀ z, z ∉ h :: (l ++ l' ++ [t]) → z ≠ x → (s.insertBefore b x) z = s z := by
  obtain ⟨pre, y, hpre⟩ := exists_last h l
  have shape : h :: (l ++ l' ++ [t]) = pre ++ y :: b :: post := by
    rw [List.append_assoc, here, ← List.cons_append, hpre, List.append_assoc]
    rfl
  have nodup := il.nodup
  have lk := il.linked
  rw [shape] at nodup new lk ⊢
  obtain ⟨before, -, back, after⟩ := linked_append.mp lk
  have hy : y ∈ pre ++ y :: b :: post := List.mem_append_right pre List.mem_cons_self
  have hb : b ∈ pre ++ y :: b :: post :=
    List.mem_append_right pre (List.mem_cons_of_mem y List.mem_cons_self)
  have hxy : x ≠ y := fun e => new (e ▸ hy)
  have hxb : x ≠ b := fun e => new (e ▸ hb)
  obtain ⟨-, mid, apart⟩ := List.nodup_append.mp nodup
  simp only [List.nodup_cons, List.mem_cons, not_or] at mid
  obtain ⟨⟨hyb, hypost⟩, hbpost, -⟩ := mid
  obtain ⟨aty, atx, atb, others⟩ := insertBefore_values back hxb hxy hyb
  have inPre {z : α} (hz : z ∈ pre) : z ≠ y ∧ z ≠ x ∧ z ≠ b := by
    refine ⟨fun e => apart z hz y List.mem_cons_self e,
      fun e => new (e ▸ List.mem_append_left _ hz), ?_⟩
    exact fun e => apart z hz b (List.mem_cons_of_mem y List.mem_cons_self) e
  have inPost {z : α} (hz : z ∈ post) : z ≠ y ∧ z ≠ x ∧ z ≠ b := by
    refine ⟨fun e => hypost (e ▸ hz), fun e => new (e ▸ ?_), fun e => hbpost (e ▸ hz)⟩
    exact List.mem_append_right pre (List.mem_cons_of_mem y (List.mem_cons_of_mem b hz))
  have run : h :: (l ++ x :: l' ++ [t]) = pre ++ y :: x :: b :: post := by
    rw [List.append_assoc, List.cons_append, here, ← List.cons_append, hpre, List.append_assoc]
    rfl
  refine ⟨⟨?_, ?_⟩, fun z hz hzx => ?_⟩
  · rw [run, linked_append]
    refine ⟨?_, by rw [aty], by rw [atx], by rw [atx], by rw [atb], ?_⟩
    · rw [← hpre] at before ⊢
      apply before.congr
      · intro z hz
        rw [hpre, List.dropLast_concat] at hz
        obtain ⟨hzy, hzx, hzb⟩ := inPre hz
        rw [others z hzy hzx hzb]
      · intro z hz
        have hmem : z ∈ pre ++ [y] := hpre ▸ List.mem_cons_of_mem h hz
        rcases List.mem_append.mp hmem with hz | hz
        · obtain ⟨hzy, hzx, hzb⟩ := inPre hz
          rw [others z hzy hzx hzb]
        · rw [List.mem_singleton.mp hz, aty]
    · apply after.congr
      · intro z hz
        rcases List.mem_cons.mp (List.dropLast_subset _ hz) with rfl | hz
        · rw [atb]
        · obtain ⟨hzy, hzx, hzb⟩ := inPost hz
          rw [others z hzy hzx hzb]
      · intro z hz
        obtain ⟨hzy, hzx, hzb⟩ := inPost hz
        rw [others z hzy hzx hzb]
  · have apartX : x ∉ pre ++ [y] ++ b :: post := by
      rw [List.append_assoc]
      exact new
    rw [run, show pre ++ y :: x :: b :: post =
      (pre ++ [y]) ++ x :: b :: post by rw [List.append_assoc]; rfl, List.nodup_middle,
      List.nodup_cons]
    refine ⟨apartX, ?_⟩
    rw [List.append_assoc]
    exact nodup
  · rw [List.mem_append, List.mem_cons, List.mem_cons, not_or, not_or, not_or] at hz
    exact others z hz.2.1 hzx hz.2.2.1

/-- AN ELEMENT IS APPENDED; other nodes are left alone. -/
theorem IsList.append (il : IsList s h t l) (new : x ∉ h :: (l ++ [t])) :
    IsList (s.insertBefore t x) h t (l ++ [x]) ∧ ∀ z, z ∉ h :: (l ++ [t]) → z ≠ x →
      (s.insertBefore t x) z = s z := by
  rw [← List.append_nil l] at il new
  have last : [] ++ [t] = t :: [] := rfl
  obtain ⟨grown, others⟩ := il.insert last new
  rw [List.append_nil] at others
  exact ⟨grown, others⟩

/-- AN ELEMENT IS TAKEN OUT; nodes outside the list are left alone. -/
theorem IsList.remove (il : IsList s h t (l ++ x :: l')) :
    IsList (s.remove x) h t (l ++ l') ∧ ∀ z, z ∉ h :: (l ++ x :: l' ++ [t]) →
      (s.remove x) z = s z := by
  obtain ⟨pre, y, hpre⟩ := exists_last h l
  obtain ⟨z, post, hpost⟩ : ∃ z post, l' ++ [t] = z :: post := by
    cases l' with
    | nil => exact ⟨t, [], rfl⟩
    | cons z l' => exact ⟨z, l' ++ [t], rfl⟩
  have shape : h :: (l ++ x :: l' ++ [t]) = pre ++ y :: x :: z :: post := by
    rw [List.append_assoc, ← List.cons_append, hpre, List.append_assoc]
    show pre ++ y :: x :: (l' ++ [t]) = _
    rw [hpost]
  have nodup := il.nodup
  have lk := il.linked
  rw [shape] at nodup lk ⊢
  obtain ⟨before, forth, back, forth', back', after⟩ := linked_append.mp lk
  obtain ⟨preNodup, mid, apart⟩ := List.nodup_append.mp nodup
  simp only [List.nodup_cons, List.mem_cons, not_or] at mid
  obtain ⟨⟨hyx, hyz, hypost⟩, ⟨hxz, hxpost⟩, hzpost, postNodup⟩ := mid
  obtain ⟨aty, atz, others⟩ := remove_values back forth' (Ne.symm hyx) hyz
  have inPre {w : α} (hw : w ∈ pre) : w ≠ y ∧ w ≠ z :=
    ⟨fun e => apart w hw y List.mem_cons_self e, fun e => apart w hw z (by simp) e⟩
  have run : h :: (l ++ l' ++ [t]) = pre ++ y :: z :: post := by
    rw [List.append_assoc, ← List.cons_append, hpre, List.append_assoc, hpost]
    rfl
  refine ⟨⟨?_, ?_⟩, fun w hw => ?_⟩
  · rw [run, linked_append]
    refine ⟨?_, by rw [aty], by rw [atz], ?_⟩
    · rw [← hpre] at before ⊢
      apply before.congr
      · intro w hw
        rw [hpre, List.dropLast_concat] at hw
        rw [others w (inPre hw).1 (inPre hw).2]
      · intro w hw
        have hmem : w ∈ pre ++ [y] := hpre ▸ List.mem_cons_of_mem h hw
        rcases List.mem_append.mp hmem with hw | hw
        · rw [others w (inPre hw).1 (inPre hw).2]
        · rw [List.mem_singleton.mp hw, aty]
    · apply after.congr
      · intro w hw
        by_cases hwz : w = z
        · rw [hwz, atz]
        · have hmem : w ∈ post := (List.mem_cons.mp (List.dropLast_subset _ hw)).resolve_left hwz
          rw [others w (fun e => hypost (e ▸ hmem)) hwz]
      · intro w hw
        rw [others w (fun e => hypost (e ▸ hw)) fun e => hzpost (e ▸ hw)]
  · rw [run, List.nodup_append]
    refine ⟨preNodup, ?_, ?_⟩
    · simp only [List.nodup_cons, List.mem_cons, not_or]
      exact ⟨⟨hyz, hypost⟩, hzpost, postNodup⟩
    · intro w hw w' hw' e
      apply apart w hw w' ?_ e
      simp only [List.mem_cons] at hw' ⊢
      tauto
  · simp only [List.mem_append, List.mem_cons, not_or] at hw
    exact others w hw.2.1 hw.2.2.2.1

/-! ## Walks -/

variable {φ σ β : Type}

/-- A turn of a walk: at the tail it is done; before that the visitor leaves or goes on with a
state. -/
def walkTurn (s : Nodes α) (tail : α) (visit : α → σ → Turn σ β) (done : σ → β) (p : α × σ) :
    Except φ (Turn (α × σ) β) :=
  if p.1 = tail then .ok (.leave (done p.2))
  else
    match visit p.1 p.2 with
    | .leave b => .ok (.leave b)
    | .again st => .ok (.again ((s p.1).next, st))

/-- What a visitor answers over a sequence. -/
def visits (visit : α → σ → Turn σ β) (done : σ → β) : List α → σ → β
  | [], st => done st
  | x :: l, st =>
    match visit x st with
    | .leave b => b
    | .again st => visits visit done l st

/-- A walk along a run comes to its end, with the answer for the sequence. -/
theorem Linked.walk_eq {visit : α → σ → Turn σ β} {done : σ → β} {st : σ}
    (lk : Linked s (y :: (l ++ [t]))) (ht : t ∉ l) {turns : Nat} (enough : l.length < turns) :
    (whileLoop (walkTurn s t visit done) turns ((s y).next, st) : Except (Cut φ) β) =
      .ok (visits visit done l st) := by
  induction l generalizing y turns st with
  | nil =>
    obtain ⟨turns, rfl⟩ := Nat.exists_eq_succ_of_ne_zero (Nat.ne_of_gt enough)
    have first : (s y).next = t := lk.1
    apply whileLoop_leave
    rw [walkTurn, if_pos first]
    rfl
  | cons x l ih =>
    obtain ⟨turns, rfl⟩ := Nat.exists_eq_succ_of_ne_zero (Nat.ne_of_gt (Nat.zero_lt_of_lt enough))
    obtain ⟨first, -, rest⟩ := lk
    rw [List.mem_cons, not_or] at ht
    have first : (s y).next = x := first
    have goes : (walkTurn s t visit done ((s y).next, st) : Except φ (Turn (α × σ) β)) =
        match visit x st with
        | .leave b => .ok (.leave b)
        | .again st => .ok (.again ((s x).next, st)) := by
      rw [walkTurn, first, if_neg (Ne.symm ht.1)]
    unfold visits
    cases turn : visit x st with
    | leave b =>
      rw [turn] at goes
      exact whileLoop_leave goes
    | again st' =>
      rw [turn] at goes
      rw [whileLoop_again goes]
      exact ih rest ht.2 (Nat.lt_of_succ_lt_succ enough)

theorem IsList.walk_eq {visit : α → σ → Turn σ β} {done : σ → β} {st : σ} (il : IsList s h t l)
    {turns : Nat} (enough : l.length < turns) :
    (whileLoop (walkTurn s t visit done) turns ((s h).next, st) : Except (Cut φ) β) =
      .ok (visits visit done l st) :=
  il.linked.walk_eq il.tail_notMem enough

/-! ## Both directions -/

/-- The nodes met from `x` on until `stop`, for so many turns. -/
def chain (step : α → α) (stop : α) : (turns : Nat) → (x : α) → Option (List α)
  | 0, _ => none
  | turns + 1, x => if x = stop then some [] else (chain step stop turns (step x)).map (x :: ·)

theorem Linked.chain_eq (lk : Linked s (y :: (l ++ [t]))) (ht : t ∉ l) :
    chain (fun x => (s x).next) t (l.length + 1) (s y).next = some l := by
  induction l generalizing y with
  | nil =>
    have first : (s y).next = t := lk.1
    rw [chain, if_pos first]
  | cons x l ih =>
    obtain ⟨first, -, rest⟩ := lk
    rw [List.mem_cons, not_or] at ht
    have first : (s y).next = x := first
    rw [chain, first, if_neg (Ne.symm ht.1), List.length_cons, ih rest ht.2]
    rfl

omit [DecidableEq α] in
/-- The step forward from a node is undone by the step back. -/
theorem Linked.forth_back (lk : Linked s l) : ∀ x ∈ l.dropLast, (s (s x).next).prev = x := by
  induction l with
  | nil => exact fun x hx => absurd hx List.not_mem_nil
  | cons y l ih =>
    cases l with
    | nil => exact fun x hx => absurd hx List.not_mem_nil
    | cons z l =>
      obtain ⟨forth, back, rest⟩ := lk
      intro x hx
      rcases List.mem_cons.mp hx with rfl | hx
      · rw [forth, back]
      · exact ih rest x hx

/-- Every link turned round. -/
def flip (s : Nodes α) : Nodes α := fun x => ⟨(s x).next, (s x).prev⟩

omit [DecidableEq α] in
theorem Linked.flip (lk : Linked s l) : Linked s.flip l.reverse := by
  induction l with
  | nil => trivial
  | cons x l ih =>
    cases l with
    | nil => trivial
    | cons y l =>
      obtain ⟨forth, back, rest⟩ := lk
      have turned := ih rest
      rw [List.reverse_cons] at turned
      rw [List.reverse_cons, List.reverse_cons, List.append_assoc]
      exact linked_append.mpr ⟨turned, back, forth, trivial⟩

omit [DecidableEq α] in
/-- A list read backwards is a list of the flipped nodes. -/
theorem IsList.flip (il : IsList s h t l) : IsList s.flip t h l.reverse := by
  have shape : t :: (l.reverse ++ [h]) = (h :: (l ++ [t])).reverse := by simp
  refine ⟨?_, ?_⟩
  · rw [shape]
    exact il.linked.flip
  · rw [shape]
    exact List.nodup_reverse.mpr il.nodup

theorem IsList.forward (il : IsList s h t l) :
    chain (fun x => (s x).next) t (l.length + 1) (s h).next = some l :=
  il.linked.chain_eq il.tail_notMem

theorem IsList.backward (il : IsList s h t l) :
    chain (fun x => (s x).prev) h (l.length + 1) (s t).prev = some l.reverse := by
  have turned := il.flip.forward
  rw [List.length_reverse] at turned
  exact turned

omit [DecidableEq α] in
theorem IsList.forth_back (il : IsList s h t l) : ∀ x ∈ h :: l, (s (s x).next).prev = x := by
  have all := il.linked.forth_back
  rw [← List.cons_append, List.dropLast_concat] at all
  exact all

omit [DecidableEq α] in
theorem IsList.back_forth (il : IsList s h t l) : ∀ x ∈ l ++ [t], (s (s x).prev).next = x := by
  intro x hx
  apply il.flip.forth_back x
  rcases List.mem_append.mp hx with hx | hx
  · exact List.mem_cons_of_mem t (List.mem_reverse.mpr hx)
  · exact List.mem_singleton.mp hx ▸ List.mem_cons_self

end Nodes

end SeekingOs.Lib
