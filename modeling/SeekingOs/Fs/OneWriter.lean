import Mathlib.Data.Finset.Card
import SeekingOs.Fs.NoDangling

/-!
# One writer

`writen_deny` is meant to let one writer at a time open a file. It is set by `file_open` alone,
cleared by every `file_close` whatever the slot was opened for, and not set by `file_create`; and
when `file_open` refuses a writer, the slot it has filled stays filled.

So nothing keeps a second writer out. `one_writer_iff`: a run has at most one slot for each
inode that is open for writing exactly when no `sys_open` for writing reaches a free slot
while the inode has such a slot.
-/

namespace SeekingOs.Fs

open Lib

/-- A system call. `sys_open` is given what path lookup and the disk answer. -/
inductive OpenEvent where
  | sysOpen (p : Nat) (lookup : Lookup) (answer : DiskAnswer)
  | sysClose (p : Nat) (fd : Int)
  deriving DecidableEq, Repr

/-- What memory can answer: `sys_malloc` the page of no inode in `open_inodes`, `inode_open` one
that is there or a new one. Flags are at most 7. -/
def Answers (tbl : Table) (lookup : Lookup) (answer : DiskAnswer) : Prop :=
  match lookup, answer with
  | .refused, _ => True
  | .create inode flag, .synced _ => flag ≤ 7 ∧ tbl.iOpenCnts inode = 0
  | .exists flag, .inode inode cached => flag ≤ 7 ∧ (cached = true ↔ 0 < tbl.iOpenCnts inode)
  | _, _ => False

instance (tbl : Table) (lookup : Lookup) (answer : DiskAnswer) :
    Decidable (Answers tbl lookup answer) := by
  unfold Answers
  split <;> exact inferInstance

def openEnabled (s : Files) : OpenEvent → Prop
  | .sysOpen p lookup answer => fdEnabled s (.sysOpen p lookup) = true ∧ Answers s.tbl lookup answer
  | .sysClose p fd => fdEnabled s (.sysClose p fd) = true

instance (s : Files) (e : OpenEvent) : Decidable (openEnabled s e) := by
  cases e <;> unfold openEnabled <;> exact inferInstance

/-- One system call, from its beginning to its end. -/
def openStep (s : Files) : OpenEvent → Except Fault (Files × Unit)
  | .sysOpen p lookup answer => do
    let (s, _) ← fdStep s (.sysOpen p lookup)
    fdStep s (.openEnd p answer)
  | .sysClose p fd => fdStep s (.sysClose p fd)

/-- Files are opened and closed by processes that do not fork. -/
def openMachine : Machine Files OpenEvent Unit Fault := ⟨openEnabled, openStep⟩

instance (s : Files) (e : OpenEvent) : Decidable (openMachine.enabled s e) :=
  inferInstanceAs (Decidable (openEnabled s e))

/-- `O_WRONLY` or `O_RDWR` -/
def Writing (flag : Nat) : Prop := flag &&& oWronly ≠ 0 ∨ flag &&& oRdwr ≠ 0

instance (flag : Nat) : Decidable (Writing flag) := inferInstanceAs (Decidable (_ ∨ _))

/-- Slot `g` is open for writing, and holds the inode. -/
def Writes (tbl : Table) (g inode : Nat) : Prop :=
  (tbl.file g).fdInode = some inode ∧ Writing (tbl.file g).fdFlag

/-- No inode is held by two slots that are open for writing. -/
def OneWriter (s : Files) : Prop := ∀ inode g g', Writes s.tbl g inode →
  Writes s.tbl g' inode → g = g'

/-- No file is opened for writing that a slot is open for writing already. -/
def FirstWriter (s : Files) : OpenEvent → Prop
  | .sysOpen _ (.exists flag) (.inode inode _) =>
    getFreeSlot s.tbl = none ∨ ¬ Writing flag ∨ ∀ g, ¬ Writes s.tbl g inode
  | _ => True

/-! ## The table -/

/-- The slots that hold an inode. -/
def holders (tbl : Table) (inode : Nat) : Finset Nat :=
  (Finset.range 32).filter fun g => (tbl.file g).fdInode = some inode

/-- THE INVARIANT. The open count of an inode is the number of its slots; there are no pipes, and no
process is in the middle of `sys_open`. -/
structure Counted (s : Files) : Prop where
  cnts : ∀ inode, s.tbl.iOpenCnts inode = (holders s.tbl inode).card
  slots : ∀ g inode, (s.tbl.file g).fdInode = some inode → g < 32
  flags : ∀ g, (s.tbl.file g).fdFlag ≤ 7
  idle : ∀ p pr, s.procs p = some pr → pr.opening = none

variable {tbl tbl' : Table} {s s' : Files} {p g g' inode flag : Nat} {pr pr' : Proc} {file : File}

theorem mem_holders : g ∈ holders tbl inode ↔ g < 32 ∧ (tbl.file g).fdInode = some inode := by
  unfold holders
  rw [Finset.mem_filter, Finset.mem_range]

theorem Counted.mem (c : Counted s) :
    g ∈ holders s.tbl inode ↔ (s.tbl.file g).fdInode = some inode := by
  rw [mem_holders]
  exact ⟨And.right, fun h => ⟨c.slots g inode h, h⟩⟩

/-- An inode that a slot holds is in `open_inodes`. -/
theorem Counted.linked (c : Counted s) (h : (s.tbl.file g).fdInode = some inode) :
    0 < s.tbl.iOpenCnts inode := by
  rw [c.cnts]
  exact Finset.card_pos.mpr ⟨g, c.mem.mpr h⟩

theorem Counted.cnts_le (c : Counted s) (inode : Nat) : s.tbl.iOpenCnts inode ≤ 32 := by
  rw [c.cnts]
  exact (Finset.card_filter_le _ _).trans (Nat.le_of_eq (Finset.card_range 32))

/-- What becomes of a slot that is filled, or emptied. -/
theorem holders_setFile (h : tbl'.file = Function.update tbl.file g file) (hg : g < 32) (i : Nat) :
    holders tbl' i = if file.fdInode = some i then insert g (holders tbl i)
      else (holders tbl i).erase g := by
  ext j
  rw [mem_holders, h, Function.update_apply]
  by_cases hj : j = g
  · subst hj
    rw [if_pos rfl]
    split
    next e => exact ⟨fun _ => Finset.mem_insert_self _ _, fun _ => ⟨hg, e⟩⟩
    next e => exact ⟨fun hm => absurd hm.2 e, fun hm => absurd rfl (Finset.mem_erase.mp hm).1⟩
  · rw [if_neg hj, ← mem_holders]
    split
    · rw [Finset.mem_insert]
      exact ⟨.inr, fun hm => hm.resolve_left hj⟩
    · rw [Finset.mem_erase]
      exact ⟨fun hm => ⟨hj, hm⟩, And.right⟩

/-- A free slot is filled with an inode, whose count goes up. -/
structure Fills (tbl : Table) (g flag inode : Nat) (tbl' : Table) : Prop where
  free : getFreeSlot tbl = some g
  file :
    tbl'.file = Function.update tbl.file g { fdPos := 0, fdFlag := flag, fdInode := some inode }
  cnts : tbl'.iOpenCnts = Function.update tbl.iOpenCnts inode (tbl.iOpenCnts inode + 1)

/-- A slot is emptied; the count of the inode it held goes down. -/
structure Clears (tbl : Table) (g : Nat) (tbl' : Table) : Prop where
  lt : g < 32
  flag : (tbl'.file g).fdFlag ≤ 7
  file : ∃ file, file.fdInode = none ∧ tbl'.file = Function.update tbl.file g file
  cnts : ∀ i, tbl'.iOpenCnts i = if (tbl.file g).fdInode = some i then tbl.iOpenCnts i - 1
    else tbl.iOpenCnts i

theorem Counted.fill (c : Counted s) (f : Fills s.tbl g flag inode s'.tbl) (hflag : flag ≤ 7)
    (idle : ∀ p pr, s'.procs p = some pr → pr.opening = none) : Counted s' := by
  obtain ⟨-, hg, hfree⟩ := getFreeSlot_some f.free
  refine ⟨fun i => ?_, fun j i hj => ?_, fun j => ?_, idle⟩
  · rw [f.cnts, holders_setFile f.file hg, Function.update_apply]
    by_cases hi : i = inode
    · subst hi
      have hnot : g ∉ holders s.tbl i := fun hm => by
        rw [mem_holders, hfree] at hm
        cases hm.2
      rw [if_pos rfl, if_pos rfl, Finset.card_insert_of_notMem hnot, c.cnts]
    · have hne : (some inode : Option Nat) ≠ some i := fun e => hi (Option.some.inj e).symm
      have hnot : g ∉ holders s.tbl i := fun hm => by
        rw [mem_holders, hfree] at hm
        cases hm.2
      rw [if_neg hi, if_neg hne, Finset.erase_eq_of_notMem hnot, c.cnts]
  · rw [f.file, Function.update_apply] at hj
    split at hj
    next e => rw [e]; exact hg
    next => exact c.slots j i hj
  · rw [f.file, Function.update_apply]
    split
    · exact hflag
    · exact c.flags j

theorem Counted.clear (c : Counted s) (f : Clears s.tbl g s'.tbl)
    (idle : ∀ p pr, s'.procs p = some pr → pr.opening = none) : Counted s' := by
  obtain ⟨file, hnone, hfile⟩ := f.file
  refine ⟨fun i => ?_, fun j i hj => ?_, fun j => ?_, idle⟩
  · have hne : file.fdInode ≠ some i := by rw [hnone]; exact nofun
    rw [f.cnts, holders_setFile hfile f.lt, if_neg hne]
    split
    next e => rw [Finset.card_erase_of_mem (c.mem.mpr e), c.cnts]
    next e => rw [Finset.erase_eq_of_notMem (fun hm => e (c.mem.mp hm)), c.cnts]
  · rw [hfile, Function.update_apply] at hj
    split at hj
    next => rw [hnone] at hj; cases hj
    next => exact c.slots j i hj
  · by_cases hj : j = g
    · rw [hj]
      exact f.flag
    · rw [hfile, Function.update_of_ne hj]
      exact c.flags j

/-- Filling a slot keeps one writer exactly when the slot is no second one. -/
theorem oneWriter_fill (one : OneWriter s) (f : Fills s.tbl g flag inode s'.tbl) :
    OneWriter s' ↔ ¬ Writing flag ∨ ∀ g', ¬ Writes s.tbl g' inode := by
  have hfree := (getFreeSlot_some f.free).2.2
  have other {j i : Nat} (hj : j ≠ g) : Writes s'.tbl j i ↔ Writes s.tbl j i := by
    unfold Writes
    rw [f.file, Function.update_of_ne hj]
  have self {i : Nat} : Writes s'.tbl g i ↔ i = inode ∧ Writing flag := by
    unfold Writes
    rw [f.file, Function.update_self]
    exact and_congr_left fun _ => ⟨fun e => (Option.some.inj e).symm, fun e => by rw [e]⟩
  have empty {i : Nat} : ¬ Writes s.tbl g i := fun h => by
    have := h.1
    rw [hfree] at this
    cases this
  constructor
  · intro one'
    by_contra hno
    rw [not_or, not_not, not_forall] at hno
    obtain ⟨hw, j, hj⟩ := hno
    have hj := not_not.mp hj
    have hne : j ≠ g := fun e => empty (e ▸ hj)
    exact hne (one' inode j g ((other hne).mpr hj) (self.mpr ⟨rfl, hw⟩))
  · intro h i j j' hj hj'
    by_cases e : j = g <;> by_cases e' : j' = g
    · rw [e, e']
    · rw [e, self] at hj
      rw [other e', hj.1] at hj'
      rcases h with h | h
      · exact absurd hj.2 h
      · exact absurd hj' (h j')
    · rw [e', self] at hj'
      rw [other e, hj'.1] at hj
      rcases h with h | h
      · exact absurd hj'.2 h
      · exact absurd hj (h j)
    · exact one i j j' ((other e).mp hj) ((other e').mp hj')

theorem oneWriter_clear (one : OneWriter s) (f : Clears s.tbl g s'.tbl) : OneWriter s' := by
  obtain ⟨file, hnone, hfile⟩ := f.file
  have back {j i : Nat} (h : Writes s'.tbl j i) : Writes s.tbl j i := by
    unfold Writes at h ⊢
    rw [hfile, Function.update_apply] at h
    split at h
    next =>
      have := h.1
      rw [hnone] at this
      cases this
    next => exact h
  exact fun i j j' hj hj' => one i j j' (back hj) (back hj')

/-! ## The system calls -/

/-- What a step can do. -/
inductive Does (s : Files) (e : OpenEvent) (tbl : Table) : Prop
  /-- The table stays as it was: the call is refused, or there is no free slot. -/
  | nothing (same : tbl.file = s.tbl.file ∧ tbl.iOpenCnts = s.tbl.iOpenCnts)
      (excused : ∀ p flag inode cached, e = .sysOpen p (.exists flag) (.inode inode cached) →
        getFreeSlot s.tbl = none)
  /-- A file is created: the inode is a new one. -/
  | creates (g flag inode : Nat) (f : Fills s.tbl g flag inode tbl) (hflag : flag ≤ 7)
      (fresh : s.tbl.iOpenCnts inode = 0)
        (other : ∀ p flag inode cached, e ≠ .sysOpen p (.exists flag) (.inode inode cached))
  /-- A file is opened. Whether `file_open` refuses then makes no difference to the slot. -/
  | opens (p g flag inode : Nat) (cached : Bool) (f : Fills s.tbl g flag inode tbl)
      (hflag : flag ≤ 7)
      (event : e = .sysOpen p (.exists flag) (.inode inode cached))
  /-- A slot is emptied: by `sys_close`, or by a `file_create` that fails. -/
  | clears (g : Nat) (f : Clears s.tbl g tbl)
      (other : ∀ p flag inode cached, e ≠ .sysOpen p (.exists flag) (.inode inode cached))

theorem fileOpenEnd_opening (cached : Bool) :
    (fileOpenEnd tbl pr g flag inode cached).2.1.opening = pr.opening := by
  unfold fileOpenEnd
  dsimp only
  split
  · split
    · rfl
    · exact install_opening
  · exact install_opening

/-- `file_open` fills the slot, refused or not. -/
theorem fileOpenEnd_fills (c : Counted s) (free : getFreeSlot s.tbl = some g) {cached : Bool}
    (hc : cached = true ↔ 0 < s.tbl.iOpenCnts inode) :
    Fills s.tbl g flag inode (fileOpenEnd s.tbl pr g flag inode cached).1 := by
  have hle := c.cnts_le inode
  have opened : Fills s.tbl g flag inode
      ((inodeOpen s.tbl inode cached).setFile g
        { fdPos := 0, fdFlag := flag, fdInode := some inode }) := by
    refine ⟨free, ?_, ?_⟩
    · unfold inodeOpen
      cases cached <;> rfl
    · unfold inodeOpen
      cases cached with
      | true =>
        rw [if_pos rfl, show ((s.tbl.iOpenCnts inode : Int) + 1) =
          ((s.tbl.iOpenCnts inode + 1 : Nat) : Int) by omega,
          u32_of_lt (by omega)]
        rfl
      | false =>
        have h0 : s.tbl.iOpenCnts inode = 0 := by
          by_contra hne
          cases hc.mpr (Nat.pos_of_ne_zero hne)
        rw [if_neg Bool.false_ne_true, h0]
        rfl
  have denied (t : Table) (h : Fills s.tbl g flag inode t) (d : Bool) :
      Fills s.tbl g flag inode (t.setDeny inode d) :=
    ⟨h.free, h.file, h.cnts⟩
  unfold fileOpenEnd
  dsimp only
  split
  · split
    · exact opened
    · exact denied _ opened true
  · exact opened

/-- Both halves of `sys_open` without anything between them. -/
theorem openStep_sysOpen (h : s.procs p = some pr) (lookup : Lookup) (answer : DiskAnswer) :
    openStep s (.sysOpen p lookup answer) =
      let first := sysOpen s.tbl pr lookup
      let last := sysOpenEnd first.1 first.2 answer
      .ok ((s.put p first.1 first.2).put p last.1 last.2, ()) := by
  have hput : ∀ tbl pr, (s.put p tbl pr).procs p = some pr := fun _ _ => Function.update_self ..
  unfold openStep fdStep fdStep.run
  dsimp only
  rw [h]
  dsimp only
  rw [ok_bind, pure_bind]
  dsimp only
  rw [hput]
  rfl

theorem put_idle (c : Counted s) {tbl : Table} {pr : Proc} (h : pr.opening = none) :
    ∀ q pr', (s.put p tbl pr).procs q = some pr' → pr'.opening = none := by
  intro q pr' hq
  by_cases e : q = p
  · subst e
    have : (s.put q tbl pr).procs q = some pr := Function.update_self ..
    rw [this] at hq
    cases hq
    exact h
  · have : (s.put p tbl pr).procs q = s.procs q := Function.update_of_ne e ..
    rw [this] at hq
    exact c.idle q pr' hq

theorem put_put (t t' : Table) (q q' : Proc) : (s.put p t q).put p t' q' = s.put p t' q' := by
  unfold Files.put
  simp only [Function.update_idem]

/-- What `sys_open` does. -/
theorem sysOpen_does (c : Counted s) {lookup : Lookup} {answer : DiskAnswer}
    (hp : s.procs p = some pr) (hans : Answers s.tbl lookup answer) {o : Unit}
    (st : openStep s (.sysOpen p lookup answer) = .ok (s', o)) :
    Does s (.sysOpen p lookup answer) s'.tbl ∧ ∀ q pr', s'.procs q = some pr' →
      pr'.opening = none := by
  have hidle := c.idle p pr hp
  rw [openStep_sysOpen hp] at st
  dsimp only at st
  rw [put_put] at st
  cases st
  cases lookup with
  | refused =>
    have hnone : (sysOpenEnd s.tbl pr answer) = (s.tbl, pr) := by
      unfold sysOpenEnd
      rw [hidle]
    show Does _ _ (sysOpenEnd s.tbl pr answer).1 ∧ _
    rw [show sysOpen s.tbl pr .refused = (s.tbl, pr) from rfl, hnone]
    exact ⟨.nothing ⟨rfl, rfl⟩ (fun _ _ _ _ e => by cases e), put_idle c hidle⟩
  | create inode flag =>
    cases answer with
    | inode => exact hans.elim
    | synced ok =>
      obtain ⟨hflag, hfresh⟩ := hans
      have other : ∀ q f i cached, OpenEvent.sysOpen p (.create inode flag) (.synced ok) ≠
          .sysOpen q (.exists f) (.inode i cached) :=
        fun _ _ _ _ e => by cases e
      cases free : getFreeSlot s.tbl with
      | none =>
        have hfirst : sysOpen s.tbl pr (.create inode flag) = (s.tbl, pr) := by
          unfold sysOpen
          dsimp only
          rw [free]
        have hnone : sysOpenEnd s.tbl pr (.synced ok) = (s.tbl, pr) := by
          unfold sysOpenEnd
          rw [hidle]
        rw [hfirst, hnone]
        exact ⟨.nothing ⟨rfl, rfl⟩ (fun _ _ _ _ e => absurd e (other _ _ _ _)), put_idle c hidle⟩
      | some g =>
        obtain ⟨-, hg, hempty⟩ := getFreeSlot_some free
        have hfirst : sysOpen s.tbl pr (.create inode flag) =
            ((s.tbl.setFile g { fdPos := 0, fdFlag := flag, fdInode := some inode }).setDeny inode
              false,
              { pr with opening := some (.created g inode) }) := by
          unfold sysOpen
          dsimp only
          rw [free]
        rw [hfirst]
        cases ok with
        | true =>
          refine ⟨.creates g flag inode ⟨free, rfl, ?_⟩ hflag hfresh other,
            put_idle c (install_opening)⟩
          rw [hfresh]
          rfl
        | false =>
          refine ⟨.clears g ⟨hg, ?_, ⟨⟨0, 0, none⟩, rfl, ?_⟩, fun i => ?_⟩ other, put_idle c rfl⟩
          · have cleared (f : Nat → File) : (Function.update f g ⟨0, 0, none⟩ g).fdFlag ≤ 7 := by
              rw [Function.update_self]
              exact Nat.zero_le 7
            exact cleared _
          · show Function.update (Function.update s.tbl.file g _) g (⟨0, 0, none⟩ : File) = _
            rw [Function.update_idem]
          · rw [hempty, if_neg nofun]
            rfl
  | «exists» flag =>
    cases answer with
    | synced => exact hans.elim
    | inode inode cached =>
      obtain ⟨hflag, hcached⟩ := hans
      cases free : getFreeSlot s.tbl with
      | none =>
        have hfirst : sysOpen s.tbl pr (.exists flag) = (s.tbl, pr) := by
          unfold sysOpen
          dsimp only
          rw [free]
        have hnone : sysOpenEnd s.tbl pr (.inode inode cached) = (s.tbl, pr) := by
          unfold sysOpenEnd
          rw [hidle]
        rw [hfirst, hnone]
        exact ⟨.nothing ⟨rfl, rfl⟩ (fun _ _ _ _ _ => free), put_idle c hidle⟩
      | some g =>
        have hfirst : sysOpen s.tbl pr (.exists flag) =
            (s.tbl, { pr with opening := some (.opened g flag) }) := by
          unfold sysOpen
          dsimp only
          rw [free]
        rw [hfirst]
        exact ⟨.opens p g flag inode cached (fileOpenEnd_fills c free hcached) hflag rfl,
          put_idle c (fileOpenEnd_opening cached)⟩

/-- What `sys_close` does. -/
theorem sysClose_does (c : Counted s) {fd : Int} (hp : s.procs p = some pr) {o : Unit}
    (st : openStep s (.sysClose p fd) = .ok (s', o)) :
    Does s (.sysClose p fd) s'.tbl ∧ ∀ q pr', s'.procs q = some pr' → pr'.opening = none := by
  have hidle := c.idle p pr hp
  unfold openStep fdStep fdStep.run at st
  dsimp only at st
  rw [hp] at st
  dsimp only at st
  obtain ⟨s₁, h₁, st⟩ := bind_eq_ok.mp st
  cases st
  obtain ⟨⟨tbl, pr', r⟩, h₂, h₁⟩ := bind_eq_ok.mp h₁
  cases h₁
  unfold sysClose at h₂
  split at h₂
  · obtain ⟨g, -, h₂⟩ := bind_eq_ok.mp h₂
    obtain ⟨pipe, hpipe, h₂⟩ := bind_eq_ok.mp h₂
    obtain ⟨t, ht, h₂⟩ := bind_eq_ok.mp h₂
    cases h₂
    refine ⟨?_, put_idle c hidle⟩
    -- there are no pipes
    have hfile : pipe = false := by
      unfold isPipe at hpipe
      obtain ⟨g', -, hpipe⟩ := bind_eq_ok.mp hpipe
      have := c.flags g'
      obtain rfl := Except.ok.inj hpipe
      rw [beq_eq_false_iff_ne]
      unfold pipeFlag
      omega
    subst hfile
    unfold closeSlot fileClose at ht
    rw [if_neg Bool.false_ne_true] at ht
    cases hi : (s.tbl.file g).fdInode with
    | none =>
      rw [hi] at ht
      cases ht
    | some inode =>
      rw [hi] at ht
      obtain rfl := Except.ok.inj ht
      have hpos := c.linked hi
      have hle := c.cnts_le inode
      have hcnt : u32 ((s.tbl.iOpenCnts inode : Int) - 1) = s.tbl.iOpenCnts inode - 1 := by
        rw [show ((s.tbl.iOpenCnts inode : Int) - 1) =
          ((s.tbl.iOpenCnts inode - 1 : Nat) : Int) by omega]
        exact u32_of_lt (by omega)
      refine .clears g ⟨c.slots g inode hi, ?_, ⟨{ s.tbl.file g with fdInode := none }, rfl, rfl⟩,
        fun i => ?_⟩ fun _ _ _ _ e => by cases e
      · show (Function.update s.tbl.file g { s.tbl.file g with fdInode := none } g).fdFlag ≤ 7
        rw [Function.update_self]
        exact c.flags g
      · show Function.update s.tbl.iOpenCnts inode (u32 ((s.tbl.iOpenCnts inode : Int) - 1)) i = _
        rw [hcnt, hi, Function.update_apply]
        by_cases e : i = inode
        · rw [if_pos e, if_pos (by rw [e]), e]
        · rw [if_neg e, if_neg fun e' => e (Option.some.inj e').symm]
  · cases h₂
    exact ⟨.nothing ⟨rfl, rfl⟩ (fun _ _ _ _ e => by cases e), put_idle c hidle⟩

/-- THE STEP LEMMA. -/
theorem openStep_does (c : Counted s) {e : OpenEvent} (en : openEnabled s e) {o : Unit}
    (st : openStep s e = .ok (s', o)) :
    Does s e s'.tbl ∧ ∀ p pr, s'.procs p = some pr → pr.opening = none := by
  have living {p : Nat} (h : fdEnabled.idle s p = true) : ∃ pr, s.procs p = some pr := by
    unfold fdEnabled.idle at h
    split at h
    next pr hpr => exact ⟨pr, hpr⟩
    next => cases h
  cases e with
  | sysOpen p lookup answer =>
    obtain ⟨hidle, hans⟩ := en
    obtain ⟨pr, hp⟩ := living hidle
    exact sysOpen_does c hp hans st
  | sysClose p fd =>
    have en : (fdEnabled.idle s p && decide (fd < 8)) = true := en
    obtain ⟨pr, hp⟩ := living (Bool.and_eq_true_iff.mp en).1
    exact sysClose_does c hp st

theorem Counted.next (c : Counted s) {e : OpenEvent} {o : Unit} (en : openMachine.enabled s e)
    (st : openMachine.step s e = .ok (s', o)) : Counted s' := by
  obtain ⟨does, idle⟩ := openStep_does c en st
  cases does with
  | nothing same =>
    refine ⟨fun i => ?_, fun g i => ?_, fun g => ?_, idle⟩
    · rw [same.2, c.cnts]
      unfold holders
      rw [same.1]
    · rw [same.1]
      exact c.slots g i
    · rw [same.1]
      exact c.flags g
  | creates g flag inode f hflag => exact c.fill f hflag idle
  | opens p g flag inode cached f hflag => exact c.fill f hflag idle
  | clears g f => exact c.clear f idle

/-- A step keeps one writer exactly when it opens no second one. -/
theorem oneWriter_step (c : Counted s) (one : OneWriter s) {e : OpenEvent} {o : Unit}
    (en : openMachine.enabled s e) (st : openMachine.step s e = .ok (s', o)) :
    OneWriter s' ↔ FirstWriter s e := by
  have trivially {e : OpenEvent}
      (h : ∀ p flag inode cached, e ≠ .sysOpen p (.exists flag) (.inode inode cached)) :
        FirstWriter s e := by
    unfold FirstWriter
    split
    next p flag inode cached => exact absurd rfl (h p flag inode cached)
    next => trivial
  cases (openStep_does c en st).1 with
  | nothing same excused =>
    refine iff_of_true (fun i g g' hg hg' => one i g g' ?_ ?_) ?_
    · unfold Writes at hg ⊢
      rwa [same.1] at hg
    · unfold Writes at hg' ⊢
      rwa [same.1] at hg'
    · unfold FirstWriter
      split
      next p flag inode cached => exact .inl (excused p flag inode cached rfl)
      next => trivial
  | creates g flag inode f _ fresh other =>
    refine iff_of_true ((oneWriter_fill one f).mpr (.inr fun g' hg' => ?_)) (trivially other)
    have := c.linked hg'.1
    rw [fresh] at this
    exact Nat.lt_irrefl 0 this
  | opens p g flag inode cached f _ event =>
    subst event
    rw [oneWriter_fill one f]
    refine ⟨.inr, fun h => h.resolve_left fun hnone => ?_⟩
    rw [f.free] at hnone
    cases hnone
  | clears g f other => exact iff_of_true (oneWriter_clear one f) (trivially other)

theorem fdStart_counted (live : Nat → Bool) : Counted (fdStart live) where
  cnts inode := by
    refine (Finset.card_eq_zero.mpr (Finset.eq_empty_iff_forall_notMem.mpr ?_)).symm
    intro g hg
    rw [mem_holders] at hg
    cases hg.2
  slots := nofun
  flags _ := Nat.zero_le 7
  idle p pr h := by
    unfold fdStart at h
    dsimp only at h
    split at h
    · cases h
      rfl
    · cases h

/-- WHEN THERE IS ONE WRITER AT MOST, in every run of opens and closes by any processes that do not
fork. -/
theorem one_writer_iff {live : Nat → Bool} {tr : List (Entry Files OpenEvent Unit)}
    (path : openMachine.Path (fdStart live) tr s) :
    Machine.Always OneWriter tr s ↔ Machine.Meets FirstWriter tr := by
  refine path.always_iff (fdStart_counted live) ?_ (fun c en st => c.next en st)
    (fun c one en st => oneWriter_step c one en st)
  intro i g g' hg
  cases hg.1

/-- A file is opened for reading, or when no slot holds it. -/
def AloneOrReads (s : Files) : OpenEvent → Prop
  | .sysOpen _ (.exists flag) (.inode inode _) => ¬ Writing flag ∨ s.tbl.iOpenCnts inode = 0
  | _ => True

instance (s : Files) (e : OpenEvent) : Decidable (AloneOrReads s e) := by
  unfold AloneOrReads
  split <;> exact inferInstance

theorem Counted.firstWriter (c : Counted s) {e : OpenEvent} (h : AloneOrReads s e) :
    FirstWriter s e := by
  unfold FirstWriter
  split
  next p flag inode cached =>
    refine .inr (h.imp_right fun zero g writes => ?_)
    have := c.linked writes.1
    rw [zero] at this
    exact Nat.lt_irrefl 0 this
  next => trivial

/-- The creator writes, and another process reads; when both have closed the file the other opens it
for writing. -/
theorem one_writer_iff_turns :
    ∃ tr s, openMachine.Path (fdStart (· < 3)) tr s ∧
      tr.map (·.event) = [.sysOpen 1 (.create 100 6) (.synced true),
        .sysOpen 2 (.exists 0) (.inode 100 true),
        .sysClose 2 3, .sysClose 1 3, .sysOpen 2 (.exists 2) (.inode 100 false)] ∧
      Writes s.tbl 3 100 ∧ Machine.Always OneWriter tr s := by
  obtain ⟨tr, s, path, events, meets, writes⟩ :=
    Machine.replay_path openMachine AloneOrReads (fdStart (· < 3))
    [.sysOpen 1 (.create 100 6) (.synced true), .sysOpen 2 (.exists 0) (.inode 100 true),
      .sysClose 2 3, .sysClose 1 3,
      .sysOpen 2 (.exists 2) (.inode 100 false)]
    (fun _ s => (s.tbl.file 3).fdInode = some 100 ∧ Writing (s.tbl.file 3).fdFlag)
      (by decide +kernel)
  have meets : Machine.Meets FirstWriter tr :=
    path.meets_of (fdStart_counted _) (fun c en st => c.next en st)
      (fun c h => c.firstWriter h) meets
  exact ⟨tr, s, path, events, writes, (one_writer_iff path).mpr meets⟩

/-- A process creates a file for writing, and one after it opens the file for writing. -/
def twoWriters : List OpenEvent :=
  [.sysOpen 1 (.create 100 6) (.synced true), .sysOpen 2 (.exists 2) (.inode 100 true)]

/-- A reachable state with two writers. -/
theorem two_writers : ¬ ∀ (live : Nat → Bool) (tr : List (Entry Files OpenEvent Unit)) (s : Files),
    openMachine.Path (fdStart live) tr s → OneWriter s := by
  intro claim
  have run : openMachine.exec (fdStart (· < 3)) twoWriters = some _ := rfl
  obtain ⟨tr, path⟩ := Machine.exec_path openMachine run
  have one := claim _ tr _ path 100 3 4 ⟨rfl, by decide⟩ ⟨rfl, by decide⟩
  cases one

end SeekingOs.Fs
