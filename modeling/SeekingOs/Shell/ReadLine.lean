import SeekingOs.Kernel.Strings
import SeekingOs.Lib.Loop
import SeekingOs.Shell.CmdParse

/-!
# `readline`

A key is first stored in the line and then looked at. What an editor does with a key is an `Edit` of
the pending characters, and `Holding` says that the line keeps up with them: the pending characters
are in front of `pos`, and on the screen behind the prompt.

Whether there is room for the key is tested after it has been stored. `KeysFit` says of a sequence
of keys that there always is.
-/

namespace SeekingOs.Shell

open Lib

/-! ## Editing -/

section Editing

variable {α : Type}

/-- What a key does to the pending characters. -/
inductive Edit (α : Type) where
  | insert (c : α)
  | backspace
  /-- ctrl+l: only the screen is wiped. -/
  | redraw
  /-- ctrl+u -/
  | kill
  deriving DecidableEq, Repr

def Edit.apply (pending : List α) : Edit α → List α
  | .insert c => pending ++ [c]
  | .backspace => pending.dropLast
  | .redraw => pending
  | .kill => []

/-- An edit makes the line longer by at most one. -/
theorem Edit.length_apply_le (pending : List α) (e : Edit α) :
    (e.apply pending).length ≤ pending.length + 1 := by
  cases e with
  | insert c => simp [apply]
  | backspace => simp [apply]; omega
  | redraw => simp [apply]
  | kill => simp [apply]

end Editing

/-! ## Keys -/

def backspaceKey : Byte := 8
def newline : Byte := 10
def carriageReturn : Byte := 13
/-- `'l' - 'a'` -/
def ctrlL : Byte := 11
/-- `'u' - 'a'` -/
def ctrlU : Byte := 20

/-- The edit of a key; enter has none. -/
def editOf (key : Byte) : Option (Edit Byte) :=
  if key = newline ∨ key = carriageReturn then none
  else if key = backspaceKey then some .backspace
  else if key = ctrlL then some .redraw
  else if key = ctrlU then some .kill
  else some (.insert key)

/-- Which key has which edit. -/
theorem editOf_eq_some {key : Byte} {e : Edit Byte} (edit : editOf key = some e) :
    (key = backspaceKey ∧ e = .backspace) ∨ (key = ctrlL ∧ e = .redraw) ∨
    (key = ctrlU ∧ e = .kill) ∨
      (¬ (key = newline ∨ key = carriageReturn) ∧ key ≠ backspaceKey ∧ key ≠ ctrlL ∧ key ≠ ctrlU ∧
        e = .insert key) := by
  unfold editOf at edit
  split at edit
  · cases edit
  next no_enter =>
    split at edit
    next h => exact .inl ⟨h, (Option.some.inj edit).symm⟩
    next no_backspace =>
      split at edit
      next h => exact .inr (.inl ⟨h, (Option.some.inj edit).symm⟩)
      next no_redraw =>
        split at edit
        next h => exact .inr (.inr (.inl ⟨h, (Option.some.inj edit).symm⟩))
        next no_kill =>
          exact .inr
            (.inr (.inr ⟨no_enter, no_backspace, no_redraw, no_kill, (Option.some.inj edit).symm⟩))

theorem editOf_eq_none {key : Byte} (enter : editOf key = none) :
    key = newline ∨ key = carriageReturn := by
  by_contra other
  unfold editOf at enter
  rw [if_neg other] at enter
  split at enter
  · cases enter
  · split at enter
    · cases enter
    · split at enter <;> cases enter

/-- The pending characters after some keys without an enter, `pending` before them. -/
def pendingAfter (pending : List Byte) (keys : List Byte) : List Byte :=
  (keys.filterMap editOf).foldl Edit.apply pending

/-- No key is an enter. -/
def NoEnter (keys : List Byte) : Prop := ∀ key ∈ keys, editOf key ≠ none

/-- No key is pressed while `count` characters are pending. -/
def KeysFit (count : Nat) (pending : List Byte) (keys : List Byte) : Prop :=
  ∀ before key after, keys = before ++ key :: after → NoEnter before →
    (pendingAfter pending before).length < count

/-! ## The line -/

/-- What is sent to the screen. -/
inductive Output where
  | putchar (c : Byte)
  | clear
  /-- `print_promat` -/
  | promat
  | printf (format : String) (arg : List Byte)
  deriving DecidableEq, Repr

/-- `buf` and what is behind it, with `pos`. -/
structure LineBuf where
  buf : Nat → Byte
  pos : Nat
  /-- Ghost: where characters were stored. -/
  stored : List Nat
  screen : List Output

namespace LineBuf

variable (s : LineBuf)

/-- `*p = c` -/
def store (p : Nat) (c : Byte) : LineBuf :=
  { s with buf := Function.update s.buf p c, stored := s.stored ++ [p] }

/-- A call that prints. -/
def say (out : Output) : LineBuf := { s with screen := s.screen ++ [out] }

/-- `pos = p` -/
def moveTo (p : Nat) : LineBuf := { s with pos := p }

/-- The loop of ctrl+u, with `pos - buf` for what is left of it. -/
def wipe : Nat → LineBuf → LineBuf
  | 0, s => s
  | left + 1, s => wipe left (((s.say (.putchar backspaceKey)).store s.pos 0).moveTo (s.pos - 1))

/-- The body of the loop, with a key at `pos`. -/
def turn : Turn LineBuf LineBuf :=
  if s.buf s.pos = newline ∨ s.buf s.pos = carriageReturn then
    .leave ((s.store s.pos 0).say (.putchar newline))
  else if s.buf s.pos = backspaceKey then
    -- with another character than this one in front, `pos` is not there
    if s.buf 0 ≠ backspaceKey then .again ((s.moveTo (s.pos - 1)).say (.putchar backspaceKey))
    else .again s
  else if s.buf s.pos = ctrlL then
    let s := s.store s.pos 0
    -- the `NUL` at `pos` ends the string
    .again (((s.say .clear).say .promat).say (.printf "%s" (stringFrom s.buf (s.pos + 1) 0)))
  else if s.buf s.pos = ctrlU then .again (s.wipe s.pos)
  else .again ((s.say (.putchar (s.buf s.pos))).moveTo (s.pos + 1))

end LineBuf

/-- A call of `readline` after some keys: it waits for the next one, or has returned. -/
inductive LineRun where
  | waiting (s : LineBuf)
  | returned (s : LineBuf)

/-- The memory of a call. -/
def LineRun.line : LineRun → LineBuf
  | .waiting s => s
  | .returned s => s

/-- The loop. `read` stores the next key, and fails on no key. -/
def readKeys (count : BitVec 32) : List Byte → LineBuf → LineRun
  | [], s => .waiting s
  | key :: keys, s =>
    let s := s.store s.pos key
    if u32 s.pos < count.toNat then
      match s.turn with
      | .leave s => .returned s
      | .again s => readKeys count keys s
    else
      .returned
        (s.say (.printf "readline: can`t find enter_key in the cmd_line, max num of char is 128\n"
          []))

/-- `readline`; `buf` is what is there before. -/
def readline (ndebug : Bool) (buf : Nat → Byte) (count : BitVec 32) (keys : List Byte) :
    Except Fault LineRun := do
  assertThat ndebug (0 < count.toNat) "readline" "buf != NULL && count > 0"
  return readKeys count keys ⟨buf, 0, [], []⟩

/-! ## What the line and the screen hold -/

/-- The characters behind the last prompt. -/
def shown (screen : List Output) : List Byte := screen.foldl (fun chars out => match out with
  | .putchar c => if c = backspaceKey then chars.dropLast else chars ++ [c]
  | .clear => []
  | .promat => []
  | .printf _ arg => chars ++ arg) []

/-- THE INVARIANT. The pending characters are in front of `pos` and on the screen. -/
structure Holding (pending : List Byte) (s : LineBuf) : Prop where
  pos : s.pos = pending.length
  chars : ∀ i c, pending[i]? = some c → s.buf i = c
  plain : ∀ c ∈ pending, c ≠ 0 ∧ c ≠ backspaceKey
  shown : shown s.screen = pending

variable {pending before keys after : List Byte} {key : Byte} {e : Edit Byte} {s : LineBuf}
  {count : BitVec 32}

namespace LineBuf

@[simp] theorem store_buf (s : LineBuf) (p : Nat) (c : Byte) :
    (s.store p c).buf = Function.update s.buf p c := rfl
@[simp] theorem store_pos (s : LineBuf) (p : Nat) (c : Byte) : (s.store p c).pos = s.pos := rfl
@[simp] theorem store_stored (s : LineBuf) (p : Nat) (c : Byte) :
    (s.store p c).stored = s.stored ++ [p] := rfl
@[simp] theorem store_screen (s : LineBuf) (p : Nat) (c : Byte) :
    (s.store p c).screen = s.screen := rfl
@[simp] theorem say_buf (s : LineBuf) (out : Output) : (s.say out).buf = s.buf := rfl
@[simp] theorem say_pos (s : LineBuf) (out : Output) : (s.say out).pos = s.pos := rfl
@[simp] theorem say_stored (s : LineBuf) (out : Output) : (s.say out).stored = s.stored := rfl
@[simp] theorem say_screen (s : LineBuf) (out : Output) :
    (s.say out).screen = s.screen ++ [out] := rfl
@[simp] theorem moveTo_buf (s : LineBuf) (p : Nat) : (s.moveTo p).buf = s.buf := rfl
@[simp] theorem moveTo_pos (s : LineBuf) (p : Nat) : (s.moveTo p).pos = p := rfl
@[simp] theorem moveTo_stored (s : LineBuf) (p : Nat) : (s.moveTo p).stored = s.stored := rfl
@[simp] theorem moveTo_screen (s : LineBuf) (p : Nat) : (s.moveTo p).screen = s.screen := rfl

end LineBuf

@[simp] theorem shown_nil : shown [] = [] := rfl

@[simp] theorem shown_putchar (screen : List Output) (c : Byte) :
    shown (screen ++ [.putchar c]) = if c = backspaceKey then (shown screen).dropLast
      else shown screen ++ [c] := by
  simp [shown]

@[simp] theorem shown_clear (screen : List Output) : shown (screen ++ [.clear]) = [] := by
  simp [shown]

@[simp] theorem shown_promat (screen : List Output) : shown (screen ++ [.promat]) = [] := by
  simp [shown]

@[simp] theorem shown_printf (screen : List Output) (format : String) (arg : List Byte) :
    shown (screen ++ [.printf format arg]) = shown screen ++ arg := by
  simp [shown]

theorem holding_nil (front : s.pos = 0) (blank : Shell.shown s.screen = []) : Holding [] s where
  pos := front
  chars _ _ hi := nomatch hi
  plain _ hc := nomatch hc
  shown := blank

/-- The pending characters stay when something is stored behind them. -/
theorem Holding.store_behind (h : Holding pending s) {p : Nat} (behind : pending.length ≤ p)
    (c : Byte) : Holding pending (s.store p c) where
  pos := h.pos
  chars i c' hi := by
    have inside : i < pending.length := (List.getElem?_eq_some_iff.mp hi).1
    rw [LineBuf.store_buf, Function.update_of_ne (by omega)]
    exact h.chars i c' hi
  plain := h.plain
  shown := h.shown

/-- With a `NUL` at `pos` the line is a string. -/
theorem Holding.stringAt (h : Holding pending s) (ended : s.buf pending.length = 0) :
    StringAt s.buf 0 pending := by
  intro k hk
  rw [Nat.zero_add]
  by_cases last : k = pending.length
  · rw [last, ended, stringMem_end]
  · have inside : k < pending.length := by omega
    rw [h.chars k pending[k] (List.getElem?_eq_getElem inside)]
    simp [stringMem, inside]

/-- CTRL+U goes back to the front, and wipes one character after another. -/
theorem LineBuf.wipe_spec {left : Nat} (at_end : s.pos = left)
    (length : (shown s.screen).length = left) :
    (wipe left s).pos = 0 ∧ shown (wipe left s).screen = [] ∧
    ∀ i ∈ (wipe left s).stored, i ∈ s.stored ∨ i ≤ left := by
  induction left generalizing s with
  | zero => exact ⟨at_end, List.length_eq_zero_iff.mp length, fun i hi => .inl hi⟩
  | succ left ih =>
    rw [wipe]
    obtain ⟨pos, screen, stored⟩ :=
      @ih (((s.say (.putchar backspaceKey)).store s.pos 0).moveTo (s.pos - 1)) (by simp [at_end])
        (by simp [length])
    refine ⟨pos, screen, fun i hi => ?_⟩
    rcases stored i hi with h | h
    · rw [moveTo_stored, store_stored, say_stored, List.mem_append, List.mem_singleton] at h
      rcases h with h | h
      · exact .inl h
      · exact .inr (by omega)
    · exact .inr (by omega)

/-- What is stored between two states goes to the first `n` places. -/
def StoresBelow (n : Nat) (s s' : LineBuf) : Prop := ∀ i ∈ s'.stored, i ∈ s.stored ∨ i < n

theorem StoresBelow.store {n : Nat} {s' : LineBuf} (h : StoresBelow n s s') {p : Nat}
    (hp : p < n) (c : Byte) : StoresBelow n s (s'.store p c) := by
  intro i hi
  rw [LineBuf.store_stored, List.mem_append, List.mem_singleton] at hi
  rcases hi with hi | rfl
  · exact h i hi
  · exact .inr hp

theorem StoresBelow.trans {n m : Nat} {s' s'' : LineBuf} (first : StoresBelow n s s') (le : n ≤ m)
    (second : StoresBelow m s' s'') : StoresBelow m s s'' := by
  intro i hi
  rcases second i hi with h | h
  · rcases first i h with h | h
    · exact .inl h
    · exact .inr (h.trans_le le)
  · exact .inr h

/-- Backspace drops the last character, if there is one. -/
theorem turn_backspace (held : Holding pending s) (here : s.buf s.pos = backspaceKey) :
    ∃ s', s.turn = .again s' ∧ Holding pending.dropLast s' ∧ s'.stored = s.stored := by
  unfold LineBuf.turn
  rw [here, if_neg (by decide), if_pos rfl]
  cases pending with
  | nil =>
    have front : s.pos = 0 := held.pos
    rw [front] at here
    rw [if_neg (not_not_intro here)]
    exact ⟨s, rfl, held, rfl⟩
  | cons c rest =>
    have first : s.buf 0 = c := held.chars 0 c rfl
    have other : c ≠ backspaceKey := (held.plain c List.mem_cons_self).2
    rw [first, if_pos other]
    refine ⟨_, rfl, ?_, rfl⟩
    constructor
    · simp [held.pos]
    · intro i c' hi
      rw [List.getElem?_dropLast] at hi
      split at hi
      · exact held.chars i c' hi
      · cases hi
    · intro c' hc'
      exact held.plain c' (List.dropLast_subset _ hc')
    · simp [held.shown]

/-- ctrl+l prints the line again. -/
theorem turn_redraw (held : Holding pending s) (here : s.buf s.pos = ctrlL) :
    ∃ s', s.turn = .again s' ∧ Holding pending s' ∧ s'.stored = s.stored ++ [s.pos] := by
  have kept := held.store_behind (Nat.le_of_eq held.pos.symm) 0
  have ended : (s.store s.pos 0).buf pending.length = 0 := by
    rw [← held.pos]
    exact Function.update_self _ _ _
  have printed : stringFrom (s.store s.pos 0).buf (s.pos + 1) 0 = pending :=
    (kept.stringAt ended).stringFrom_eq (fun c hc => (held.plain c hc).1) (by rw [held.pos]; omega)
  unfold LineBuf.turn
  rw [here, if_neg (by decide), if_neg (by decide), if_pos rfl]
  refine ⟨_, rfl, ⟨held.pos, kept.chars, held.plain, ?_⟩, rfl⟩
  rw [LineBuf.say_screen, shown_printf, LineBuf.say_screen, shown_promat]
  exact printed

/-- ctrl+u drops all of it. -/
theorem turn_kill (held : Holding pending s) (here : s.buf s.pos = ctrlU) :
    ∃ s', s.turn = .again s' ∧ Holding [] s' ∧ ∀ i ∈ s'.stored, i ∈ s.stored ∨
      i ≤ pending.length := by
  obtain ⟨front, screen, stored⟩ := LineBuf.wipe_spec held.pos (congrArg List.length held.shown)
  unfold LineBuf.turn
  rw [here, if_neg (by decide), if_neg (by decide), if_neg (by decide), if_pos rfl, held.pos]
  exact ⟨_, rfl, holding_nil front screen, stored⟩

/-- Any other key is kept. -/
theorem turn_insert (held : Holding pending s) (here : s.buf s.pos = key) (ne : key ≠ 0)
    (no_enter : ¬ (key = newline ∨ key = carriageReturn)) (no_backspace : key ≠ backspaceKey)
    (no_redraw : key ≠ ctrlL) (no_kill : key ≠ ctrlU) :
    ∃ s', s.turn = .again s' ∧ Holding (pending ++ [key]) s' ∧ s'.stored = s.stored := by
  unfold LineBuf.turn
  rw [here, if_neg no_enter, if_neg no_backspace, if_neg no_redraw, if_neg no_kill]
  refine ⟨_, rfl, ?_, rfl⟩
  constructor
  · simp [held.pos]
  · intro i c hi
    by_cases last : i = pending.length
    · rw [last, List.getElem?_concat_length] at hi
      rw [last, ← held.pos]
      exact here.trans (Option.some.inj hi)
    · have inside : i < (pending ++ [key]).length := (List.getElem?_eq_some_iff.mp hi).1
      rw [List.length_append, List.length_singleton] at inside
      rw [List.getElem?_append_left (by omega)] at hi
      exact held.chars i c hi
  · intro c hc
    rcases List.mem_append.mp hc with hc | hc
    · exact held.plain c hc
    · rw [List.mem_singleton] at hc
      exact hc ▸ ⟨ne, no_backspace⟩
  · simp [held.shown, no_backspace]

/-- ONE KEY: the line goes on to hold what the edit leaves. -/
theorem turn_edit (h : Holding pending s) (edit : editOf key = some e) (ne : key ≠ 0) :
    ∃ s', (s.store s.pos key).turn = .again s' ∧ Holding (e.apply pending) s' ∧
      StoresBelow (pending.length + 1) s s' := by
  have at_end : s.pos < pending.length + 1 := Nat.lt_succ_of_le (Nat.le_of_eq h.pos)
  have held := h.store_behind (Nat.le_of_eq h.pos.symm) key
  have here : (s.store s.pos key).buf (s.store s.pos key).pos = key := Function.update_self _ _ _
  have stores : StoresBelow (pending.length + 1) s (s.store s.pos key) :=
    StoresBelow.store (fun i hi => .inl hi) at_end key
  rcases editOf_eq_some edit with ⟨rfl, rfl⟩ | ⟨rfl, rfl⟩ | ⟨rfl, rfl⟩ | ⟨no_enter, no_backspace,
    no_redraw, no_kill, rfl⟩
  · obtain ⟨s', again, held', same⟩ := turn_backspace held here
    refine ⟨s', again, held', fun i hi => stores i ?_⟩
    rwa [same] at hi
  · obtain ⟨s', again, held', same⟩ := turn_redraw held here
    refine ⟨s', again, held', fun i hi => stores.store at_end 0 i ?_⟩
    rwa [same] at hi
  · obtain ⟨s', again, held', stored⟩ := turn_kill held here
    refine ⟨s', again, held', fun i hi => ?_⟩
    rcases stored i hi with hi | hi
    · exact stores i hi
    · exact .inr (Nat.lt_succ_of_le hi)
  · obtain ⟨s', again, held', same⟩ :=
      turn_insert held here ne no_enter no_backspace no_redraw no_kill
    refine ⟨s', again, held', fun i hi => stores i ?_⟩
    rwa [same] at hi

/-- ENTER: the line is a string, and is returned. -/
theorem turn_enter (h : Holding pending s) (enter : editOf key = none) :
    ∃ s', (s.store s.pos key).turn = .leave s' ∧ StringAt s'.buf 0 pending ∧
      StoresBelow (pending.length + 1) s s' := by
  have at_end : s.pos < pending.length + 1 := Nat.lt_succ_of_le (Nat.le_of_eq h.pos)
  have held :=
    (h.store_behind (Nat.le_of_eq h.pos.symm) key).store_behind (Nat.le_of_eq h.pos.symm) 0
  have here : (s.store s.pos key).buf (s.store s.pos key).pos = key := Function.update_self _ _ _
  have stores : StoresBelow (pending.length + 1) s ((s.store s.pos key).store s.pos 0) :=
    (StoresBelow.store (fun i hi => .inl hi) at_end key).store at_end 0
  unfold LineBuf.turn
  rw [here, if_pos (editOf_eq_none enter)]
  refine ⟨_, rfl, held.stringAt ?_, stores⟩
  rw [← h.pos]
  exact Function.update_self _ _ _

/-! ## Runs -/

theorem pendingAfter_cons (edit : editOf key = some e) (pending keys : List Byte) :
    pendingAfter pending (key :: keys) = pendingAfter (e.apply pending) keys := by
  unfold pendingAfter
  rw [List.filterMap_cons_some edit, List.foldl_cons]

/-- Keys that are only inserted are pending as they were typed. -/
theorem pendingAfter_inserts (inserts : ∀ c ∈ keys, editOf c = some (.insert c)) :
    pendingAfter pending keys = pending ++ keys := by
  induction keys generalizing pending with
  | nil => exact (List.append_nil _).symm
  | cons key keys ih =>
    rw [pendingAfter_cons (inserts key List.mem_cons_self),
      ih fun c hc => inserts c (List.mem_cons_of_mem _ hc), Edit.apply,
      List.append_assoc, List.singleton_append]

theorem noEnter_cons : NoEnter (key :: keys) ↔ (∃ e, editOf key = some e) ∧ NoEnter keys := by
  unfold NoEnter
  rw [List.forall_mem_cons, Option.ne_none_iff_exists']

/-- There is room for the first key, and for the others. -/
theorem keysFit_cons {n : Nat} :
    KeysFit n pending (key :: keys) ↔ pending.length < n ∧ ∀ e, editOf key = some e →
      KeysFit n (e.apply pending) keys := by
  constructor
  · intro fits
    refine ⟨fits [] key keys rfl fun _ h => absurd h List.not_mem_nil,
      fun e edit before key' after split noEnter => ?_⟩
    have room :=
      fits (key :: before) key' after (by rw [split, List.cons_append])
        (noEnter_cons.mpr ⟨⟨e, edit⟩, noEnter⟩)
    rwa [pendingAfter_cons edit] at room
  · rintro ⟨room, rest⟩ before key' after split noEnter
    cases before with
    | nil => exact room
    | cons first before =>
      obtain ⟨rfl, rfl⟩ := List.cons.inj split
      obtain ⟨⟨e, edit⟩, noEnter⟩ := noEnter_cons.mp noEnter
      rw [pendingAfter_cons edit]
      exact rest e edit before key' after rfl noEnter

/-- The length fits into 32 bits. -/
theorem room_test (h : Holding pending s) (room : pending.length < count.toNat) :
    u32 s.pos < count.toNat := by
  have small := count.isLt
  rwa [h.pos, u32_of_lt (by omega)]

/-- SEVERAL KEYS without an enter among them. -/
theorem readKeys_edits (h : Holding pending s) (fits : KeysFit count.toNat pending before)
    (noEnter : NoEnter before) (plain : ∀ c ∈ before, c ≠ 0) (rest : List Byte) :
    ∃ s', readKeys count (before ++ rest) s = readKeys count rest s' ∧
      Holding (pendingAfter pending before) s' ∧
      StoresBelow count.toNat s s' := by
  induction before generalizing pending s with
  | nil => exact ⟨s, rfl, h, fun i hi => .inl hi⟩
  | cons key before ih =>
    obtain ⟨⟨e, edit⟩, noEnter⟩ := noEnter_cons.mp noEnter
    obtain ⟨room, fits⟩ := keysFit_cons.mp fits
    obtain ⟨s', again, held, stores⟩ := turn_edit h edit (plain key List.mem_cons_self)
    obtain ⟨s'', run, held', stores'⟩ :=
      ih held (fits e edit) noEnter fun c hc => plain c (List.mem_cons_of_mem _ hc)
    refine ⟨s'', ?_, ?_, stores.trans room stores'⟩
    · rw [List.cons_append, readKeys, LineBuf.store_pos, if_pos (room_test h room), again]
      exact run
    · rwa [pendingAfter_cons edit]

/-- A LINE that is ended in time. -/
theorem readKeys_enter (h : Holding pending s) (fits : KeysFit count.toNat pending before)
    (noEnter : NoEnter before) (plain : ∀ c ∈ before, c ≠ 0) (enter : editOf key = none)
    (room : (pendingAfter pending before).length < count.toNat) :
    ∃ s', readKeys count (before ++ key :: after) s = .returned s' ∧
      StringAt s'.buf 0 (pendingAfter pending before) ∧
      HasLength count.toNat s'.buf (pendingAfter pending before).length ∧
      StoresBelow count.toNat s s' := by
  obtain ⟨s', run, held, stores⟩ := readKeys_edits h fits noEnter plain (key :: after)
  obtain ⟨s'', leave, string, stores'⟩ := turn_enter held enter
  refine ⟨s'', ?_, string, ⟨room, fun k hk => ?_, ?_⟩, ?_⟩
  · rw [run, readKeys, LineBuf.store_pos, if_pos (room_test held room), leave]
  · have char := string.char_eq hk
    rw [Nat.zero_add] at char
    rw [char]
    exact (held.plain _ (List.getElem_mem hk)).1
  · have ended := string.end_eq
    rwa [Nat.zero_add] at ended
  · intro i hi
    rcases stores' i hi with h | h
    · exact stores i h
    · exact .inr (Nat.lt_of_lt_of_le h room)

/-- A KEY TOO MANY is stored behind the buffer, and what is returned has no `NUL`. -/
theorem readKeys_overruns (h : Holding pending s) (short : pending.length ≤ count.toNat)
    (plain : ∀ c ∈ keys, c ≠ 0) (unfit : ¬ KeysFit count.toNat pending keys) :
    ∃ s', readKeys count keys s = .returned s' ∧ count.toNat ∈ s'.stored ∧
      ∀ n, ¬ HasLength count.toNat s'.buf n := by
  induction keys generalizing pending s with
  | nil =>
    refine absurd (fun before key after split _ => ?_) unfit
    exact absurd split.symm (List.append_ne_nil_of_right_ne_nil _ (List.cons_ne_nil _ _))
  | cons key keys ih =>
    rw [readKeys]
    by_cases room : pending.length < count.toNat
    · rw [keysFit_cons] at unfit
      obtain ⟨e, edit, unfit⟩ : ∃ e, editOf key = some e ∧
        ¬ KeysFit count.toNat (e.apply pending) keys := by
        by_contra none
        exact unfit ⟨room, fun e edit => by_contra fun h => none ⟨e, edit, h⟩⟩
      obtain ⟨s', again, held, -⟩ := turn_edit h edit (plain key List.mem_cons_self)
      rw [LineBuf.store_pos, if_pos (room_test h room), again]
      have short' : (e.apply pending).length ≤ count.toNat := (e.length_apply_le pending).trans room
      exact ih held short' (fun c hc => plain c (List.mem_cons_of_mem _ hc)) unfit
    · have full : pending.length = count.toNat := by omega
      have behind : s.pos = count.toNat := h.pos.trans full
      have small := count.isLt
      rw [LineBuf.store_pos, behind, u32_of_lt small, if_neg (Nat.lt_irrefl _)]
      refine ⟨_, rfl, List.mem_append_right _ List.mem_cons_self, fun n terminated => ?_⟩
      have inside : n < pending.length := full ▸ terminated.inside
      have held := h.store_behind (Nat.le_of_eq full) key
      have char := held.chars n _ (List.getElem?_eq_getElem inside)
      exact (h.plain _ (List.getElem_mem inside)).1 (char.symm.trans terminated.terminated)

/-- Keys up to the first enter. -/
theorem noEnter_or_split (keys : List Byte) :
    NoEnter keys ∨ ∃ before enter after, keys = before ++ enter :: after ∧ NoEnter before ∧
      editOf enter = none := by
  induction keys with
  | nil => exact .inl fun _ h => absurd h List.not_mem_nil
  | cons key keys ih =>
    cases edit : editOf key with
    | none => exact .inr ⟨[], key, keys, rfl, fun _ h => absurd h List.not_mem_nil, edit⟩
    | some e =>
      rcases ih with noEnter | ⟨before, enter, after, rfl, noEnter, h⟩
      · exact .inl (noEnter_cons.mpr ⟨⟨e, edit⟩, noEnter⟩)
      · exact .inr ⟨key :: before, enter, after, rfl, noEnter_cons.mpr ⟨⟨e, edit⟩, noEnter⟩, h⟩

/-! ## The whole call -/

/-- The line is edited, inside the buffer. -/
structure EditsLine (count : Nat) (keys : List Byte) (run : LineRun) : Prop where
  inside : ∀ i ∈ run.line.stored, i < count
  terminated : ∀ s, run = .returned s → ∃ n, HasLength count s.buf n
  line : ∀ before enter after, keys = before ++ enter :: after → NoEnter before →
    editOf enter = none →
    (∀ typed, typed <+: before → (pendingAfter [] typed).length < count) →
    ∃ s, run = .returned s ∧ StringAt s.buf 0 (pendingAfter [] before)

theorem KeysFit.left {n : Nat} (fits : KeysFit n pending (before ++ after)) :
    KeysFit n pending before :=
  fun typed key rest split noEnter =>
    fits typed key (rest ++ after) (by rw [split, List.append_assoc, List.cons_append]) noEnter

/-- EDITING IS RIGHT AND BOUNDED if and only if no key is pressed while `count` characters are
pending. -/
theorem readline_edits_iff (ndebug : Bool) (buf : Nat → Byte) (some : 0 < count.toNat)
    (plain : ∀ c ∈ keys, c ≠ 0) :
    (∃ run, readline ndebug buf count keys = .ok run ∧ EditsLine count.toNat keys run) ↔
    KeysFit count.toNat [] keys := by
  have started : readline ndebug buf count keys = .ok (readKeys count keys ⟨buf, 0, [], []⟩) := by
    unfold readline
    rw [assertThat_of some]
    rfl
  have held : Holding [] ⟨buf, 0, [], []⟩ := holding_nil rfl rfl
  constructor
  · rintro ⟨run, answer, edits⟩
    by_contra unfit
    obtain ⟨s', returned, behind, -⟩ := readKeys_overruns held (Nat.zero_le _) plain unfit
    rw [started, returned] at answer
    cases answer
    exact Nat.lt_irrefl _ (edits.inside _ behind)
  · intro fits
    refine ⟨_, started, ?_⟩
    rcases noEnter_or_split keys with noEnter | ⟨before, enter, after, rfl, noEnter, ends⟩
    · obtain ⟨s', run, -, stores⟩ := readKeys_edits held fits noEnter plain []
      rw [List.append_nil] at run
      rw [run]
      refine ⟨fun i hi => (stores i hi).resolve_left List.not_mem_nil, ?_, ?_⟩
      · rintro s ⟨⟩
      · rintro before enter after rfl _ ends
        exact absurd ends (noEnter enter (List.mem_append_right _ List.mem_cons_self))
    · have typed : ∀ c ∈ before, c ≠ 0 := fun c hc => plain c (List.mem_append_left _ hc)
      obtain ⟨s', run, -, string, stores⟩ :=
        readKeys_enter held fits.left noEnter typed ends (fits before enter after rfl noEnter)
      constructor
      · rw [run]
        exact fun i hi => (stores i hi).resolve_left List.not_mem_nil
      · intro s returned
        rw [run] at returned
        cases returned
        exact ⟨_, string⟩
      · intro before' enter' after' split noEnter' ends' _
        have room := fits before' enter' after' split noEnter'
        rw [split] at fits plain ⊢
        have typed' : ∀ c ∈ before', c ≠ 0 := fun c hc => plain c (List.mem_append_left _ hc)
        obtain ⟨s'', run', edited, -⟩ := readKeys_enter held fits.left noEnter' typed' ends' room
        exact ⟨s'', run', edited⟩

/-- A line of two keys and an enter, with a slip between them. -/
theorem readline_edits_short :
    (∃ run, readline false (fun _ => 0) 128 [108, 120, 8, 115, 13] = .ok run ∧
      EditsLine 128 [108, 120, 8, 115, 13] run) ↔ KeysFit 128 [] [108, 120, 8, 115, 13] :=
  readline_edits_iff false (fun _ => 0) (by decide) (by decide)

/-- As many keys as `cmd_line` has characters, and an enter. -/
def fullLine : List Byte := List.replicate 128 97 ++ [carriageReturn]

/-- The enter is stored behind `cmd_line`, and no `NUL` in it. -/
theorem full_line_overruns :
    (∃ s, readline false (fun _ => 0) 128 fullLine = .ok (.returned s) ∧ 128 ∈ s.stored ∧
      ∀ n, ¬ HasLength 128 s.buf n) ∧
      ¬ ∃ run, readline false (fun _ => 0) 128 fullLine = .ok run ∧ EditsLine 128 fullLine run := by
  have unfit : ¬ KeysFit (128#32).toNat [] fullLine := by
    intro fits
    have inserts : ∀ c ∈ List.replicate 128 97, editOf c = some (.insert c) := fun c hc => by
      rw [List.eq_of_mem_replicate hc]
      decide
    have noEnter : NoEnter (List.replicate 128 97) := fun c hc => by
      rw [inserts c hc]
      exact Option.some_ne_none _
    have room := fits (List.replicate 128 97) carriageReturn [] rfl noEnter
    rw [pendingAfter_inserts inserts, List.nil_append, List.length_replicate] at room
    exact Nat.lt_irrefl _ room
  have plain : ∀ c ∈ fullLine, c ≠ 0 := by
    intro c hc
    rcases List.mem_append.mp hc with h | h
    · rw [List.eq_of_mem_replicate h]
      decide
    · rw [List.mem_singleton.mp h]
      decide
  have held : Holding [] ⟨fun _ => 0, 0, [], []⟩ := holding_nil rfl rfl
  obtain ⟨s, run, behind, unterminated⟩ := readKeys_overruns held (Nat.zero_le _) plain unfit
  have answer : readline false (fun _ => 0) 128 fullLine = .ok (.returned s) :=
    congrArg Except.ok run
  refine ⟨⟨s, answer, behind, unterminated⟩, ?_⟩
  rintro ⟨_, answer', edits⟩
  rw [answer] at answer'
  cases answer'
  exact Nat.lt_irrefl _ (edits.inside _ behind)

end SeekingOs.Shell
