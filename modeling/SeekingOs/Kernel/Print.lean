import Mathlib.Logic.Function.Basic
import Mathlib.Data.Nat.Notation
import SeekingOs.Kernel.Base

/-!
# `lib/kernel/print.s`

`put_char` reads the cursor from the CRT controller, computes in the 16-bit register bx and stores
through the segment of the video memory. A definition is the code behind one label, and falling
through into the next label is a call of it.

The text page has 25 rows of 80 cells of two bytes, a character and its attribute. `Right` is what a
call is to do on it, and `right_iff` says when it does.
-/

namespace SeekingOs.Print

open Lib

/-- The exception #GP: a store behind the limit of its segment. -/
inductive Trap where
  | generalProtection (offset : Nat)
  deriving DecidableEq, Repr

/-- The video memory and the CRT controller. -/
structure Screen where
  /-- The bytes behind 0xc00b8000. -/
  video : Nat → Byte
  /-- Registers 0xe and 0xf of the controller. -/
  cursorHigh : Byte
  cursorLow : Byte
  /-- The offsets that have been stored to, in order. -/
  stores : List Nat

namespace Screen

/-- The cursor, as the `in` instructions put it together in ax. -/
def cursor (s : Screen) : BitVec 16 := s.cursorHigh ++ s.cursorLow

/-- A byte is stored. -/
def put (s : Screen) (offset : Nat) (byte : Byte) : Screen :=
  { s with video := Function.update s.video offset byte, stores := s.stores ++ [offset] }

end Screen

/-- The last offset of the video segment: eight pages, by the descriptor in `loader.s`. -/
def videoLimit : Nat := 0x7fff

/-- `mov byte [gs:offset],byte` -/
def store (offset : Nat) (byte : Byte) (s : Screen) : Except Trap Screen :=
  if offset ≤ videoLimit then .ok (s.put offset byte) else .error (.generalProtection offset)

/-- `movsd`, from the offset `source` to the offset `target`; the flat segments have no such limit.
-/
def movsd (source target : Nat) (s : Screen) : Screen :=
  (((s.put target (s.video source)).put (target + 1) (s.video (source + 1))).put (target + 2)
    (s.video (source + 2))).put
    (target + 3) (s.video (source + 3))

/-- `.set_cursor_asm`, and the function `set_cursor` -/
def setCursor (bx : BitVec 16) (s : Screen) : Screen :=
  { s with cursorHigh := bx.extractLsb' 8 8, cursorLow := bx.setWidth 8 }

/-- `.roll_screen`, with `.cls` -/
def rollScreen (s : Screen) : Except Trap Screen := do
  let s ← upTo (fun i s => .ok (movsd (0xa0 + 4 * i) (4 * i) s)) 960 s
  let s ← upTo (fun i s => do
    let s ← store (3840 + 2 * i) 0x20 s
    store (3840 + 2 * i + 1) 0x07 s) 80 s
  return setCursor 1920#16 s

/-- `.is_line_feed` and `.is_carriage_return` -/
def isCarriageReturn (bx : BitVec 16) (s : Screen) : Except Trap Screen :=
  let dx := bx % 80#16
  let bx := bx - dx
  let bx := bx + 80#16
  if bx.slt 2000#16 then .ok (setCursor bx s) else rollScreen s

/-- `.put_other` -/
def putOther (bx : BitVec 16) (c attr : Byte) (s : Screen) : Except Trap Screen := do
  let bx := bx <<< 1
  let s ← store bx.toNat c s
  let bx := bx + 1#16
  let s ← store bx.toNat attr s
  let bx := bx >>> 1
  let bx := bx + 1#16
  if bx.slt 2000#16 then return setCursor bx s
  else isCarriageReturn bx s

/-- `.is_backspace` -/
def isBackspace (bx : BitVec 16) (s : Screen) : Except Trap Screen := do
  let bx := bx - 1#16
  let bx := bx <<< 1
  let s ← store bx.toNat 0x20 s
  let bx := bx + 1#16
  let s ← store bx.toNat 0x07 s
  let bx := bx >>> 1
  return setCursor bx s

/-- `put_char` -/
def putChar (c attr : Byte) (s : Screen) : Except Trap Screen :=
  let bx := s.cursor
  if c = 0xd then isCarriageReturn bx s
  else if c = 0xa then isCarriageReturn bx s
  else if c = 0x8 then isBackspace bx s
  else putOther bx c attr s

/-- A call of `put_char`. -/
structure Call where
  c : Byte
  attr : Byte
  deriving DecidableEq, Repr

/-- One call after another. -/
def putChars : List Call → Screen → Except Trap Screen
  | [], s => .ok s
  | call :: calls, s => do
    let s ← putChar call.c call.attr s
    putChars calls s

/-- `put_str`; the string ends at its first NUL. -/
def putStr (str : List Byte) (attr : Byte) (s : Screen) : Except Trap Screen :=
  putChars ((str.takeWhile (· ≠ 0)).map fun c => ⟨c, attr⟩) s

/-! ## What a call is to do -/

/-- Where a character takes the cursor before the screen is scrolled. -/
def landing (p : Nat) (c : Byte) : Nat :=
  if c = 0xd ∨ c = 0xa then (p / 80 + 1) * 80 else if c = 0x8 then p - 1 else p + 1

/-- One cell of the page is written. -/
def cell (video : Nat → Byte) (p : Nat) (c attr : Byte) : Nat → Byte :=
  Function.update (Function.update video (2 * p) c) (2 * p + 1) attr

/-- The page after the character and before scrolling. -/
def typed (video : Nat → Byte) (p : Nat) (c attr : Byte) : Nat → Byte :=
  if c = 0xd ∨ c = 0xa then video else if c = 0x8 then cell video (p - 1) 0x20 0x07
  else cell video p c attr

/-- Rows 1 to 24 stand one row higher, and row 24 is blank. -/
structure Scrolled (before after : Nat → Byte) : Prop where
  up : ∀ row < 24, ∀ k < 160, after (160 * row + k) = before (160 * (row + 1) + k)
  blank : ∀ column < 80, after (160 * 24 + 2 * column) = 0x20 ∧
    after (160 * 24 + 2 * column + 1) = 0x07
  outside : ∀ o, 4000 ≤ o → after o = before o

/-- Every store between two states is one into the text page. -/
def InPage (s s' : Screen) : Prop := ∃ new, s'.stores = s.stores ++ new ∧ ∀ o ∈ new, o < 4000

/-- What a call that comes back leaves. -/
structure Typed (call : Call) (s s' : Screen) : Prop where
  onScreen : s'.cursor.toNat < 2000
  inPage : InPage s s'
  stays : landing s.cursor.toNat call.c < 2000 →
    s'.cursor.toNat = landing s.cursor.toNat call.c ∧
    s'.video = typed s.video s.cursor.toNat call.c call.attr
  scrolls : 2000 ≤ landing s.cursor.toNat call.c →
    s'.cursor.toNat = 1920 ∧ Scrolled (typed s.video s.cursor.toNat call.c call.attr) s'.video

/-- The call comes back, with the cursor on the screen and its stores in the page. -/
def Right (call : Call) (s : Screen) : Prop :=
  ∃ s', putChar call.c call.attr s = .ok s' ∧ Typed call s s'

/-! ## Stores -/

namespace InPage

theorem refl (s : Screen) : InPage s s :=
  ⟨[], (List.append_nil _).symm, fun _ h => absurd h List.not_mem_nil⟩

theorem trans {s s' s'' : Screen} (h : InPage s s') (h' : InPage s' s'') : InPage s s'' := by
  obtain ⟨new, eq, inside⟩ := h
  obtain ⟨new', eq', inside'⟩ := h'
  refine ⟨new ++ new', by rw [eq', eq, List.append_assoc], fun o ho => ?_⟩
  rcases List.mem_append.mp ho with ho | ho
  · exact inside o ho
  · exact inside' o ho

theorem put {s s' : Screen} {o : Nat} {byte : Byte} (h : InPage s s') (inside : o < 4000) :
    InPage s (s'.put o byte) :=
  h.trans ⟨[o], rfl, fun _ ho => List.mem_singleton.mp ho ▸ inside⟩

/-- Setting the cursor stores nothing. -/
theorem setCursor {s s' : Screen} {bx : BitVec 16} (h : InPage s s') :
    InPage s (setCursor bx s') := h

end InPage

theorem store_of_lt {o : Nat} (byte : Byte) (s : Screen) (h : o < 4000) :
    store o byte s = .ok (s.put o byte) :=
  if_pos (by simp only [videoLimit]; omega)

@[simp] theorem video_put (s : Screen) (o : Nat) (byte : Byte) :
    (s.put o byte).video = Function.update s.video o byte := rfl

@[simp] theorem video_setCursor (bx : BitVec 16) (s : Screen) :
    (setCursor bx s).video = s.video := rfl

/-- The cursor that is set is the one that is read. -/
@[simp] theorem cursor_setCursor (bx : BitVec 16) (s : Screen) : (setCursor bx s).cursor = bx := by
  apply BitVec.eq_of_toNat_eq
  have bound := bx.isLt
  rw [Screen.cursor, setCursor, BitVec.toNat_append,
    ← Nat.shiftLeft_add_eq_or_of_lt (BitVec.isLt _), Nat.shiftLeft_eq,
    BitVec.extractLsb'_toNat, BitVec.toNat_setWidth, Nat.shiftRight_eq_div_pow]
  omega

/-! ## Scrolling -/

/-- The dwords of `rep movsd`: what has been moved stands 160 bytes lower, the rest is as it was. -/
theorem rep_movsd (s : Screen) :
    Ensures (fun _ : Trap => False) (fun s' => InPage s s' ∧
      ∀ o, s'.video o = if o < 3840 then s.video (o + 160) else s.video o)
      (upTo (fun i s => .ok (movsd (0xa0 + 4 * i) (4 * i) s)) 960 s) := by
  refine Ensures.upTo (I := fun n s' => InPage s s' ∧
    ∀ o, s'.video o = if o < 4 * n then s.video (o + 160) else s.video o)
    ⟨InPage.refl s, fun o => rfl⟩ ?_
  intro i hi s' ⟨page, moved⟩
  refine ⟨(((page.put (by omega)).put (by omega)).put (by omega)).put (by omega), fun o => ?_⟩
  have ahead : ∀ j, s'.video (0xa0 + 4 * i + j) = s.video (4 * i + j + 160) := fun j => by
    rw [moved, if_neg (by omega)]
    congr 1
    omega
  have first := ahead 0
  simp only [Nat.add_zero] at first
  simp only [movsd, video_put, Function.update_apply, first, ahead, moved]
  by_cases h3 : o = 4 * i + 3
  · rw [if_pos h3, if_pos (by omega), h3]
  by_cases h2 : o = 4 * i + 2
  · rw [if_neg h3, if_pos h2, if_pos (by omega), h2]
  by_cases h1 : o = 4 * i + 1
  · rw [if_neg h3, if_neg h2, if_pos h1, if_pos (by omega), h1]
  by_cases h0 : o = 4 * i
  · rw [if_neg h3, if_neg h2, if_neg h1, if_pos h0, if_pos (by omega), h0]
  · rw [if_neg h3, if_neg h2, if_neg h1, if_neg h0]
    exact if_congr (by omega) rfl rfl

/-- `.cls`: the cells of the last row, one by one. -/
theorem cls (s : Screen) :
    Ensures (fun _ : Trap => False) (fun s' => InPage s s' ∧
      (∀ o, o < 3840 ∨ 4000 ≤ o → s'.video o = s.video o) ∧
        ∀ column < 80, s'.video (3840 + 2 * column) = 0x20 ∧
        s'.video (3840 + 2 * column + 1) = 0x07)
      (upTo (fun i s => do
        let s ← store (3840 + 2 * i) 0x20 s
        store (3840 + 2 * i + 1) 0x07 s) 80 s) := by
  refine Ensures.upTo (I := fun n s' => InPage s s' ∧
    (∀ o, o < 3840 ∨ 4000 ≤ o → s'.video o = s.video o) ∧
    ∀ column < n, s'.video (3840 + 2 * column) = 0x20 ∧ s'.video (3840 + 2 * column + 1) = 0x07)
    ⟨InPage.refl s, fun _ _ => rfl, fun _ h => absurd h (Nat.not_lt_zero _)⟩ ?_
  intro i hi s' ⟨page, others, cleared⟩
  rw [store_of_lt _ _ (by omega), ok_bind, store_of_lt _ _ (by omega)]
  refine ⟨(page.put (by omega)).put (by omega), fun o ho => ?_, fun column hc => ?_⟩
  · rw [video_put, video_put, Function.update_of_ne (by omega), Function.update_of_ne (by omega)]
    exact others o ho
  · simp only [video_put, Function.update_apply]
    by_cases here : column = i
    · subst here
      simp
    · obtain ⟨glyph, colour⟩ := cleared column (by omega)
      rw [if_neg (by omega), if_neg (by omega), if_neg (by omega), if_neg (by omega)]
      exact ⟨glyph, colour⟩

/-- SCROLLING, and the cursor at the start of the last row. -/
theorem rollScreen_spec (s : Screen) :
    ∃ s', rollScreen s = .ok s' ∧ InPage s s' ∧ s'.cursor.toNat = 1920 ∧
      Scrolled s.video s'.video := by
  obtain ⟨s₁, moves, page₁, moved⟩ := total_iff.mp (rep_movsd s)
  obtain ⟨s₂, clears, page₂, others, cleared⟩ := total_iff.mp (cls s₁)
  refine ⟨setCursor 1920#16 s₂, ?_, (page₁.trans page₂).setCursor,
    by rw [cursor_setCursor]; rfl, ?_⟩
  · rw [rollScreen, moves, ok_bind, clears]
    rfl
  · refine ⟨fun row hr k hk => ?_, cleared, fun o ho => ?_⟩
    · rw [video_setCursor, others _ (by omega), moved, if_pos (by omega)]
      congr 1
      omega
    · rw [video_setCursor, others o (Or.inr ho), moved, if_neg (by omega)]

/-! ## The four paths -/

/-- `jl` on numbers that are small in both readings. -/
theorem slt_2000 {bx : BitVec 16} (small : bx.toNat < 2 ^ 15) :
    bx.slt 2000#16 = true ↔ bx.toNat < 2000 := by
  rw [BitVec.slt_iff_toInt_lt, BitVec.toInt_eq_toNat_of_lt (by omega),
    BitVec.toInt_eq_toNat_of_lt (by decide),
    BitVec.toNat_ofNat]
  omega

/-- A carriage return or line feed, alone or after the last cell: the next row, or scrolling. -/
theorem isCarriageReturn_spec {bx : BitVec 16} (here : bx.toNat ≤ 2000) (s : Screen) :
    ∃ s', isCarriageReturn bx s = .ok s' ∧ InPage s s' ∧
      ((bx.toNat / 80 + 1) * 80 < 2000 → s'.cursor.toNat = (bx.toNat / 80 + 1) * 80 ∧
        s'.video = s.video) ∧
      (2000 ≤ (bx.toNat / 80 + 1) * 80 → s'.cursor.toNat = 1920 ∧ Scrolled s.video s'.video) := by
  have next : (bx - bx % 80#16 + 80#16).toNat = (bx.toNat / 80 + 1) * 80 := by
    have le : (bx % 80#16).toNat ≤ bx.toNat := Nat.mod_le _ _
    rw [BitVec.toNat_add, BitVec.toNat_sub_of_le le, BitVec.toNat_umod]
    simp only [BitVec.toNat_ofNat, Nat.reducePow, Nat.reduceMod]
    omega
  unfold isCarriageReturn
  simp only [slt_2000 (show (bx - bx % 80#16 + 80#16).toNat < 2 ^ 15 by omega), next]
  by_cases fits : (bx.toNat / 80 + 1) * 80 < 2000
  · refine ⟨_, if_pos fits, InPage.refl s, fun _ => ⟨?_, rfl⟩, fun past => by omega⟩
    rw [cursor_setCursor, next]
  · obtain ⟨s', rolls, page, cursor, rows⟩ := rollScreen_spec s
    exact ⟨s', (if_neg fits).trans rolls, page, fun below => absurd below fits,
      fun _ => ⟨cursor, rows⟩⟩

/-- The two stores to one cell of the page, by the doubled cursor. -/
theorem cell_stores {bx : BitVec 16} (here : bx.toNat < 2000) :
    (bx <<< 1).toNat = 2 * bx.toNat ∧ (bx <<< 1 + 1#16).toNat = 2 * bx.toNat + 1 ∧
    (bx <<< 1 + 1#16) >>> 1 = bx := by
  have double : (bx <<< 1).toNat = 2 * bx.toNat := by
    rw [BitVec.toNat_shiftLeft, Nat.shiftLeft_eq]
    omega
  have odd : (bx <<< 1 + 1#16).toNat = 2 * bx.toNat + 1 := by
    rw [BitVec.toNat_add, double, BitVec.toNat_ofNat]
    omega
  refine ⟨double, odd, BitVec.eq_of_toNat_eq ?_⟩
  rw [BitVec.toNat_ushiftRight, odd, Nat.shiftRight_eq_div_pow]
  omega

/-- The screen after one cell is written. -/
def Screen.write (s : Screen) (p : Nat) (c attr : Byte) : Screen :=
  (s.put (2 * p) c).put (2 * p + 1) attr

theorem InPage.write {s : Screen} {p : Nat} {c attr : Byte} (h : p < 2000) :
    InPage s (s.write p c attr) :=
  ((InPage.refl s).put (by omega)).put (by omega)

/-- Any other character. -/
theorem putOther_eq {bx : BitVec 16} (here : bx.toNat < 2000) (c attr : Byte) (s : Screen) :
    putOther bx c attr s = if bx.toNat + 1 < 2000 then
      .ok (setCursor (bx + 1#16) (s.write bx.toNat c attr))
      else isCarriageReturn (bx + 1#16) (s.write bx.toNat c attr) := by
  obtain ⟨even, odd, back⟩ := cell_stores here
  have next : (bx + 1#16).toNat = bx.toNat + 1 := by
    rw [BitVec.toNat_add, BitVec.toNat_ofNat]
    omega
  simp only [putOther, even, odd, back, store_of_lt _ _ (show 2 * bx.toNat < 4000 by omega),
    store_of_lt _ _ (show 2 * bx.toNat + 1 < 4000 by omega), ok_bind,
    slt_2000 (show (bx + 1#16).toNat < 2 ^ 15 by omega), next]
  rfl

theorem toNat_pred {bx : BitVec 16} (pos : 0 < bx.toNat) : (bx - 1#16).toNat = bx.toNat - 1 :=
  BitVec.toNat_sub_of_le (by simp only [BitVec.le_def, BitVec.toNat_ofNat]; omega)

/-- A backspace behind the first cell. -/
theorem isBackspace_eq {bx : BitVec 16} (here : bx.toNat < 2000) (pos : 0 < bx.toNat) (s : Screen) :
    isBackspace bx s = .ok (setCursor (bx - 1#16) (s.write (bx.toNat - 1) 0x20 0x07)) := by
  have before : (bx - 1#16).toNat = bx.toNat - 1 := toNat_pred pos
  obtain ⟨even, odd, back⟩ := @cell_stores (bx - 1#16) (by omega)
  simp only [isBackspace, even, odd, back, before,
    store_of_lt _ _ (show 2 * (bx.toNat - 1) < 4000 by omega),
    store_of_lt _ _ (show 2 * (bx.toNat - 1) + 1 < 4000 by omega), ok_bind]
  rfl

/-- A backspace in the first cell: bx wraps round, and the store faults. -/
theorem isBackspace_zero (s : Screen) : isBackspace 0#16 s = .error (.generalProtection 0xfffe) :=
  rfl

/-! ## Calls -/

variable {call : Call} {s : Screen}

theorem right_of_newline (here : s.cursor.toNat < 2000) (newline : call.c = 0xd ∨ call.c = 0xa) :
    Right call s := by
  obtain ⟨s', calls, page, stays, scrolls⟩ := isCarriageReturn_spec (Nat.le_of_lt here) s
  have runs : putChar call.c call.attr s = .ok s' := by
    rw [← calls, putChar]
    rcases newline with h | h <;> simp [h]
  have goes : landing s.cursor.toNat call.c = (s.cursor.toNat / 80 + 1) * 80 := if_pos newline
  have types : typed s.video s.cursor.toNat call.c call.attr = s.video := if_pos newline
  rw [← goes] at stays scrolls
  rw [← types] at stays scrolls
  refine ⟨s', runs, ?_, page, stays, scrolls⟩
  by_cases fits : landing s.cursor.toNat call.c < 2000
  · have lands := (stays fits).1
    omega
  · have lands := (scrolls (Nat.not_lt.mp fits)).1
    omega

theorem right_of_backspace (here : s.cursor.toNat < 2000) (backspace : call.c = 0x8)
    (pos : 0 < s.cursor.toNat) : Right call s := by
  have newline : ¬ (call.c = 0xd ∨ call.c = 0xa) := by
    rw [backspace]
    decide
  have before : (s.cursor - 1#16).toNat = s.cursor.toNat - 1 := toNat_pred pos
  have goes : landing s.cursor.toNat call.c = s.cursor.toNat - 1 := by
    rw [landing, if_neg newline, if_pos backspace]
  have types : typed s.video s.cursor.toNat call.c call.attr =
      cell s.video (s.cursor.toNat - 1) 0x20 0x07 := by
    rw [typed, if_neg newline, if_pos backspace]
  have runs : putChar call.c call.attr s =
      .ok (setCursor (s.cursor - 1#16) (s.write (s.cursor.toNat - 1) 0x20 0x07)) := by
    rw [putChar, backspace]
    exact isBackspace_eq here pos s
  have page : InPage s (s.write (s.cursor.toNat - 1) 0x20 0x07) := InPage.write (by omega)
  refine ⟨_, runs, ?_, page.setCursor, fun _ => ?_, fun past => by omega⟩
  · rw [cursor_setCursor]
    omega
  · rw [cursor_setCursor, before, goes, types]
    exact ⟨rfl, rfl⟩

theorem right_of_other (here : s.cursor.toNat < 2000) (newline : ¬ (call.c = 0xd ∨ call.c = 0xa))
    (backspace : call.c ≠ 0x8) : Right call s := by
  have goes : landing s.cursor.toNat call.c = s.cursor.toNat + 1 := by
    rw [landing, if_neg newline, if_neg backspace]
  have types : typed s.video s.cursor.toNat call.c call.attr =
      cell s.video s.cursor.toNat call.c call.attr := by
    rw [typed, if_neg newline, if_neg backspace]
  have next : (s.cursor + 1#16).toNat = s.cursor.toNat + 1 := by
    rw [BitVec.toNat_add, BitVec.toNat_ofNat]
    omega
  have runs : putChar call.c call.attr s = putOther s.cursor call.c call.attr s := by
    rw [not_or] at newline
    rw [putChar, if_neg newline.1, if_neg newline.2, if_neg backspace]
  have page : InPage s (s.write s.cursor.toNat call.c call.attr) := InPage.write here
  rw [putOther_eq here] at runs
  by_cases fits : s.cursor.toNat + 1 < 2000
  · rw [if_pos fits] at runs
    refine ⟨_, runs, ?_, page.setCursor, fun _ => ?_, fun past => by omega⟩
    · rw [cursor_setCursor]
      omega
    · rw [cursor_setCursor, next, goes, types]
      exact ⟨rfl, rfl⟩
  · rw [if_neg fits] at runs
    obtain ⟨s', calls, rest, _, scrolls⟩ :=
      @isCarriageReturn_spec (s.cursor + 1#16) (by omega) (s.write s.cursor.toNat call.c call.attr)
    obtain ⟨last, rows⟩ := scrolls (by omega)
    refine ⟨s', runs.trans calls, by omega, page.trans rest, fun below => by omega,
      fun _ => ⟨last, ?_⟩⟩
    rw [types]
    exact rows

/-- A call on the screen is right, unless it is a backspace in the first cell. -/
theorem right_iff (here : s.cursor.toNat < 2000) :
    Right call s ↔ ¬ (call.c = 0x8 ∧ s.cursor.toNat = 0) := by
  constructor
  · rintro ⟨s', back, _⟩ ⟨backspace, first⟩
    have zero : s.cursor = 0#16 := BitVec.eq_of_toNat_eq first
    have traps : putChar call.c call.attr s = .error (.generalProtection 0xfffe) := by
      rw [putChar, backspace, zero]
      exact isBackspace_zero s
    rw [traps] at back
    cases back
  · intro cond
    by_cases newline : call.c = 0xd ∨ call.c = 0xa
    · exact right_of_newline here newline
    by_cases backspace : call.c = 0x8
    · exact right_of_backspace here backspace
        (Nat.pos_of_ne_zero fun zero => cond ⟨backspace, zero⟩)
    · exact right_of_other here newline backspace

/-- A run that only makes such calls stays on the screen as far as it has come. -/
theorem putChars_onScreen {calls : List Call} {s s' : Screen} (here : s.cursor.toNat < 2000)
    (runs : putChars calls s = .ok s') : s'.cursor.toNat < 2000 := by
  induction calls generalizing s with
  | nil => exact Except.ok.inj runs ▸ here
  | cons call calls ih =>
    obtain ⟨next, does, rest⟩ := bind_eq_ok.mp runs
    have right : Right call s := by
      rw [right_iff here]
      rintro ⟨backspace, first⟩
      have zero : s.cursor = 0#16 := BitVec.eq_of_toNat_eq first
      rw [putChar, backspace, zero] at does
      cases does
    obtain ⟨s₁, does', typed⟩ := right
    rw [does] at does'
    rw [Except.ok.inj does'] at rest
    exact ih typed.onScreen rest

/-- Without a backspace every run comes back. -/
theorem putChars_back {calls : List Call} {s : Screen} (here : s.cursor.toNat < 2000)
    (plain : ∀ call ∈ calls, call.c ≠ 0x8) : ∃ s', putChars calls s = .ok s' := by
  induction calls generalizing s with
  | nil => exact ⟨s, rfl⟩
  | cons call calls ih =>
    obtain ⟨next, does, typed⟩ : Right call s :=
      (right_iff here).mpr fun h => plain call List.mem_cons_self h.1
    obtain ⟨s', rest⟩ := ih typed.onScreen fun c hc => plain c (List.mem_cons_of_mem _ hc)
    exact ⟨s', by rw [putChars, does]; exact rest⟩

/-- So does printing a string without one. -/
theorem putStr_back {str : List Byte} {attr : Byte} {s : Screen} (here : s.cursor.toNat < 2000)
    (plain : 0x8#8 ∉ str) : ∃ s', putStr str attr s = .ok s' := by
  apply putChars_back here
  intro call hc
  obtain ⟨c, printed, rfl⟩ := List.mem_map.mp hc
  intro backspace
  have among : c ∈ str := List.takeWhile_subset _ printed
  rw [show c = 0x8#8 from backspace] at among
  exact plain among

/-- THE CURSOR AND THE PAGE. In a run of calls from a cursor on the screen every call that is
reached is right exactly when none of them is a backspace in the first cell. -/
theorem put_char_stays_iff (s : Screen) (here : s.cursor.toNat < 2000) (calls : List Call) :
    (∀ before call after s', calls = before ++ call :: after → putChars before s = .ok s' →
      Right call s') ↔
      ∀ before call after s', calls = before ++ call :: after → putChars before s = .ok s' →
        ¬ (call.c = 0x8 ∧ s'.cursor.toNat = 0) := by
  constructor
  · intro right before call after s' split runs
    exact (right_iff (putChars_onScreen here runs)).mp (right before call after s' split runs)
  · intro cond before call after s' split runs
    exact (right_iff (putChars_onScreen here runs)).mpr (cond before call after s' split runs)

/-- A blank screen with the cursor in the first cell. -/
def blankScreen : Screen := ⟨fun _ => 0x20, 0, 0, []⟩

theorem put_char_stays_iff_first :
    (∀ before call after s', [⟨0x41, 7⟩, ⟨0xa, 7⟩] = before ++ call :: after →
      putChars before blankScreen = .ok s' →
      Right call s') ↔
      ∀ before call after s', [⟨0x41, 7⟩, ⟨0xa, 7⟩] = before ++ call :: after →
        putChars before blankScreen = .ok s' →
        ¬ (call.c = 0x8 ∧ s'.cursor.toNat = 0) :=
  put_char_stays_iff blankScreen (by decide) [⟨0x41, 7⟩, ⟨0xa, 7⟩]

/-- A backspace in the first cell does not come back. -/
theorem backspace_leaves_page :
    ¬ ∀ s : Screen, s.cursor.toNat < 2000 → ∀ calls before call after s',
    calls = before ++ call :: after → putChars before s = .ok s' → Right call s' := by
  intro right
  obtain ⟨_, back, _⟩ := right blankScreen (by decide) [⟨0x8, 7⟩] [] ⟨0x8, 7⟩ [] blankScreen rfl rfl
  cases back

end SeekingOs.Print
