import Mathlib.Data.Fintype.Basic
import Mathlib.Data.Fintype.Prod
import SeekingOs.Shell.Pipe

/-!
# `device/keyboard.c`

The keyboard sends one byte per interrupt, and the handler puts the bytes of a key together. A
`Stroke` is a press or a release of a key with the buffer that each of its interrupts finds: readers
may have taken characters between any two of them.

The handler keeps one flag for the two keys of a class. `Desk` has the keys that are really held
beside the flags, and `modifiers_follow_keys_iff` says in which runs the two agree.
-/

namespace SeekingOs.Device

open Lib Thread

namespace Keyboard

/-- The code of a character. -/
def ord (c : Char) : UInt8 := c.toNat.toUInt8

/-! ## The table -/

def ctrlLMake : BitVec 16 := 0x1d
def ctrlRMake : BitVec 16 := 0xe01d
def shiftLMake : BitVec 16 := 0x2a
def shiftRMake : BitVec 16 := 0x36
def altLMake : BitVec 16 := 0x38
def altRMake : BitVec 16 := 0xe038
def capsLockMake : BitVec 16 := 0x3a

/-- `char_invisible` -/
def charInvisible : UInt8 := 0

/-- `keymap`: without and with shift, by the make code. -/
def keymap : List (UInt8 × UInt8) := [
  (0, 0), (0x1b, 0x1b),
  (ord '1', ord '!'), (ord '2', ord '@'), (ord '3', ord '#'), (ord '4', ord '$'),
  (ord '5', ord '%'), (ord '6', ord '^'),
  (ord '7', ord '&'), (ord '8', ord '*'), (ord '9', ord '('), (ord '0', ord ')'),
  (ord '-', ord '_'), (ord '=', ord '+'),
  -- 0x0e: backspace and tab
  (0x08, 0x08), (0x09, 0x09),
  (ord 'q', ord 'Q'), (ord 'w', ord 'W'), (ord 'e', ord 'E'), (ord 'r', ord 'R'),
  (ord 't', ord 'T'), (ord 'y', ord 'Y'),
  (ord 'u', ord 'U'), (ord 'i', ord 'I'), (ord 'o', ord 'O'), (ord 'p', ord 'P'),
  -- 0x1a: the square brackets with the curly ones, and enter
  (ord '[', 0x7b), (ord ']', 0x7d), (0x0d, 0x0d),
  -- 0x1d: left ctrl
  (charInvisible, charInvisible),
  (ord 'a', ord 'A'), (ord 's', ord 'S'), (ord 'd', ord 'D'), (ord 'f', ord 'F'),
  (ord 'g', ord 'G'), (ord 'h', ord 'H'),
  (ord 'j', ord 'J'), (ord 'k', ord 'K'), (ord 'l', ord 'L'),
  -- 0x28: the apostrophe with the double quote, and the grave accent
  (ord ';', ord ':'), (0x27, 0x22), (0x60, ord '~'),
  -- 0x2a: left shift; 0x2b: the backslash
  (charInvisible, charInvisible), (0x5c, ord '|'),
  (ord 'z', ord 'Z'), (ord 'x', ord 'X'), (ord 'c', ord 'C'), (ord 'v', ord 'V'),
  (ord 'b', ord 'B'), (ord 'n', ord 'N'),
  (ord 'm', ord 'M'), (ord ',', ord '<'), (ord '.', ord '>'), (ord '/', ord '?'),
  -- 0x36: right shift, the star of the keypad, left alt, the space bar and caps lock
  (charInvisible, charInvisible), (ord '*', ord '*'), (charInvisible, charInvisible),
    (ord ' ', ord ' '),
  (charInvisible, charInvisible)]

/-! ## The handler -/

/-- `ctrl_status`, `shift_status`, `alt_status`, `caps_lock_status` and `ext_scancode` -/
structure Flags where
  ctrlStatus : Bool
  shiftStatus : Bool
  altStatus : Bool
  capsLockStatus : Bool
  extScancode : Bool
  deriving DecidableEq, Repr

/-- Whether a make code chooses the second column of `keymap`. -/
def withShift (scancode : BitVec 16) (shiftDownLast capsLockLast : Bool) : Bool :=
  if scancode < 0x0e ∨ scancode = 0x29 ∨ scancode = 0x1a ∨ scancode = 0x1b ∨ scancode = 0x34 ∨
    scancode = 0x2b ∨
      scancode = 0x27 ∨ scancode = 0x28 ∨ scancode = 0x33 ∨ scancode = 0x35 then
    if shiftDownLast then true else false
  else
    if shiftDownLast && capsLockLast then false
    else if shiftDownLast || capsLockLast then true
    else false

/-- `cur_char` of a make code -/
def curChar (scancode : BitVec 16) (ctrlDownLast shiftDownLast capsLockLast : Bool) : UInt8 :=
  let shift := withShift scancode shiftDownLast capsLockLast
  let index := (scancode &&& 0x00ff).toNat
  let entry := keymap.getD index (0, 0)
  let c := if shift then entry.2 else entry.1
  if (ctrlDownLast ∧ c = ord 'l') ∨ (ctrlDownLast ∧ c = ord 'u') then c - ord 'a' else c

/-- The flags after a break code, by the make code of the key. -/
def released (makeCode : BitVec 16) (k : Flags) : Flags :=
  if makeCode = ctrlLMake ∨ makeCode = ctrlRMake then { k with ctrlStatus := false }
  else if makeCode = shiftLMake ∨ makeCode = shiftRMake then { k with shiftStatus := false }
  else if makeCode = altLMake ∨ makeCode = altRMake then { k with altStatus := false }
  else k

/-- The flags after the make code of a key without a character. -/
def pressed (scancode : BitVec 16) (k : Flags) : Flags :=
  if scancode = ctrlLMake ∨ scancode = ctrlRMake then { k with ctrlStatus := true }
  else if scancode = shiftLMake ∨ scancode = shiftRMake then { k with shiftStatus := true }
  else if scancode = altLMake ∨ scancode = altRMake then { k with altStatus := true }
  else if scancode = capsLockMake then { k with capsLockStatus := !k.capsLockStatus }
  else k

/-- What an interrupt leaves: the flags, the buffer and what is printed. -/
structure Reply where
  flags : Flags
  kbdBuf : Ioqueue
  printed : Option String

/-- `intr_keyboard_handler`, with the byte that port 0x60 holds -/
def intrKeyboardHandler (byte : BitVec 8) (k : Flags) (kbdBuf : Ioqueue) : Except Fault Reply :=
  let ctrlDownLast := k.ctrlStatus
  let shiftDownLast := k.shiftStatus
  let capsLockLast := k.capsLockStatus
  let scancode : BitVec 16 := byte.setWidth 16
  if scancode = 0xe0 then .ok ⟨{ k with extScancode := true }, kbdBuf, none⟩
  else
    let scancode := if k.extScancode then 0xe000 ||| scancode else scancode
    let k := { k with extScancode := false }
    let breakCode := scancode &&& 0x0080 != 0
    if breakCode then
      let makeCode := scancode &&& 0xff7f
      .ok ⟨released makeCode k, kbdBuf, none⟩
    else if (0x00 < scancode ∧ scancode < 0x3b) ∨ scancode = altRMake ∨ scancode = ctrlRMake then
      let c := curChar scancode ctrlDownLast shiftDownLast capsLockLast
      if c ≠ 0 then do
        assertThat false (kbdBuf.lock.sched.intr = false) "ioq_full" "intr_get_status() == INTR_OFF"
        if ¬ kbdBuf.ioqFull then
          let kbdBuf ← kbdBuf.call (.putchar c)
          return ⟨k, kbdBuf, none⟩
        else return ⟨k, kbdBuf, none⟩
      else .ok ⟨pressed scancode k, kbdBuf, none⟩
    else .ok ⟨k, kbdBuf, some "unknown key\n"⟩

/-! ## Keys -/

/-- A make code with a character in `keymap`. -/
abbrev Mapped := { code : Fin 59 // (keymap.getD code (0, 0)).1 ≠ 0 }

inductive Key where
  | shiftL
  | shiftR
  | ctrlL
  | ctrlR
  | altL
  | altR
  | capsLock
  | mapped (code : Mapped)
  deriving DecidableEq

/-- The make code of a key in scan code set 1, without its prefix. -/
def Key.make : Key → BitVec 8
  | .shiftL => 0x2a
  | .shiftR => 0x36
  | .ctrlL => 0x1d
  | .ctrlR => 0x1d
  | .altL => 0x38
  | .altR => 0x38
  | .capsLock => 0x3a
  | .mapped code => BitVec.ofNat 8 code.val

/-- Whether its codes have the prefix 0xe0. -/
def Key.extended : Key → Bool
  | .ctrlR => true
  | .altR => true
  | _ => false

/-- The other key of its class. -/
def Key.partner : Key → Option Key
  | .shiftL => some .shiftR
  | .shiftR => some .shiftL
  | .ctrlL => some .ctrlR
  | .ctrlR => some .ctrlL
  | .altL => some .altR
  | .altR => some .altL
  | _ => none

/-- A press or a release of a key; `early` is `kbd_buf` at the prefix, if there is one, and `late`
at the last byte. -/
structure Stroke where
  key : Key
  press : Bool
  early : Ioqueue
  late : Ioqueue

/-- The last byte that the keyboard sends. -/
def Stroke.byte (e : Stroke) : BitVec 8 := if e.press then e.key.make else e.key.make ||| 0x80

/-- The interrupts of a stroke. -/
def Stroke.handle (e : Stroke) (k : Flags) : Except Fault Reply :=
  if e.key.extended then do
    let r ← intrKeyboardHandler 0xe0 k e.early
    intrKeyboardHandler e.byte r.flags e.late
  else intrKeyboardHandler e.byte k e.late

/-- The handler's flags, and the truth: which keys are held, and whether caps lock is on. -/
structure Desk where
  flags : Flags
  held : Key → Bool
  caps : Bool

/-- No key is held, and nothing has been typed. -/
def Desk.start : Desk := ⟨⟨false, false, false, false, false⟩, fun _ => false, false⟩

/-- What happens to the truth. -/
def Desk.after (d : Desk) (e : Stroke) (flags : Flags) : Desk where
  flags := flags
  held := Function.update d.held e.key e.press
  caps := if e.key = .capsLock ∧ e.press then !d.caps else d.caps

/-- The machine of strokes. An interrupt finds interrupts off and no call of the buffer under way.
-/
def machine : Machine Desk Stroke Reply Fault where
  enabled _ e := Shell.Idle e.late
  step d e := do
    let r ← e.handle d.flags
    return (d.after e r.flags, r)

/-! ## What is to hold -/

/-- Every flag says of its class whether a key of it is held. -/
@[mk_iff] structure Follows (d : Desk) : Prop where
  shift : d.flags.shiftStatus = (d.held .shiftL || d.held .shiftR)
  ctrl : d.flags.ctrlStatus = (d.held .ctrlL || d.held .ctrlR)
  alt : d.flags.altStatus = (d.held .altL || d.held .altR)
  ext : d.flags.extScancode = false

/-- The character of a key: its entry by shift and, for a letter, by caps lock as well; with ctrl
the characters l and u become control codes. -/
def character (code : Mapped) (ctrl shift caps : Bool) : UInt8 :=
  let entry := keymap.getD code.val (0, 0)
  let letter := decide (ord 'a' ≤ entry.1 ∧ entry.1 ≤ ord 'z')
  let c := if shift != (letter && caps) then entry.2 else entry.1
  if ctrl ∧ (c = ord 'l' ∨ c = ord 'u') then c - ord 'a' else c

/-- What a stroke does to the buffer: a press of a key with a character puts that behind the others
when there is room, and nothing else changes it. -/
def Enters (entry : Entry Desk Stroke Reply) : Prop :=
  match entry.event.key, entry.event.press with
  | .mapped code, true =>
    if entry.event.late.ioqFull then entry.out.kbdBuf = entry.event.late
    else entry.out.kbdBuf.contents = entry.event.late.contents ++ [character code
      (entry.pre.held .ctrlL || entry.pre.held .ctrlR)
        (entry.pre.held .shiftL || entry.pre.held .shiftR) entry.pre.caps]
  | _, _ => entry.out.kbdBuf = entry.event.late

/-- The stroke does not release a key while the other one of its class is held. -/
def Alone (d : Desk) (e : Stroke) : Prop := e.press = true ∨ ∀ key, e.key.partner = some key →
  d.held key = false

/-! ## One stroke -/

/-- What a stroke does to the flags. -/
def Key.sets (key : Key) (press : Bool) (k : Flags) : Flags :=
  match key with
  | .shiftL => { k with shiftStatus := press }
  | .shiftR => { k with shiftStatus := press }
  | .ctrlL => { k with ctrlStatus := press }
  | .ctrlR => { k with ctrlStatus := press }
  | .altL => { k with altStatus := press }
  | .altR => { k with altStatus := press }
  | .capsLock => if press then { k with capsLockStatus := !k.capsLockStatus } else k
  | .mapped _ => k

/-- The scan code of a byte, put together with the prefix that may have come before. -/
def scancode (ext : Bool) (byte : BitVec 8) : BitVec 16 :=
  if ext then 0xe000 ||| byte.setWidth 16 else byte.setWidth 16

section Handler

variable {byte : BitVec 8} {k : Flags} {kbdBuf : Ioqueue}

/-- An interrupt with a break code. -/
theorem handler_break (other : byte.setWidth 16 ≠ (0xe0 : BitVec 16))
    (breaks : (scancode k.extScancode byte &&& 0x0080 != 0) = true) :
    intrKeyboardHandler byte k kbdBuf =
      .ok ⟨released (scancode k.extScancode byte &&& 0xff7f) { k with extScancode := false },
        kbdBuf, none⟩ := by
  unfold scancode at breaks ⊢
  simp only [intrKeyboardHandler, if_neg other, breaks, ↓reduceIte]

/-- An interrupt with a make code. -/
theorem handler_make (other : byte.setWidth 16 ≠ (0xe0 : BitVec 16))
    (makes : (scancode k.extScancode byte &&& 0x0080 != 0) = false)
    (known : (0x00 < scancode k.extScancode byte ∧ scancode k.extScancode byte < 0x3b) ∨
      scancode k.extScancode byte = altRMake ∨ scancode k.extScancode byte = ctrlRMake) :
    intrKeyboardHandler byte k kbdBuf =
      let c := curChar (scancode k.extScancode byte) k.ctrlStatus k.shiftStatus k.capsLockStatus
      if c ≠ 0 then do
        assertThat false (kbdBuf.lock.sched.intr = false) "ioq_full" "intr_get_status() == INTR_OFF"
        if ¬ kbdBuf.ioqFull then
          let kbdBuf ← kbdBuf.call (.putchar c)
          return ⟨{ k with extScancode := false }, kbdBuf, none⟩
        else return ⟨{ k with extScancode := false }, kbdBuf, none⟩
      else .ok ⟨pressed (scancode k.extScancode byte) { k with extScancode := false },
        kbdBuf, none⟩ := by
  unfold scancode at makes known ⊢
  simp only [intrKeyboardHandler, if_neg other, makes, Bool.false_eq_true, ↓reduceIte]
  rw [if_pos known]

end Handler

/-- The codes of the keys without a character. -/
theorem modifier_codes : ∀ key ∈ [Key.shiftL, .shiftR, .ctrlL, .ctrlR, .altL, .altR, .capsLock],
    ∀ ctrl shift alt caps : Bool,
    key.make.setWidth 16 ≠ (0xe0 : BitVec 16) ∧
    (key.make ||| 0x80).setWidth 16 ≠ (0xe0 : BitVec 16) ∧
    (scancode key.extended key.make &&& 0x0080 != 0) = false ∧
    (scancode key.extended (key.make ||| 0x80) &&& 0x0080 != 0) = true ∧
    ((0x00 < scancode key.extended key.make ∧ scancode key.extended key.make < 0x3b) ∨
      scancode key.extended key.make = altRMake ∨ scancode key.extended key.make = ctrlRMake) ∧
    curChar (scancode key.extended key.make) ctrl shift caps = 0 ∧
    pressed (scancode key.extended key.make) ⟨ctrl, shift, alt, caps, false⟩ =
      key.sets true ⟨ctrl, shift, alt, caps, false⟩ ∧
    released (scancode key.extended (key.make ||| 0x80) &&& 0xff7f)
      ⟨ctrl, shift, alt, caps, false⟩ =
      key.sets false ⟨ctrl, shift, alt, caps, false⟩ := by
  decide +kernel

/-- The codes of the keys with a character, and the character. -/
theorem mapped_codes : ∀ (code : Mapped) (ctrl shift alt caps : Bool),
    (Key.mapped code).make.setWidth 16 ≠ (0xe0 : BitVec 16) ∧
    ((Key.mapped code).make ||| 0x80).setWidth 16 ≠ (0xe0 : BitVec 16) ∧
    (scancode false (Key.mapped code).make &&& 0x0080 != 0) = false ∧
    (scancode false ((Key.mapped code).make ||| 0x80) &&& 0x0080 != 0) = true ∧
    (0x00 < scancode false (Key.mapped code).make ∧ scancode false (Key.mapped code).make < 0x3b) ∧
    curChar (scancode false (Key.mapped code).make) ctrl shift caps =
      character code ctrl shift caps ∧
    character code ctrl shift caps ≠ 0 ∧
    released (scancode false ((Key.mapped code).make ||| 0x80) &&& 0xff7f)
      ⟨ctrl, shift, alt, caps, false⟩ =
      ⟨ctrl, shift, alt, caps, false⟩ := by
  decide +kernel

/-- The flags before the last byte: a key with the prefix has sent that. -/
theorem handle_last {e : Stroke} {k : Flags} (plain : k.extScancode = false) :
    e.handle k = intrKeyboardHandler e.byte { k with extScancode := e.key.extended } e.late := by
  unfold Stroke.handle
  cases e.key.extended with
  | true => rfl
  | false =>
    rw [if_neg Bool.false_ne_true, ← plain]

/-- The keys without a character only set flags. -/
theorem handle_modifier {e : Stroke} {k : Flags} (plain : k.extScancode = false)
    (modifier : ∀ code, e.key ≠ .mapped code) :
    e.handle k = .ok ⟨e.key.sets e.press k, e.late, none⟩ := by
  have among : e.key ∈ [Key.shiftL, .shiftR, .ctrlL, .ctrlR, .altL, .altR, .capsLock] := by
    cases key : e.key with
    | mapped code => exact absurd key (modifier code)
    | _ => decide
  obtain ⟨ctrl, shift, alt, caps, ext⟩ := k
  cases plain
  obtain ⟨other, other', makes, breaks, known, silent, sets, clears⟩ :=
    modifier_codes e.key among ctrl shift alt caps
  rw [handle_last rfl, Stroke.byte]
  cases e.press with
  | true =>
    have runs :=
      @handler_make e.key.make ⟨ctrl, shift, alt, caps, e.key.extended⟩ e.late other makes known
    rw [if_pos rfl, runs]
    simp only [silent, ne_eq, not_true_eq_false, ↓reduceIte, sets]
  | false =>
    have runs :=
      @handler_break (e.key.make ||| 0x80) ⟨ctrl, shift, alt, caps, e.key.extended⟩
        e.late other' breaks
    rw [if_neg Bool.false_ne_true, runs, clears]

/-- The release of a key with a character does nothing. -/
theorem handle_release {code : Mapped} {k : Flags} (plain : k.extScancode = false)
    (early late : Ioqueue) :
    Stroke.handle ⟨.mapped code, false, early, late⟩ k = .ok ⟨k, late, none⟩ := by
  obtain ⟨ctrl, shift, alt, caps, ext⟩ := k
  cases plain
  obtain ⟨_, other, _, breaks, _, _, _, keeps⟩ := mapped_codes code ctrl shift alt caps
  rw [handle_last rfl]
  exact (handler_break other breaks).trans
    (congrArg (fun flags => Except.ok (Reply.mk flags late none)) keeps)

/-- The press of a key with a character goes to the buffer. -/
theorem handle_press {code : Mapped} {k : Flags} (plain : k.extScancode = false) (early : Ioqueue)
    {late : Ioqueue} (idle : Shell.Idle late) :
    ∃ q, Stroke.handle ⟨.mapped code, true, early, late⟩ k = .ok ⟨k, q, none⟩ ∧
      if late.ioqFull then q = late
      else q.contents = late.contents ++
        [character code k.ctrlStatus k.shiftStatus k.capsLockStatus] := by
  obtain ⟨ctrl, shift, alt, caps, ext⟩ := k
  cases plain
  obtain ⟨other, _, makes, _, known, char, visible, _⟩ := mapped_codes code ctrl shift alt caps
  have runs :=
    @handler_make (Key.mapped code).make ⟨ctrl, shift, alt, caps, false⟩ late other makes
      (Or.inl known)
  simp only [char, ne_eq, visible, not_false_eq_true, ↓reduceIte, assertThat_of idle.off,
    ok_bind] at runs
  rw [handle_last rfl]
  by_cases full : late.ioqFull
  · exact ⟨late, runs.trans (if_neg fun h => h full), by rw [if_pos full]⟩
  · obtain ⟨q, puts, _, contents⟩ := Shell.call_putchar idle full (character code ctrl shift caps)
    refine ⟨q, runs.trans ?_, by rw [if_neg full]; exact contents⟩
    rw [if_pos full, puts]
    rfl

/-- EVERY STROKE is handled, and sets the flags as its key does. -/
theorem handle_spec {e : Stroke} {k : Flags} (plain : k.extScancode = false)
    (idle : Shell.Idle e.late) :
    ∃ r, e.handle k = .ok r ∧ r.flags = e.key.sets e.press k ∧
      match e.key, e.press with
      | .mapped code, true =>
        if e.late.ioqFull then r.kbdBuf = e.late
        else r.kbdBuf.contents = e.late.contents ++
          [character code k.ctrlStatus k.shiftStatus k.capsLockStatus]
      | _, _ => r.kbdBuf = e.late := by
  obtain ⟨key, press, early, late⟩ := e
  cases key with
  | mapped code =>
    cases press with
    | true =>
      obtain ⟨q, runs, puts⟩ := @handle_press code _ plain early _ idle
      exact ⟨_, runs, rfl, puts⟩
    | false => exact ⟨_, handle_release plain early late, rfl, rfl⟩
  | _ => exact ⟨_, handle_modifier plain nofun, rfl, rfl⟩

/-! ## Runs -/

variable {d d' : Desk} {e : Stroke} {r : Reply} {tr : List (Entry Desk Stroke Reply)}

/-- Caps lock is always as it should be, and no prefix is left over. -/
structure Kept (d : Desk) : Prop where
  caps : d.flags.capsLockStatus = d.caps
  ext : d.flags.extScancode = false

theorem sets_ext (key : Key) (press : Bool) (k : Flags) :
    (key.sets press k).extScancode = k.extScancode := by
  cases key with
  | capsLock => cases press <;> rfl
  | _ => rfl

/-- A step of the machine, taken apart. -/
theorem step_ok (kept : Kept d) (en : machine.enabled d e) (st : machine.step d e = .ok (d', r)) :
    d' = d.after e (e.key.sets e.press d.flags) ∧ e.handle d.flags = .ok r := by
  obtain ⟨r', handles, last⟩ := bind_eq_ok.mp st
  obtain ⟨r'', handles', flags, _⟩ := handle_spec kept.ext en
  cases Except.ok.inj last
  rw [handles] at handles'
  cases Except.ok.inj handles'
  exact ⟨by rw [flags], handles⟩

theorem Kept.step (kept : Kept d) (en : machine.enabled d e) (st : machine.step d e = .ok (d', r)) :
    Kept d' := by
  obtain ⟨rfl, _⟩ := step_ok kept en st
  refine ⟨?_, (sets_ext _ _ _).trans kept.ext⟩
  have caps := kept.caps
  show (e.key.sets e.press d.flags).capsLockStatus = if e.key = .capsLock ∧
    e.press then !d.caps else d.caps
  cases key : e.key with
  | capsLock =>
    cases press : e.press with
    | true => simp [Key.sets, caps]
    | false => simp [Key.sets, caps]
  | _ => simpa [Key.sets] using caps

/-- The flags go on following the keys exactly when no key is released beside its partner. -/
theorem follows_after_iff (follows : Follows d) : Follows (d.after e (e.key.sets e.press d.flags)) ↔
    Alone d e := by
  obtain ⟨shift, ctrl, alt, ext⟩ := follows
  obtain ⟨key, press, early, late⟩ := e
  cases press with
  | true =>
    refine iff_of_true ?_ (Or.inl rfl)
    cases key <;> constructor <;> simp [Desk.after, Key.sets, shift, ctrl, alt, ext]
  | false =>
    cases key <;> simp [follows_iff, Alone, Key.partner, Desk.after, Key.sets, shift,
      ctrl, alt, ext]

/-- What a stroke enters, when the flags follow the keys before it. -/
theorem enters (kept : Kept d) (follows : Follows d) (en : machine.enabled d e)
    (st : machine.step d e = .ok (d', r)) : Enters ⟨d, e, r⟩ := by
  obtain ⟨_, handles⟩ := step_ok kept en st
  obtain ⟨r', handles', _, buffer⟩ := handle_spec kept.ext en
  rw [handles] at handles'
  cases Except.ok.inj handles'
  rw [follows.shift, follows.ctrl, kept.caps] at buffer
  exact buffer

theorem kept_start : Kept Desk.start := ⟨rfl, rfl⟩

/-- MODIFIERS. In every run from the start each stroke is handled, no prefix is left over, and the
flags follow the keys and every press enters its character exactly as long as no key of a class is
released while the other one is held. -/
theorem modifiers_follow_keys_iff {tr : List (Entry Desk Stroke Reply)} {d : Desk}
    (path : machine.Path Desk.start tr d) :
    (∀ e, machine.enabled d e → ∃ d' r, machine.step d e = .ok (d', r)) ∧
    d.flags.extScancode = false ∧
      ((Machine.Always Follows tr d ∧ ∀ entry ∈ tr, Enters entry) ↔ Machine.Meets Alone tr) := by
  have kept := (path.invariant kept_start Kept.step).1
  refine ⟨fun e en => ?_, kept.ext, ?_⟩
  · obtain ⟨r, handles, _⟩ := handle_spec kept.ext en
    exact ⟨d.after e r.flags, r, by show (e.handle d.flags >>= _) = _; rw [handles]; rfl⟩
  · have iff : Machine.Always Follows tr d ↔ Machine.Meets Alone tr := by
      apply path.always_iff kept_start ⟨rfl, rfl, rfl, rfl⟩ Kept.step
      intro s e s' o kept follows en st
      obtain ⟨rfl, _⟩ := step_ok kept en st
      exact follows_after_iff follows
    rw [← iff]
    have each : ∀ entry ∈ tr, Follows entry.pre → Enters entry :=
      path.each kept_start Kept.step fun kept en st follows => enters kept follows en st
    exact and_iff_left_of_imp fun always entry among => each entry among (always.1 entry among)

/-- The step of a key without a character. -/
theorem step_modifier (kept : Kept d) (modifier : ∀ code, e.key ≠ .mapped code) :
    machine.step d e = .ok (d.after e (e.key.sets e.press d.flags),
      ⟨e.key.sets e.press d.flags, e.late, none⟩) := by
  show (e.handle d.flags >>= _) = _
  rw [handle_modifier kept.ext modifier]
  rfl

/-- A stroke on an empty buffer. -/
def strokeOf (key : Key) (press : Bool) : Stroke := ⟨key, press, bootQueue, bootQueue⟩

/-- Left shift is pressed, then right shift. -/
theorem both_shifts : ∃ tr, machine.Path Desk.start tr
    ((Desk.start.after (strokeOf .shiftL true) ⟨false, true, false, false, false⟩).after
      (strokeOf .shiftR true)
      ⟨false, true, false, false, false⟩) :=
  ⟨_, (Machine.Path.start.step (e := strokeOf .shiftL true) Shell.bootQueue_idle
    (step_modifier ⟨rfl, rfl⟩ nofun)).step
    (e := strokeOf .shiftR true) Shell.bootQueue_idle (step_modifier ⟨rfl, rfl⟩ nofun)⟩

theorem modifiers_follow_keys_iff_shift :
    ∃ tr d, machine.Path Desk.start tr d ∧ d.held .shiftL = true ∧
    ((∀ e, machine.enabled d e → ∃ d' r, machine.step d e = .ok (d', r)) ∧
      d.flags.extScancode = false ∧
      ((Machine.Always Follows tr d ∧ ∀ entry ∈ tr, Enters entry) ↔ Machine.Meets Alone tr)) := by
  obtain ⟨tr, path⟩ := both_shifts
  exact ⟨tr, _, path, rfl, modifiers_follow_keys_iff path⟩

/-- Left shift is released while right shift is held: the flag is cleared. -/
theorem shift_flag_lost : ¬ ∀ tr d, machine.Path Desk.start tr d → Machine.Always Follows tr d ∧
    ∀ entry ∈ tr, Enters entry := by
  intro claim
  obtain ⟨tr, path⟩ := both_shifts
  have next :=
    path.step (e := strokeOf .shiftL false) Shell.bootQueue_idle (step_modifier ⟨rfl, rfl⟩ nofun)
  have shift : false = (false || true) := (claim _ _ next).1.2.shift
  cases shift

end Keyboard

end SeekingOs.Device
