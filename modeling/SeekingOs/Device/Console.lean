import SeekingOs.Lib.Serial
import SeekingOs.Kernel.Print
import SeekingOs.Thread.LockExclusion
import SeekingOs.Thread.Section

/-!
# `device/console.c`

Every function takes the lock of the console, prints and gives the lock back. Printing runs with
interrupts on: `put_char` reads the cursor from the controller, and until it has written the next
one another thread may come in. `str_color` and `char_color` are read under the lock and set by
anybody.

What stands on the screen is as if the calls had been made one after another.
-/

namespace SeekingOs.Device

open Lib Thread Print

/-! ## What the functions print -/

/-- A hexadecimal digit, as `put_int` makes it. -/
def hexDigit (d : Nat) : Byte :=
  if d > 9 then BitVec.ofNat 8 (d - 10 + 'A'.toNat) else BitVec.ofNat 8 (d + '0'.toNat)

/-- `put_int_buffer`, the highest digit first -/
def putIntBuffer (num : BitVec 32) : List Byte :=
  (List.range 8).map fun k => hexDigit (num.toNat / 16 ^ (7 - k) % 16)

/-- What `put_int` prints: the digits from the first that is not 0 on, or one 0. -/
def putIntText (num : BitVec 32) : List Byte :=
  match (putIntBuffer num).dropWhile (· = BitVec.ofNat 8 '0'.toNat) with
  | [] => [BitVec.ofNat 8 '0'.toNat]
  | digits => digits

/-- A call of `console_put_str`, `console_put_char` or `console_put_int` -/
inductive Printing where
  | str (text : List Byte)
  | char (charAsci : Byte)
  | int (num : BitVec 32)
  deriving DecidableEq, Repr

/-- The characters that are given to `put_char`. -/
def Printing.text : Printing → List Byte
  | .str text => text.takeWhile (· ≠ 0)
  | .char charAsci => [charAsci]
  | .int num => putIntText num

/-- `put_char` from where it has the cursor in bx. -/
def putCharAt (bx : BitVec 16) (c attr : Byte) (s : Screen) : Except Trap Screen :=
  if c = 0xd then isCarriageReturn bx s
  else if c = 0xa then isCarriageReturn bx s
  else if c = 0x8 then isBackspace bx s
  else putOther bx c attr s

theorem putChar_eq (c attr : Byte) (s : Screen) :
    putChar c attr s = putCharAt s.cursor c attr s := rfl

/-! ## The threads -/

/-- Where a thread is in a function of the console. -/
inductive ConsolePoint where
  | out
  /-- In `console_acquire`. -/
  | acquire (p : Printing)
  /-- The colour is read next. -/
  | load (p : Printing)
  /-- `put_char` of the first of `rest` comes next, or `console_realse`. -/
  | put (p : Printing) (attr : Byte) (rest : List Byte)
  /-- In `put_char` of the first of `rest`; the cursor was read. -/
  | putAt (bx : BitVec 16) (p : Printing) (attr c : Byte) (rest : List Byte)
  /-- In `console_realse`. -/
  | realse
  deriving DecidableEq, Repr

def ConsolePoint.stage : ConsolePoint → Stage
  | .out => .out
  | .acquire _ => .acquiring
  | .load _ | .put _ _ _ | .putAt _ _ _ _ _ => .inside
  | .realse => .releasing

/-- The console, its lock and the threads. -/
structure Console where
  lock : LockSched
  screen : Screen
  strColor : Byte
  charColor : Byte
  point : Addr → ConsolePoint
  /-- Ghost: what was printed, in which colour, in the order of the releases. -/
  history : List ((Printing × Byte) × Unit)

namespace Console

variable (s : Console)

/-- The current thread. -/
def cur : Addr := s.lock.sched.cur

/-- The current thread goes on at `p`. -/
def goTo (p : ConsolePoint) : Console := { s with point := Function.update s.point s.cur p }

/-- The attribute that is printed with; `put_int` has its own. -/
def color : Printing → Byte
  | .str _ => s.strColor
  | .char _ => s.charColor
  | .int _ => 0x07

/-- The next statement of the current thread. -/
def go : Except (Fault ⊕ Trap) Console :=
  match s.point s.cur with
  | .out => .ok s
  | .acquire p => .ok (s.goTo (.load p))
  | .load p => .ok (s.goTo (.put p (s.color p) p.text))
  | .put p attr (c :: rest) => .ok (s.goTo (.putAt s.screen.cursor p attr c rest))
  | .putAt bx p attr c rest => do
    let screen ← (putCharAt bx c attr s.screen).mapError .inr
    return { s.goTo (.put p attr rest) with screen }
  | .put p attr [] => do
    let lock ← s.lock.lockRelease.mapError .inl
    return { s.goTo .realse with lock, history := s.history ++ [((p, attr), ())] }
  | .realse => .ok (s.goTo .out)

end Console

/-- What can happen next. -/
inductive ConsoleEvent where
  /-- The current thread calls a function of the console. -/
  | call (p : Printing)
  /-- It executes the next statement of that function. -/
  | go
  /-- A statement of the lock's code, or a step of the scheduler. -/
  | lock (e : LockEvent)
  /-- `str_color` and `char_color` are set. -/
  | color (str char : Byte)
  deriving DecidableEq, Repr

/-- Whether an event can come next. -/
def consoleEnabled (s : Console) : ConsoleEvent → Prop
  | .call _ => (s.lock.sched.tasks s.cur).resume = .run ∧ s.cur ≠ s.lock.sched.idleThread ∧
      s.point s.cur = .out
  | .go => (s.lock.sched.tasks s.cur).resume = .run ∧ s.point s.cur ≠ .out ∧
      s.lock.point s.cur = .out
  | .lock e => Quiet e ∧ lockEnabled s.lock e
  | .color _ _ => True

instance (s : Console) (e : ConsoleEvent) : Decidable (consoleEnabled s e) := by
  cases e <;> unfold consoleEnabled <;> exact inferInstance

/-- One step. -/
def consoleStep (s : Console) : ConsoleEvent → Except (Fault ⊕ Trap) (Console × Unit)
  | .call p => .ok ({ s.goTo (.acquire p) with lock := s.lock.lockAcquire }, ())
  | .go => do return (← s.go, ())
  | .lock e => do
    let (lock, _) ← (lockStep s.lock e).mapError .inl
    return ({ s with lock }, ())
  | .color str char => .ok ({ s with strColor := str, charColor := char }, ())

/-- The console under the scheduler. -/
def consoleMachine : Machine Console ConsoleEvent Unit (Fault ⊕ Trap) :=
  ⟨consoleEnabled, consoleStep⟩

instance (s : Console) (e : ConsoleEvent) : Decidable (consoleMachine.enabled s e) :=
  inferInstanceAs (Decidable (consoleEnabled s e))

/-- `console_init`, on some screen -/
def consoleInit (sched : Sched) (screen : Screen) : Console where
  lock := lockInit sched
  screen := screen
  strColor := 0x07
  charColor := 0x07
  point _ := .out
  history := []

/-! ## One call after another -/

/-- The calls of `put_char` for some characters. -/
def calls (attr : Byte) (text : List Byte) : List Print.Call := text.map (⟨·, attr⟩)

/-- The whole call on a screen; where it traps, there is no screen afterwards. -/
def shown (p : Printing × Byte) (s : Screen) : Screen × Unit :=
  ((putChars (calls p.2 p.1.text) s).toOption.getD s, ())

/-- How far a thread that is at work has come on a screen. -/
def ConsolePoint.Shows (point : ConsolePoint) (before now : Screen) : Prop :=
  match point with
  | .put p attr rest => ∃ done, p.text = done ++ rest ∧ putChars (calls attr done) before = .ok now
  | .putAt bx p attr c rest =>
    bx = now.cursor ∧ ∃ done, p.text = done ++ c :: rest ∧
      putChars (calls attr done) before = .ok now
  | _ => now = before

/-- The screen is what the calls make of it that are over, and the thread at work has printed a
beginning of its own on top of that. -/
def InTurn (screen : Screen) (s : Console) : Prop :=
  ∃ before, Serial shown screen s.history before ∧
    (∀ t, (s.point t).stage = .inside → (s.point t).Shows before s.screen) ∧
    ((∀ t, (s.point t).stage ≠ .inside) → s.screen = before)

/-- NO MIXTURE. When nobody is at work, the screen is what the calls make of it one after another.
-/
structure Unmixed (screen : Screen) (s : Console) : Prop where
  alone : ∀ t u, (s.point t).stage = .inside → (s.point u).stage = .inside → t = u
  turn : InTurn screen s
  whole : (∀ t, (s.point t).stage ≠ .inside) →
    s.screen = s.history.foldl (fun now call => (shown call.1 now).1) screen

/-! ## The invariant -/

/-- THE INVARIANT. -/
structure Orderly (screen : Screen) (s : Console) : Prop where
  sectioned : ∃ owner, Sectioned s.lock owner fun t => (s.point t).stage
  turn : InTurn screen s

variable {s s' : Console} {screen : Screen} {sched : Sched}

theorem Orderly.unmixed (h : Orderly screen s) : Unmixed screen s := by
  obtain ⟨_, sectioned⟩ := h.sectioned
  refine ⟨fun t u ht hu => sectioned.alone ht hu, h.turn, fun none => ?_⟩
  obtain ⟨before, serial, -, rests⟩ := h.turn
  rw [rests none]
  exact serial.eq_foldl

theorem goTo_stage (p : ConsolePoint) :
    (fun t => ((s.goTo p).point t).stage) =
      Function.update (fun t => (s.point t).stage) s.lock.sched.cur p.stage := by
  funext t
  show (Function.update s.point s.lock.sched.cur p t).stage = _
  rw [Function.apply_update fun _ (q : ConsolePoint) => q.stage]

@[simp] theorem goTo_cur (p : ConsolePoint) : (s.goTo p).point s.cur = p := Function.update_self ..

theorem goTo_ne (p : ConsolePoint) {t : Addr} (ht : t ≠ s.cur) : (s.goTo p).point t = s.point t :=
  Function.update_of_ne ht ..

theorem putChars_snoc {l : List Print.Call} {call : Print.Call} {a b c : Screen}
    (h : putChars l a = .ok b) (hc : putChar call.c call.attr b = .ok c) :
    putChars (l ++ [call]) a = .ok c := by
  induction l generalizing a with
  | nil =>
    cases h
    show (putChar call.c call.attr b >>= _) = _
    rw [hc]
    rfl
  | cons d l ih =>
    obtain ⟨a', ha, hl⟩ := bind_eq_ok.mp h
    show (putChar d.c d.attr a >>= _) = _
    rw [ha]
    exact ih hl

theorem calls_snoc (attr : Byte) (done : List Byte) (c : Byte) :
    calls attr (done ++ [c]) = calls attr done ++ [⟨c, attr⟩] :=
  List.map_append

theorem shown_of {p : Printing} {attr : Byte} {a b : Screen}
    (h : putChars (calls attr p.text) a = .ok b) : shown (p, attr) a = (b, ()) := by
  unfold shown
  rw [h]
  rfl

/-- The thread at work takes one step: what was over is as before. -/
theorem Orderly.work (h : Orderly screen s) {p : ConsolePoint} {owner : Option Addr} {now : Screen}
    (sectioned : Sectioned s.lock owner fun t => (s.point t).stage)
    (hin : (s.point s.cur).stage = .inside) (hp : p.stage = .inside)
    (shows : ∀ before, (s.point s.cur).Shows before s.screen → p.Shows before now) :
    Orderly screen { s.goTo p with screen := now } := by
  obtain ⟨before, serial, works, rests⟩ := h.turn
  have fits := sectioned.fits s.cur
  have stages : (fun t => ((s.goTo p).point t).stage) = fun t => (s.point t).stage := by
    rw [goTo_stage, hp, ← hin]
    exact Function.update_eq_self _ _
  refine ⟨⟨owner, ?_⟩, before, serial, fun t ht => ?_, fun none => ?_⟩
  · show Sectioned s.lock owner fun t => ((s.goTo p).point t).stage
    rw [stages]
    exact sectioned
  · have hin' : (s.point t).stage = .inside := (congrFun stages t).symm.trans ht
    have self : t = s.cur := sectioned.alone hin' hin
    subst self
    show ((s.goTo p).point s.cur).Shows before now
    rw [goTo_cur]
    exact shows before (works _ hin)
  · refine absurd ?_ (none s.cur)
    show ((s.goTo p).point s.cur).stage = .inside
    rw [goTo_cur]
    exact hp

/-- The current thread goes on, and neither before nor after that is it at work. -/
theorem Orderly.aside (h : Orderly screen s) {p : ConsolePoint} {lock : LockSched}
    (hcur : (s.point s.cur).stage ≠ .inside) (hp : p.stage ≠ .inside)
    (sectioned : ∃ owner, Sectioned lock owner fun t => ((s.goTo p).point t).stage) :
    Orderly screen { s.goTo p with lock } := by
  obtain ⟨before, serial, works, rests⟩ := h.turn
  have other {t : Addr} (ht : ((s.goTo p).point t).stage = .inside) : t ≠ s.cur := by
    rintro rfl
    rw [goTo_cur] at ht
    exact hp ht
  refine ⟨sectioned, before, serial, fun t ht => ?_, fun none => rests fun t ht => ?_⟩
  · have hne := other ht
    show ((s.goTo p).point t).Shows before s.screen
    rw [goTo_ne p hne]
    refine works t ?_
    rw [← goTo_ne p hne]
    exact ht
  · have hne : t ≠ s.cur := fun e => hcur (e ▸ ht)
    refine none t ?_
    show ((s.goTo p).point t).stage = .inside
    rw [goTo_ne p hne]
    exact ht

/-- A statement of the functions of the console. -/
theorem go_keeps (h : Orderly screen s) (en : consoleEnabled s .go) :
    Ensures (fun f => ∃ trap, f = .inr trap) (Orderly screen) s.go := by
  obtain ⟨hrun, hout, hfree⟩ := en
  obtain ⟨owner, sectioned⟩ := h.sectioned
  unfold Console.go
  cases hp : s.point s.cur with
  | out => exact absurd hp hout
  | acquire p =>
    -- the lock is acquired: nobody else is at work, so the screen is the one that the calls before
    -- left
    have entered := sectioned.enter (by show (s.point s.cur).stage = _; rw [hp]; rfl) hfree
    obtain ⟨before, serial, works, rests⟩ := h.turn
    have stages := goTo_stage (s := s) (.load p)
    rw [show (ConsolePoint.load p).stage = .inside from rfl] at stages
    rw [← stages] at entered
    have self : ((s.goTo (.load p)).point s.cur).stage = .inside := by rw [goTo_cur]; rfl
    have none (t : Addr) : (s.point t).stage ≠ .inside := fun ht => by
      have hne : t ≠ s.cur := fun e => by rw [e, hp] at ht; cases ht
      refine hne (entered.alone ?_ self)
      show ((s.goTo (.load p)).point t).stage = .inside
      rw [goTo_ne _ hne]
      exact ht
    refine ⟨⟨owner, entered⟩, before, serial, fun t ht => ?_, fun no => absurd self (no s.cur)⟩
    rw [entered.alone ht self, goTo_cur]
    exact rests none
  | load p =>
    refine h.work sectioned (by rw [hp]; rfl) rfl fun before shows => ?_
    rw [hp] at shows
    exact ⟨[], rfl, congrArg Except.ok (Eq.symm shows)⟩
  | put p attr rest =>
    cases rest with
    | cons c rest =>
      refine h.work sectioned (by rw [hp]; rfl) rfl fun before shows => ?_
      rw [hp] at shows
      exact ⟨rfl, shows⟩
    | nil =>
      -- the call is over, and joins the history
      have hin : (s.point s.cur).stage = .inside := by rw [hp]; rfl
      obtain ⟨lock, hl, -, released⟩ := sectioned.release hrun hin
      obtain ⟨before, serial, works, rests⟩ := h.turn
      have shows := works _ hin
      rw [hp] at shows
      obtain ⟨done, htext, hdone⟩ := shows
      rw [List.append_nil] at htext
      rw [← htext] at hdone
      have none (t : Addr) : ((s.goTo .realse).point t).stage ≠ .inside := fun ht => by
        by_cases e : t = s.cur
        · rw [e, goTo_cur] at ht
          cases ht
        · rw [goTo_ne _ e] at ht
          exact e (sectioned.alone ht hin)
      dsimp only
      rw [hl]
      refine ⟨⟨owner, ?_⟩, s.screen, ?_, fun t ht => absurd ht (none t), fun _ => rfl⟩
      · show Sectioned lock owner fun t => ((s.goTo .realse).point t).stage
        rw [goTo_stage]
        exact released
      · exact serial.next_of rfl (congrArg Prod.fst (shown_of hdone))
  | putAt bx p attr c rest =>
    dsimp only
    cases hscreen : putCharAt bx c attr s.screen with
    | error trap => exact ⟨trap, rfl⟩
    | ok now =>
      refine h.work (p := .put p attr rest) sectioned (by rw [hp]; rfl) rfl fun before shows => ?_
      rw [hp] at shows
      obtain ⟨rfl, done, htext, hdone⟩ := shows
      refine ⟨done ++ [c], by rw [htext, List.append_assoc]; rfl, ?_⟩
      rw [calls_snoc]
      exact putChars_snoc hdone hscreen
  | realse =>
    have left := sectioned.leave (by show (s.point s.cur).stage = _; rw [hp]; rfl) hfree
    refine h.aside (by rw [hp]; decide) (p := .out) (by decide) ⟨owner, ?_⟩
    rw [goTo_stage]
    exact left

/-- ONE STEP. The only faults are those of the processor in `put_char`; no assertion of `sync.c`
fails. -/
theorem consoleStep_keeps (h : Orderly screen s) {e : ConsoleEvent} (en : consoleEnabled s e) :
    Ensures (fun f => ∀ g ∈ syncAsserts, f ≠ .inl g) (fun p => Orderly screen p.1)
      (consoleStep s e) := by
  unfold consoleStep
  obtain ⟨owner, sectioned⟩ := h.sectioned
  cases e with
  | call p =>
    obtain ⟨hrun, hidle, hout⟩ := en
    have acquired :=
      sectioned.acquire hrun hidle (by show (s.point s.cur).stage = _; rw [hout]; rfl)
    refine h.aside (by rw [hout]; exact fun e => (by cases e)) (fun e => (by cases e)) ⟨owner, ?_⟩
    rw [goTo_stage]
    exact acquired
  | go =>
    refine Ensures.bind ((go_keeps h en).weaken ?_) fun s' h' => h'
    rintro _ ⟨trap, rfl⟩ g -
    exact fun e => (by cases e)
  | lock e =>
    have quiet := sectioned.quiet en.1 en.2
    dsimp only
    cases hst : lockStep s.lock e with
    | error f =>
      rw [hst] at quiet
      intro g hg e
      cases e
      exact quiet hg
    | ok p =>
      rw [hst] at quiet
      exact ⟨quiet, h.turn⟩
  | color str char => exact ⟨h.sectioned, h.turn⟩

theorem consoleInit_orderly (held : Held (lockInit sched) none) :
    Orderly screen (consoleInit sched screen) where
  sectioned := ⟨none, lockInit_sectioned held⟩
  turn := ⟨screen, .start, fun _ ht => (nomatch ht), fun _ => rfl⟩

/-- THE RUN LEMMA. -/
theorem console_orderly (q : Queues sched) (fresh : ∀ t, ¬ InSemaDown (sched.tasks t).resume)
    {tr : List (Entry Console ConsoleEvent Unit)}
    (path : consoleMachine.Path (consoleInit sched screen) tr s) : Orderly screen s := by
  refine Machine.Reachable.invariant ⟨tr, path⟩ (consoleInit_orderly (lockInit_held q fresh)) ?_
  intro s e s' o h en st
  exact (consoleStep_keeps h en).of_ok st

/-- WHAT SEVERAL THREADS PRINT IS NOT MIXED, for any tasks and any order of their statements; and no
assertion of `sync.c` fails. -/
theorem console_unmixed (q : Queues sched) (fresh : ∀ t, ¬ InSemaDown (sched.tasks t).resume)
    {tr : List (Entry Console ConsoleEvent Unit)}
    (path : consoleMachine.Path (consoleInit sched screen) tr s) :
    Unmixed screen s ∧ ∀ e f, consoleEnabled s e → consoleStep s e = .error f →
      ∀ g ∈ syncAsserts, f ≠ .inl g := by
  have orderly := console_orderly q fresh path
  exact ⟨orderly.unmixed, fun e f en fault => (consoleStep_keeps orderly en).of_error fault⟩

/-- The timer takes the processor from `main` while it is in `put_char`; `init` wants to print a
number then, and waits until `main` has printed both its characters. -/
theorem console_unmixed_preempted :
    ∃ tr s, consoleMachine.Path (consoleInit (boot 0xc0101000 0xc0102000 fun _ => 1) blankScreen) tr
      s ∧
      (s.history.map (·.1.1) = [.str [0x41, 0x42], .int 10] ∧
        s.screen.stores = [0, 1, 2, 3, 4, 5]) ∧
      Unmixed blankScreen s := by
  obtain ⟨tr, s, path, -, -, done⟩ := Machine.replay_path consoleMachine (fun _ _ => True)
    (consoleInit (boot 0xc0101000 0xc0102000 fun _ => 1) blankScreen)
    (([.lock (.sched .intrEnable), .call (.str [0x41, 0x42]), .lock .statement, .lock .statement,
      .lock .statement,
      .go, .go, .go] : List ConsoleEvent) ++ List.replicate 31 (.lock (.sched .tick)) ++
      [.lock (.sched .goOn), .call (.int 10), .lock .statement,
        .lock (.sched .goOn), .lock (.sched .idleBlock), .lock (.sched .goOn), .go, .go, .go, .go,
        .lock .statement, .lock .statement, .lock .statement, .go, .lock (.sched .yield),
        .lock (.sched .goOn), .lock .statement, .lock .statement, .go, .go, .go, .go, .go])
    (fun _ s => s.history.map (·.1.1) = [.str [0x41, 0x42], .int 10] ∧
      s.screen.stores = [0, 1, 2, 3, 4, 5])
    (by decide +kernel)
  exact ⟨tr, s, path, done, (console_unmixed (boot_queues (by decide)) boot_fresh path).1⟩

end SeekingOs.Device
