import SeekingOs.Fs.Getcwd
import SeekingOs.Lib.Loop

/-!
# `wash_path` of `shell/buildin_cmd.c`

The names of a path are taken off one by one, and `new_abs_path` is the stack they are processed on:
a name is pushed behind a slash, `..` cuts the string at its last slash, `.` is dropped. A string is
the list of its characters, in an array with room for `size` of them and the `NUL`.

`process` is the same on a stack of names, and `washPath_eq` says that the string is always that
stack, written out.
-/

namespace SeekingOs.Shell

open Lib Fs

/-- `strcmp`; behind its last character a string has a `NUL`. -/
def strcmp : List Byte → List Byte → Int
  | [], [] => 0
  | [], b :: _ => if 0 < b.toInt then -1 else 1
  | a :: _, [] => if a.toInt < 0 then -1 else 1
  | a :: as, b :: bs => if a = b then strcmp as bs else if a.toInt < b.toInt then -1 else 1

/-- `strcat`, into an array of `size` characters. -/
def strcatTo (size : Nat) (dst src : List Byte) : Except Fault (List Byte) :=
  if dst.length + src.length < size then .ok (dst ++ src) else .error (.outOfBounds "strcat")

/-- `path_parse`, into a `name` of `MAX_PATH_LEN` characters that has been cleared. -/
def parseWide (pathName : List Byte) : Except Fault (Name × Option (List Byte)) :=
  if (parsedName pathName).length < maxPathLen then
    .ok (parsedName pathName, if parsedRest pathName = [] then none else some (parsedRest pathName))
  else .error (.outOfBounds "path_parse")

/-- The variables of the loop. -/
structure Wash where
  name : Name
  subPath : Option (List Byte)
  newAbsPath : List Byte

/-- What one name does to `new_abs_path`. -/
def washName (size : Nat) (newAbsPath : List Byte) (name : Name) : Except Fault (List Byte) :=
  if strcmp dotDotName name = 0 then
    match strrchr slash newAbsPath 0 none with
    | none => .error (.pageFault "wash_path")
    | some slashPtr =>
      if slashPtr ≠ 0 then .ok (newAbsPath.take slashPtr) else .ok (newAbsPath.take (slashPtr + 1))
  else if strcmp dotName name ≠ 0 then do
    let newAbsPath ← if strcmp newAbsPath [slash] ≠ 0 then strcatTo size newAbsPath [slash]
        else .ok newAbsPath
    strcatTo size newAbsPath name
  else .ok newAbsPath

/-- A turn of the loop of `wash_path` -/
def washTurn (size : Nat) (w : Wash) : Except Fault (Turn Wash (List Byte)) :=
  if w.name = [] then .ok (.leave w.newAbsPath)
  else do
    let newAbsPath ← washName size w.newAbsPath w.name
    -- `name` is cleared, and stays so at the end of the path
    match w.subPath with
    | none => return .again ⟨[], none, newAbsPath⟩
    | some subPath =>
      let (name, subPath) ← parseWide subPath
      return .again ⟨name, subPath, newAbsPath⟩

/-- `wash_path`; what it answers is in `new_abs_path`. -/
def washPath (turns size : Nat) (oldAbsPath : List Byte) : Except (Cut Fault) (List Byte) := do
  once (assertThat false (oldAbsPath.head? = some slash) "wash_path" "old_abs_path[0] == '/'")
  let (name, subPath) ← once (parseWide oldAbsPath)
  if name = [] then
    return [slash]
  let newAbsPath ← once (strcatTo size [] [slash])
  whileLoop (washTurn size) turns ⟨name, subPath, newAbsPath⟩

/-! ## The stack -/

/-- What a name does to the stack; the top is at the end. -/
def process (stack : List Name) (name : Name) : List Name :=
  if name = dotDotName then stack.dropLast else if name = dotName then stack else stack ++ [name]

/-- The stack when every name of a path has been processed. -/
def washed (pathName : List Byte) : List Name := (components pathName).foldl process []

/-- A name that may be on the stack. -/
structure Pushed (name : Name) : Prop where
  nonempty : name ≠ []
  noSlash : slash ∉ name
  noDot : name ≠ dotName
  noDotDot : name ≠ dotDotName

theorem strcmp_eq_zero {a b : List Byte} : strcmp a b = 0 ↔ a = b := by
  induction a generalizing b with
  | nil =>
    cases b with
    | nil => exact iff_of_true rfl rfl
    | cons c b =>
      refine iff_of_false ?_ nofun
      unfold strcmp
      split <;> decide
  | cons c a ih =>
    cases b with
    | nil =>
      refine iff_of_false ?_ nofun
      unfold strcmp
      split <;> decide
    | cons d b =>
      unfold strcmp
      by_cases same : c = d
      · rw [if_pos same, ih, List.cons.injEq, and_iff_right same]
      · refine iff_of_false ?_ fun e => same (List.cons.inj e).1
        rw [if_neg same]
        split <;> decide

variable {stack names : List Name} {name : Name} {size : Nat}

theorem length_joined (names : List Name) : (joined names).length = pathLength names := by
  induction names with
  | nil => rfl
  | cons name names ih =>
    rw [joined_cons, List.length_append, List.length_cons, ih, pathLength_cons]

/-- The stack written out is a slash and the names with slashes between. -/
theorem fullPath_eq (names : List Name) : fullPath names = slash :: [slash].intercalate names := by
  cases names with
  | nil => rfl
  | cons name names =>
    show joined (name :: names) = _
    induction names generalizing name with
    | nil => simp
    | cons next names ih =>
      rw [joined_cons, ih next, List.intercalate_cons_cons]
      simp

theorem fullPath_of_ne (ne : stack ≠ []) : fullPath stack = joined stack := if_neg ne

theorem length_fullPath (stack : List Name) :
    (fullPath stack).length = max 1 (pathLength stack) := by
  cases stack with
  | nil => rfl
  | cons name stack =>
    rw [fullPath_of_ne (List.cons_ne_nil _ _), length_joined, pathLength_cons]
    omega

/-- Only the empty stack is written as a lone slash. -/
theorem fullPath_root (pushed : ∀ n ∈ stack, Pushed n) : fullPath stack = [slash] ↔ stack = [] := by
  cases stack with
  | nil => exact iff_of_true rfl rfl
  | cons name stack =>
    refine iff_of_false (fun e => ?_) (List.cons_ne_nil _ _)
    have long := congrArg List.length e
    have pos := List.length_pos_iff.mpr (pushed name List.mem_cons_self).nonempty
    rw [length_fullPath, pathLength_cons, List.length_singleton] at long
    omega

/-! ## One name -/

theorem strcatTo_of_lt {dst src : List Byte} (h : dst.length + src.length < size) :
    strcatTo size dst src = .ok (dst ++ src) := if_pos h

/-- `..` cuts the string where the last name began. -/
theorem washName_dotDot (pushed : ∀ n ∈ stack, Pushed n) :
    washName size (fullPath stack) dotDotName = .ok (fullPath stack.dropLast) := by
  rw [washName, if_pos (strcmp_eq_zero.mpr rfl)]
  rcases List.eq_nil_or_concat stack with rfl | ⟨under, top, rfl⟩
  · rfl
  · have plain := (pushed top (by simp)).noSlash
    have shape : fullPath (under ++ [top]) = joined under ++ slash :: top := by
      rw [fullPath_of_ne (by simp), joined_append]
      simp
    rw [List.concat_eq_append, shape, strrchr_joined plain, List.dropLast_concat]
    dsimp only
    by_cases empty : under = []
    · subst empty
      rfl
    · have pos : (joined under).length ≠ 0 := by
        obtain ⟨n, rest, rfl⟩ := List.exists_cons_of_ne_nil empty
        simp
      rw [if_pos pos, List.take_left, fullPath_of_ne empty]

/-- `.` is dropped. -/
theorem washName_dot (newAbsPath : List Byte) :
    washName size newAbsPath dotName = .ok newAbsPath := by
  have other : strcmp dotDotName dotName ≠ 0 := by decide
  have same : ¬ strcmp dotName dotName ≠ 0 := by decide
  rw [washName, if_neg other, if_neg same]

/-- Any other name is pushed, behind a slash of its own or behind that of the root. -/
theorem washName_push (pushed : ∀ n ∈ stack, Pushed n) (ne : name ≠ dotName)
    (ne' : name ≠ dotDotName) (room : pathLength stack + (name.length + 1) < size) :
    washName size (fullPath stack) name = .ok (fullPath (stack ++ [name])) := by
  have other : strcmp dotDotName name ≠ 0 := fun e => ne' (strcmp_eq_zero.mp e).symm
  have other' : strcmp dotName name ≠ 0 := fun e => ne (strcmp_eq_zero.mp e).symm
  have shape : fullPath (stack ++ [name]) = joined stack ++ slash :: name := by
    rw [fullPath_of_ne (by simp), joined_append]
    simp
  rw [washName, if_neg other, if_pos other', shape]
  by_cases root : stack = []
  · subst root
    have lone : ¬ strcmp (fullPath []) [slash] ≠ 0 := not_not.mpr (strcmp_eq_zero.mpr rfl)
    have fits : (fullPath []).length + name.length < size := by
      rw [pathLength_nil] at room
      rw [length_fullPath, pathLength_nil]
      omega
    rw [if_neg lone, ok_bind]
    exact strcatTo_of_lt fits
  · have longer : strcmp (fullPath stack) [slash] ≠ 0 :=
      fun e => root ((fullPath_root pushed).mp (strcmp_eq_zero.mp e))
    have fits : (joined stack).length + [slash].length < size := by
      rw [length_joined, List.length_singleton]
      omega
    have fits' : (joined stack ++ [slash]).length + name.length < size := by
      rw [List.length_append, length_joined, List.length_singleton]
      omega
    rw [if_pos longer, fullPath_of_ne root, strcatTo_of_lt fits, ok_bind]
    exact (strcatTo_of_lt fits').trans (by rw [List.append_assoc]; rfl)

/-- What a name does to the stack it does to the string. -/
theorem washName_eq (pushed : ∀ n ∈ stack, Pushed n)
    (room : pathLength stack + (name.length + 1) < size) :
    washName size (fullPath stack) name = .ok (fullPath (process stack name)) := by
  unfold process
  by_cases up : name = dotDotName
  · rw [if_pos up, up]
    exact washName_dotDot pushed
  by_cases same : name = dotName
  · rw [if_neg up, if_pos same, same]
    exact washName_dot _
  · rw [if_neg up, if_neg same]
    exact washName_push pushed same up room

theorem process_pushed (pushed : ∀ n ∈ stack, Pushed n) (ne : name ≠ []) (plain : slash ∉ name) :
    ∀ n ∈ process stack name, Pushed n := by
  intro n hn
  unfold process at hn
  split at hn
  next => exact pushed n (List.dropLast_subset _ hn)
  next up =>
    split at hn
    next => exact pushed n hn
    next same =>
      rcases List.mem_append.mp hn with hn | hn
      · exact pushed n hn
      · rw [List.mem_singleton.mp hn]
        exact ⟨ne, plain, same, up⟩

theorem pathLength_process (stack : List Name) (name : Name) :
    pathLength (process stack name) ≤ pathLength stack + (name.length + 1) := by
  unfold process
  split
  next =>
    rcases List.eq_nil_or_concat stack with rfl | ⟨under, top, rfl⟩
    · exact Nat.zero_le _
    · rw [List.concat_eq_append, List.dropLast_concat, pathLength_append]
      omega
  next =>
    split
    next => exact Nat.le_add_right _ _
    next => rw [pathLength_append, pathLength_cons, pathLength_nil]

/-- Names that may be on the stack stay there. -/
theorem process_all (pushed : ∀ n ∈ names, Pushed n) (stack : List Name) :
    names.foldl process stack = stack ++ names := by
  induction names generalizing stack with
  | nil => exact (List.append_nil stack).symm
  | cons name names ih =>
    have this := pushed name List.mem_cons_self
    have step : process stack name = stack ++ [name] := by
      rw [process, if_neg this.noDotDot, if_neg this.noDot]
    rw [List.foldl_cons, step, ih (fun n hn => pushed n (List.mem_cons_of_mem _ hn)),
      List.append_assoc]
    rfl

/-! ## The loop -/

/-- The names that are still to come. -/
def Wash.left (w : Wash) : List Name :=
  if w.name = [] then [] else w.name :: (w.subPath.map components).getD []

/-- THE INVARIANT of the loop: the string is a stack written out, the name at hand is one of the
path's, and there is room for the stack and all names that are left. -/
structure Wash.Inv (size : Nat) (w : Wash) (stack : List Name) : Prop where
  string : w.newAbsPath = fullPath stack
  pushed : ∀ n ∈ stack, Pushed n
  plain : slash ∉ w.name
  short : ∀ p ∈ w.subPath, p.length < maxPathLen
  room : pathLength stack + pathLength w.left < size

/-- How much there is still to go. -/
def Wash.measure (w : Wash) : Nat :=
  match w.subPath with
  | some subPath => subPath.length + 2
  | none => if w.name = [] then 0 else 1

/-- What `path_parse` gives, of a path shorter than 512. -/
theorem parseWide_eq {pathName : List Byte} (short : pathName.length < maxPathLen) :
    parseWide pathName = .ok (parsedName pathName, if parsedRest pathName = [] then none
      else some (parsedRest pathName)) := by
  have split :=
    congrArg List.length (List.takeWhile_append_dropWhile (p := (· != slash))
      (l := skipSlashes pathName))
  have skip := List.length_dropWhile_le (· == slash) pathName
  rw [List.length_append] at split
  exact if_pos (by unfold parsedName skipSlashes at *; omega)

theorem parsedName_plain (pathName : List Byte) : slash ∉ parsedName pathName := by
  intro h
  have other := List.mem_takeWhile_imp h
  simp at other

theorem components_fullPath (pushed : ∀ n ∈ stack, Pushed n) :
    components (fullPath stack) = stack := by
  cases stack with
  | nil => rfl
  | cons name stack =>
    rw [fullPath_of_ne (List.cons_ne_nil _ _)]
    exact components_joined fun n hn => ⟨(pushed n hn).nonempty, (pushed n hn).noSlash⟩

/-- What `path_parse` has put together: the name and where to go on. -/
def parsed (pathName newAbsPath : List Byte) : Wash :=
  ⟨parsedName pathName, if parsedRest pathName = [] then none
    else some (parsedRest pathName), newAbsPath⟩

theorem left_parsed (pathName newAbsPath : List Byte) :
    (parsed pathName newAbsPath).left = components pathName := by
  rw [components_parsed, Wash.left, parsed]
  by_cases none : parsedName pathName = []
  · rw [if_pos none, if_pos none]
  · rw [if_neg none, if_neg none]
    by_cases last : parsedRest pathName = []
    · rw [if_pos last, last]
      rfl
    · rw [if_neg last]
      rfl

theorem parsed_inv {pathName : List Byte} (pushed : ∀ n ∈ stack, Pushed n)
    (short : pathName.length < maxPathLen)
    (room : pathLength stack + pathLength (components pathName) < size) :
    (parsed pathName (fullPath stack)).Inv size stack where
  string := rfl
  pushed := pushed
  plain := parsedName_plain pathName
  short p hp := by
    have skip := List.length_dropWhile_le (· == slash) pathName
    have rest := List.length_dropWhile_le (· != slash) (skipSlashes pathName)
    simp only [Shell.parsed] at hp
    split at hp
    next => cases hp
    next =>
      cases hp
      unfold parsedRest skipSlashes at *
      omega
  room := by
    rw [left_parsed]
    exact room

theorem measure_parsed (pathName newAbsPath : List Byte) :
    (parsed pathName newAbsPath).measure < pathName.length + 2 := by
  unfold Wash.measure parsed
  by_cases last : parsedRest pathName = []
  · rw [if_pos last]
    dsimp only
    split <;> omega
  · rw [if_neg last]
    have more : skipSlashes pathName ≠ [] :=
      fun skipped => last (by unfold parsedRest; rw [skipped]; rfl)
    have less := length_afterWord_lt more
    unfold parsedRest skipSlashes
    dsimp only
    omega

/-- THE LOOP answers the stack of all names, written out. -/
theorem washLoop_eq {w : Wash} {turns : Nat} (inv : w.Inv size stack) (enough : w.measure < turns) :
    whileLoop (washTurn size) turns w = .ok (fullPath (w.left.foldl process stack)) := by
  have same := components_fullPath inv.pushed
  rw [← inv.string] at same
  rw [← same] at inv ⊢
  refine whileLoop_eq (fun w : Wash => w.Inv size (components w.newAbsPath)) Wash.measure
    (fun w => fullPath (w.left.foldl process (components w.newAbsPath))) ?_ inv enough
  intro w inv
  by_cases done : w.name = []
  · left
    rw [washTurn, if_pos done, Wash.left, if_pos done, List.foldl_nil, ← inv.string]
  · right
    have left : w.left = w.name :: (w.subPath.map components).getD [] := if_neg done
    have room := inv.room
    rw [left, pathLength_cons] at room
    have step : washName size w.newAbsPath w.name =
        .ok (fullPath (process (components w.newAbsPath) w.name)) := by
      have eq : washName size (fullPath (components w.newAbsPath)) w.name = _ :=
        washName_eq inv.pushed (by omega)
      rwa [← inv.string] at eq
    have pushed := process_pushed inv.pushed done inv.plain
    have back := components_fullPath pushed
    have grown := pathLength_process (components w.newAbsPath) w.name
    cases sub : w.subPath with
    | none =>
      rw [sub] at room left
      refine ⟨⟨[], none, fullPath (process (components w.newAbsPath) w.name)⟩, ?_, ?_, ?_, ?_⟩
      · rw [washTurn, if_neg done, step, ok_bind, sub]
        rfl
      · refine ⟨?_, ?_, List.not_mem_nil, nofun, ?_⟩
        · rw [back]
        · rw [back]
          exact pushed
        · rw [back]
          show _ + 0 < size
          omega
      · rw [left, back]
        rfl
      · rw [Wash.measure, Wash.measure, sub, if_pos rfl, if_neg done]
        exact Nat.one_pos
    | some subPath =>
      rw [sub] at room left
      have short := inv.short subPath (by rw [sub]; rfl)
      have room' : pathLength (process (components w.newAbsPath) w.name) +
          pathLength (components subPath) < size := by
        have all : pathLength ((Option.map components (some subPath)).getD []) =
            pathLength (components subPath) := rfl
        omega
      refine ⟨parsed subPath (fullPath (process (components w.newAbsPath) w.name)), ?_, ?_, ?_, ?_⟩
      · rw [washTurn, if_neg done, step, ok_bind, sub]
        show (parseWide subPath >>= _) = _
        rw [parseWide_eq short]
        rfl
      · show Wash.Inv size _ (components (fullPath _))
        rw [back]
        exact parsed_inv pushed short room'
      · show fullPath ((parsed subPath _).left.foldl process (components (fullPath _))) = _
        rw [left_parsed, back, left]
        rfl
      · have less := measure_parsed subPath (fullPath (process (components w.newAbsPath) w.name))
        have this : w.measure = subPath.length + 2 := by rw [Wash.measure, sub]
        omega

/-! ## The whole -/

/-- WHAT IS ANSWERED. -/
theorem washPath_eq {oldAbsPath : List Byte} {turns : Nat}
    (absolute : oldAbsPath.head? = some slash) (short : oldAbsPath.length < maxPathLen)
    (fits : maxPathLen ≤ size) (enough : oldAbsPath.length + 1 < turns) :
    washPath turns size oldAbsPath = .ok (fullPath (washed oldAbsPath)) := by
  have room : pathLength (components oldAbsPath) < size := by
    obtain ⟨tail, rfl⟩ : ∃ tail, oldAbsPath = slash :: tail := by
      cases oldAbsPath with
      | nil => cases absolute
      | cons c tail => exact ⟨tail, by rw [Option.some.inj absolute]⟩
    exact Nat.lt_of_le_of_lt (pathLength_components _ (.inr ⟨tail, rfl⟩))
      (Nat.lt_of_lt_of_le short fits)
  rw [washPath, assertThat_of absolute, once_ok, ok_bind, parseWide_eq short, once_ok, ok_bind]
  dsimp only
  by_cases root : parsedName oldAbsPath = []
  · rw [if_pos root, washed, components_parsed, if_pos root]
    rfl
  · have start : strcatTo size [] [slash] = .ok (fullPath []) :=
      strcatTo_of_lt (Nat.lt_of_lt_of_le (by decide) fits)
    rw [if_neg root, start, once_ok, ok_bind]
    have inv : (parsed oldAbsPath (fullPath [])).Inv size [] :=
      parsed_inv (fun n hn => absurd hn List.not_mem_nil) short
        (by rw [pathLength_nil, Nat.zero_add]; exact room)
    have measure := measure_parsed oldAbsPath (fullPath [])
    have loop := washLoop_eq inv (Nat.lt_of_lt_of_le measure enough)
    rw [left_parsed] at loop
    exact loop

theorem washed_pushed (pathName : List Byte) : ∀ n ∈ washed pathName, Pushed n := by
  have valid : ∀ name ∈ components pathName, name ≠ [] ∧ slash ∉ name :=
    fun name hn => words_plain hn
  have run : ∀ (names stack : List Name), (∀ name ∈ names, name ≠ [] ∧ slash ∉ name) →
      (∀ n ∈ stack, Pushed n) →
      ∀ n ∈ names.foldl process stack, Pushed n := by
    intro names
    induction names with
    | nil => exact fun stack _ pushed => pushed
    | cons name names ih =>
      intro stack valid pushed
      obtain ⟨ne, plain⟩ := valid name List.mem_cons_self
      exact ih (process stack name) (fun n hn => valid n (List.mem_cons_of_mem _ hn))
        (process_pushed pushed ne plain)
  exact run (components pathName) [] valid fun n hn => absurd hn List.not_mem_nil

theorem pathLength_foldl (names stack : List Name) :
    pathLength (names.foldl process stack) ≤ pathLength stack + pathLength names := by
  induction names generalizing stack with
  | nil => exact Nat.le_refl _
  | cons name names ih =>
    have step := pathLength_process stack name
    have rest := ih (process stack name)
    rw [List.foldl_cons, pathLength_cons]
    omega

/-- WASHING A PATH. It comes to an end with the names of the path processed on a stack, written out
with slashes; none of these names is empty, `.` or `..`; the result is not longer than the path, and
washing it gives it again. -/
theorem wash_path_normalises (oldAbsPath : List Byte) (turns size : Nat)
    (absolute : oldAbsPath.head? = some slash) (short : oldAbsPath.length < maxPathLen)
    (fits : maxPathLen ≤ size) (enough : oldAbsPath.length + 1 < turns) :
    ∃ newAbsPath, washPath turns size oldAbsPath = .ok newAbsPath ∧
      newAbsPath = slash :: [slash].intercalate (washed oldAbsPath) ∧
      (∀ n ∈ washed oldAbsPath, Pushed n) ∧
      newAbsPath.length ≤ oldAbsPath.length ∧ washPath turns size newAbsPath = .ok newAbsPath := by
  have pushed := washed_pushed oldAbsPath
  obtain ⟨tail, rfl⟩ : ∃ tail, oldAbsPath = slash :: tail := by
    cases oldAbsPath with
    | nil => cases absolute
    | cons c tail => exact ⟨tail, by rw [Option.some.inj absolute]⟩
  have shorter : (fullPath (washed (slash :: tail))).length ≤ (slash :: tail).length := by
    have names := pathLength_components (slash :: tail) (.inr ⟨tail, rfl⟩)
    have stack := pathLength_foldl (components (slash :: tail)) []
    rw [pathLength_nil, Nat.zero_add] at stack
    rw [length_fullPath, List.length_cons] at *
    exact max_le (Nat.succ_le_succ (Nat.zero_le _)) (Nat.le_trans stack names)
  have again : washed (fullPath (washed (slash :: tail))) = washed (slash :: tail) := by
    rw [washed, components_fullPath pushed, process_all pushed]
    rfl
  refine ⟨_, washPath_eq absolute short fits enough, fullPath_eq _, pushed, shorter, ?_⟩
  have second : (fullPath (washed (slash :: tail))).head? = some slash := by rw [fullPath_eq]; rfl
  rw [washPath_eq second (Nat.lt_of_le_of_lt shorter short) fits (by omega), again]

/-- `//a/./b/../..//c` -/
theorem wash_path_normalises_c :
    ∃ newAbsPath, washPath 18 512 [47, 47, 97, 47, 46, 47, 98, 47, 46, 46, 47, 46, 46, 47, 47, 99] =
      .ok newAbsPath ∧
    newAbsPath = slash :: [slash].intercalate
      (washed [47, 47, 97, 47, 46, 47, 98, 47, 46, 46, 47, 46, 46, 47, 47, 99]) ∧
    (∀ n ∈ washed [47, 47, 97, 47, 46, 47, 98, 47, 46, 46, 47, 46, 46, 47, 47, 99], Pushed n) ∧
    newAbsPath.length ≤ 16 ∧ washPath 18 512 newAbsPath = .ok newAbsPath :=
  wash_path_normalises [47, 47, 97, 47, 46, 47, 98, 47, 46, 46, 47, 46, 46, 47, 47, 99] 18 512 rfl
    (by decide) (by decide) (by decide)

end SeekingOs.Shell
