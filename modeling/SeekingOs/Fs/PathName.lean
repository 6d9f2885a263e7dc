import SeekingOs.Fs.Cells
import SeekingOs.Lib.Words

/-!
# Path names

`path_parse` takes one name off the front of a path and answers where the rest begins. Called again
on the rest until it finds no name, it goes through the `components` of the path: the pieces between
slashes that are not empty.
-/

namespace SeekingOs.Fs

open Lib

/-- `'/'` -/
def slash : Byte := 47

/-- `MAX_FILENAME_LEN` -/
def maxFilenameLen : Nat := 16

/-- `MAX_PATH_LEN` -/
def maxPathLen : Nat := 512

/-- The slashes at the front of a path are skipped. -/
def skipSlashes (pathName : List Byte) : List Byte := pathName.dropWhile (· == slash)

/-- What `path_parse` leaves in `name_store`. -/
def parsedName (pathName : List Byte) : Name := (skipSlashes pathName).takeWhile (· != slash)

/-- What comes behind it. -/
def parsedRest (pathName : List Byte) : List Byte := (skipSlashes pathName).dropWhile (· != slash)

/-- `path_parse`: the name, and where the path goes on unless it is at its end. `name_store` has
been cleared, and has room for 15 characters and the end of the string. -/
def pathParse (pathName : List Byte) : Except Fault (Name × Option (List Byte)) :=
  if (parsedName pathName).length < maxFilenameLen then
    .ok (parsedName pathName, if parsedRest pathName = [] then none else some (parsedRest pathName))
  else .error (.outOfBounds "path_parse")

theorem pathParse_ok {pathName : List Byte} {name : Name} {rest : Option (List Byte)} :
    pathParse pathName = .ok (name, rest) ↔
    (parsedName pathName).length < maxFilenameLen ∧ parsedName pathName = name ∧
      (if parsedRest pathName = [] then none else some (parsedRest pathName)) = rest := by
  unfold pathParse
  split
  next h => rw [Except.ok.injEq, Prod.mk.injEq, and_iff_right h]
  next h => exact iff_of_false nofun fun hc => h hc.1

/-- The names in a path. -/
def components (pathName : List Byte) : List Name :=
  (pathName.splitOnP (· == slash)).filter (· != [])

@[simp] theorem components_nil : components [] = [] := rfl

/-- A slash in front makes no difference. -/
theorem components_slash (rest : List Byte) : components (slash :: rest) = components rest :=
  words_sep slash rest

/-- A name and what comes behind it. -/
theorem components_name {name rest : List Byte} (hname : ∀ c ∈ name, (c != slash) = true)
    (ne : name ≠ []) (hrest : rest = [] ∨ ∃ tail, rest = slash :: tail) :
    components (name ++ rest) = name :: components rest :=
  words_word hname ne hrest

theorem parsedRest_head (pathName : List Byte) :
    parsedRest pathName = [] ∨ ∃ tail, parsedRest pathName = slash :: tail :=
  dropWhile_head slash (skipSlashes pathName)

/-- ONE STEP through a path: there is no name left, or the first one is taken off. -/
theorem components_parsed (pathName : List Byte) :
    components pathName = if parsedName pathName = [] then []
      else parsedName pathName :: components (parsedRest pathName) := by
  have step : components pathName = if skipSlashes pathName = [] then []
      else parsedName pathName :: components (parsedRest pathName) :=
    words_step slash pathName
  rw [step]
  by_cases h : skipSlashes pathName = []
  · have none : parsedName pathName = [] := by
      unfold parsedName
      rw [h]
      rfl
    rw [if_pos h, if_pos none]
  · have some : parsedName pathName ≠ [] := takeWhile_ne_nil h
    rw [if_neg h, if_neg some]

end SeekingOs.Fs
