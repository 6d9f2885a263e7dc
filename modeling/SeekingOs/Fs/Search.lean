import SeekingOs.Fs.CrossLinks
import SeekingOs.Fs.PathName

/-!
# Finding a file by its path

`search_file` goes from directory to directory, closes each one it has gone through and leaves the
last one open for its caller. It stops at the first regular file, whatever is left of the path, and
where no name was looked up at all it answers the number in a `struct dir_entry` that nothing was
written to.

`sys_malloc` answers whenever `search_dir_entry` asks.
-/

namespace SeekingOs.Fs

open Lib

variable {sb : SuperBlock}

/-! ## Directories that are open -/

/-- `struct dir *`: `&root_dir`, or a directory that `dir_open` has answered. -/
inductive DirRef where
  | root
  | opened (inodeNo : Nat)
  deriving DecidableEq, Repr

/-- `dir->inode`, by its number -/
def DirRef.inodeNo : DirRef → Nat
  | .root => 0
  | .opened n => n

/-- `dir_open` -/
def Volume.dirOpen (v : Volume sb) (inodeNo : Nat) : Except Fault (Volume sb × DirRef) := do
  let inode ← v.inodeOpen inodeNo
  return (v.put inodeNo v.part inode, .opened inodeNo)

/-- `dir_close` -/
def Volume.dirClose (v : Volume sb) : DirRef → Volume sb
  | .root => v
  | .opened n => v.inodeClose n v.part (v.inode n)

/-- `search_dir_entry` -/
def Volume.searchDirEntry (v : Volume sb) (pdir : DirRef) (name : Name) : Option DirEntry :=
  Fs.searchDirEntry true v.part (v.inode pdir.inodeNo) name

/-! ## The search -/

/-- `struct path_search_record` -/
structure PathSearchRecord where
  searchedPath : List Byte
  parentDir : DirRef
  fileType : Nat

/-- The variables of `search_file`. -/
structure SearchState (sb : SuperBlock) where
  vol : Volume sb
  record : PathSearchRecord
  parentInodeNo : Nat
  dirE : DirEntry

/-- A `uint32_t` read as an `int` -/
def toInt (n : Nat) : Int := if n < 2 ^ 31 then n else n - 2 ^ 32

/-- `"/"`, `"/."` and `"/.."` -/
def rootNames : List (List Byte) := [[slash], slash :: dotName, slash :: dotDotName]

instance (pathName : List Byte) : Decidable (pathName ∈ rootNames) :=
  inferInstanceAs (Decidable (pathName ∈ [_, _, _]))

/-- The next name of the path, if it goes on. -/
def nextName : Option (List Byte) → Except Fault (Name × Option (List Byte))
  | none => .ok ([], none)
  | some subPath => pathParse subPath

/-- `strcat(searched_path, "/")` and `strcat(searched_path, name)` -/
def appendName (searchedPath : List Byte) (name : Name) : Except Fault (List Byte) := do
  assertThat false (searchedPath.length < maxPathLen) "search_file"
    "strlen(searched_record->searched_path) < MAX_PATH_LEN"
  if searchedPath.length + 1 + name.length < maxPathLen then return searchedPath ++ slash :: name
  else throw (.outOfBounds "search_file")

/-- How long the path still is. -/
def subLength : Option (List Byte) → Nat
  | none => 0
  | some subPath => subPath.length + 1

theorem parsedRest_le (pathName : List Byte) : (parsedRest pathName).length ≤ pathName.length :=
  Nat.le_trans (List.length_dropWhile_le _ _) (List.length_dropWhile_le _ _)

/-- A rest that is not empty is shorter than the path. -/
theorem parsedRest_lt {pathName : List Byte} (h : parsedRest pathName ≠ []) :
    (parsedRest pathName).length < pathName.length := by
  cases pathName with
  | nil => exact absurd rfl h
  | cons c rest =>
    unfold parsedRest skipSlashes
    by_cases hc : c = slash
    · rw [hc, List.dropWhile_cons_of_pos (p := (· == slash)) (beq_self_eq_true slash)]
      exact Nat.lt_succ_of_le (parsedRest_le rest)
    · rw [List.dropWhile_cons_of_neg (p := (· == slash)) (by simpa using hc),
        List.dropWhile_cons_of_pos (p := (· != slash)) (by simpa using hc)]
      exact Nat.lt_succ_of_le (List.length_dropWhile_le _ _)

/-- The loop gets on. -/
theorem nextName_lt {name name' : Name} {sub sub' : Option (List Byte)} (ne : name ≠ [])
    (h : nextName sub = .ok (name', sub')) :
    subLength sub' < subLength sub ∨ subLength sub' = subLength sub ∧
    name'.length < name.length := by
  cases sub with
  | none =>
    cases h
    exact .inr ⟨rfl, List.length_pos_iff.mpr ne⟩
  | some subPath =>
    obtain ⟨-, rfl, rfl⟩ := pathParse_ok.mp h
    refine .inl ?_
    split
    next => exact Nat.succ_pos _
    next hrest => exact Nat.succ_lt_succ (parsedRest_lt hrest)

/-- The loop of `search_file`, and what comes after it when the names are used up. -/
def searchLoop (s : SearchState sb) (name : Name) (sub : Option (List Byte)) :
    Except Fault (Int × SearchState sb) :=
  if hname : name = [] then do
    let vol := s.vol.dirClose s.record.parentDir
    let (vol, parentDir) ← vol.dirOpen s.parentInodeNo
    return (toInt s.dirE.iNo,
      { s with vol, record := { s.record with parentDir, fileType := ftDirectory } })
  else
    match appendName s.record.searchedPath name with
    | .error fault => .error fault
    | .ok searchedPath =>
      let s := { s with record := { s.record with searchedPath } }
      match s.vol.searchDirEntry s.record.parentDir name with
      | none => .ok (-1, s)
      | some dirE =>
        match _hnext : nextName sub with
        | .error fault => .error fault
        | .ok (name', sub') =>
          let s := { s with dirE }
          if dirE.fType = ftDirectory then
            let parentInodeNo := (s.vol.inode s.record.parentDir.inodeNo).iNo
            match (s.vol.dirClose s.record.parentDir).dirOpen dirE.iNo with
            | .error fault => .error fault
            | .ok (vol, parentDir) =>
              searchLoop { s with vol, parentInodeNo, record := { s.record with parentDir } } name'
                sub'
          else if dirE.fType = ftRegular then
            .ok (toInt dirE.iNo, { s with record := { s.record with fileType := ftRegular } })
          else searchLoop s name' sub'
termination_by (subLength sub, name.length)
decreasing_by
  all_goals
    rcases nextName_lt hname _hnext with h | ⟨h, h'⟩
    · exact Prod.Lex.left _ _ h
    · rw [h]
      exact Prod.Lex.right _ h'

/-- `search_file`; `dirE` is what the stack holds where `dir_e` will be. The record has been
cleared. -/
def searchFile (v : Volume sb) (dirE : DirEntry) (pathName : List Byte) :
    Except Fault (Int × SearchState sb) :=
  if pathName ∈ rootNames then .ok (0, ⟨v, ⟨[], .root, ftDirectory⟩, 0, dirE⟩)
  else do
    assertThat false (pathName.head? = some slash ∧ 1 < pathName.length ∧
      pathName.length < maxPathLen) "search_file"
      "path_name[0] == '/' && path_len > 1 && path_len < MAX_PATH_LEN"
    let (name, subPath) ← pathParse pathName
    searchLoop ⟨v, ⟨[], .root, ftUnkown⟩, 0, dirE⟩ name subPath

/-! ## Two callers -/

/-- `struct stat` -/
structure Stat where
  stIno : Nat
  stSize : Nat
  stFiletype : Nat
  deriving DecidableEq, Repr

/-- `sys_stat`; `none` is −1. -/
def sysStat (v : Volume sb) (dirE : DirEntry) (path : List Byte) :
    Except Fault (Option Stat × Volume sb) :=
  if path ∈ rootNames then .ok (some ⟨0, (v.inode 0).iSize, ftDirectory⟩, v)
  else do
    let (inodeNo, s) ← searchFile v dirE path
    if inodeNo = -1 then return (none, s.vol.dirClose s.record.parentDir)
    else
      let objInode ← s.vol.inodeOpen (u32 inodeNo)
      let vol :=
        (s.vol.put (u32 inodeNo) s.vol.part objInode).inodeClose (u32 inodeNo) s.vol.part objInode
      return (some ⟨u32 inodeNo, objInode.iSize, s.record.fileType⟩,
        vol.dirClose s.record.parentDir)

/-- `sys_unlink`; `openFiles` are the inodes in `file_table`, and `ioBuf` says whether `sys_malloc`
answers. -/
def sysUnlink (openFiles : List Nat) (ioBuf : Bool) (v : Volume sb) (dirE : DirEntry)
    (pathName : List Byte) : Except Fault (Int × Volume sb) := do
  assertThat false (pathName.length ≤ maxPathLen) "sys_unlink" "strlen(path_name) <= MAX_PATH_LEN"
  let (inodeNo, s) ← searchFile v dirE pathName
  let parentDir := s.record.parentDir
  assertThat false (inodeNo ≠ 0) "sys_unlink" "inode_no != 0"
  if inodeNo = -1 ∨ s.record.fileType = ftDirectory ∨ u32 inodeNo ∈ openFiles ∨ ioBuf = false then
    return (-1, s.vol.dirClose parentDir)
  else
    let (_, p, inode) ← Fs.deleteDirEntry s.vol.part (s.vol.inode parentDir.inodeNo) (u32 inodeNo)
    let vol ← (s.vol.put parentDir.inodeNo p inode).inodeRealse (u32 inodeNo)
    return (0, vol.dirClose parentDir)

end SeekingOs.Fs
