import SeekingOs.Fs.Search

/-!
# What a path leads to

`walk` is the meaning of a path: all of its names are gone through from the root, and only the last
one may be a file's. `follow` is what `search_file` does with the names instead.
-/

namespace SeekingOs.Fs

open Lib

variable {sb : SuperBlock}

/-! ## Trees -/

/-- The entry with a name in directory `i`. -/
def Volume.lookup (v : Volume sb) (i : Nat) (name : Name) : Option DirEntry :=
  Fs.searchDirEntry true v.part (v.inode i) name

/-- The directories that names lead to from the root. -/
inductive IsDir (v : Volume sb) : Nat → Prop
  | root : IsDir v 0
  | entry {i : Nat} {name : Name} {e : DirEntry} : IsDir v i → ValidName name →
      v.lookup i name = some e →
      e.fType = ftDirectory → IsDir v e.iNo

/-- The directories make a tree: entries lead to files and directories, and a directory knows its
number. The root is open, and open inodes count those who have them open. -/
structure Tree (v : Volume sb) : Prop where
  rootOpen : (v.openInodes 0).isSome = true
  cnts : ∀ n inode, v.openInodes n = some inode → 0 < inode.iOpenCnts ∧ inode.iOpenCnts < 2 ^ 32 - 2
  iNo : ∀ i, IsDir v i → (v.inode i).iNo = i
  entry : ∀ i, IsDir v i → ∀ name e, ValidName name → v.lookup i name = some e →
    e.iNo < 4096 ∧ (e.fType = ftRegular ∨ e.fType = ftDirectory)

/-- WHAT A PATH MEANS: the object that its names lead to from directory `i`, with its type. -/
def walk (v : Volume sb) (i : Nat) : List Name → Option (Nat × Nat)
  | [] => some (i, ftDirectory)
  | name :: rest =>
    match v.lookup i name with
    | none => none
    | some e =>
      if e.fType = ftDirectory then walk v e.iNo rest
      else if rest = [] then some (e.iNo, e.fType)
      else none

/-- A name before the last is a file's. -/
def throughFile (v : Volume sb) (i : Nat) : List Name → Bool
  | [] => false
  | name :: rest =>
    match v.lookup i name with
    | none => false
    | some e => if e.fType = ftDirectory then throughFile v e.iNo rest else !rest.isEmpty

variable {v : Volume sb} {i n : Nat} {name : Name} {e : DirEntry} {ref : DirRef}

theorem IsDir.lt (tree : Tree v) (dir : IsDir v i) : i < 4096 := by
  cases dir with
  | root => decide
  | entry dir valid found _ => exact (tree.entry _ dir _ _ valid found).1

/-! ## One directory more is open -/

/-- The volume with one more directory open. -/
def Volume.held (v : Volume sb) : DirRef → Volume sb
  | .root => v
  | .opened n =>
    v.put n v.part { v.inode n with iOpenCnts := ((v.openInodes n).elim 0 (·.iOpenCnts)) + 1 }

theorem Volume.held_part (ref : DirRef) : (v.held ref).part = v.part := by
  cases ref with
  | root => rfl
  | opened n => rfl

/-- But for the count, every inode is what it was. -/
theorem Volume.held_inode (ref : DirRef) (n : Nat) :
    (v.held ref).inode n = { v.inode n with iOpenCnts := ((v.held ref).inode n).iOpenCnts } := by
  cases ref with
  | root => rfl
  | opened m =>
    by_cases h : n = m
    · subst h
      unfold Volume.held
      rw [Volume.inode_open Volume.put_self]
    · have same : (v.held (.opened m)).inode n = v.inode n := by
        unfold Volume.inode
        rw [show (v.held (.opened m)).openInodes n = v.openInodes n from Volume.put_other h,
          Volume.held_part]
      rw [same]

theorem collectBlocks_congr {p : Part sb} {inode inode' : Inode}
    (h : inode'.iSectors = inode.iSectors) : collectBlocks p inode' = collectBlocks p inode := by
  unfold collectBlocks directBlocks
  rw [h]

theorem Volume.held_lookup (ref : DirRef) (i : Nat) (name : Name) :
    (v.held ref).lookup i name = v.lookup i name := by
  have same : ((v.held ref).inode i).iSectors = (v.inode i).iSectors := by rw [Volume.held_inode]
  unfold Volume.lookup Fs.searchDirEntry
  rw [Volume.held_part, collectBlocks_congr same]

theorem Volume.inodeOpen_eq (hcnt : ∀ inode, v.openInodes n = some inode →
      inode.iOpenCnts < 2 ^ 32 - 1) (hn : n < 4096) :
    v.inodeOpen n =
      .ok { v.inode n with iOpenCnts := ((v.openInodes n).elim 0 (·.iOpenCnts)) + 1 } := by
  unfold Volume.inodeOpen
  cases h : v.openInodes n with
  | some inode =>
    have hlt := hcnt inode h
    rw [Volume.inode_open h]
    show Except.ok { inode with iOpenCnts := u32 (inode.iOpenCnts + 1) } = _
    rw [show u32 ((inode.iOpenCnts : Int) + 1) = inode.iOpenCnts + 1 by unfold u32; omega]
    rfl
  | none =>
    obtain ⟨pos, hpos, -⟩ := inodeLocate_ok sb hn
    rw [Volume.inode_closed h]
    dsimp only
    rw [hpos]
    rfl

theorem Volume.dirOpen_eq (hcnt : ∀ inode, v.openInodes n = some inode →
      inode.iOpenCnts < 2 ^ 32 - 1) (hn : n < 4096) :
    v.dirOpen n = .ok (v.held (.opened n), .opened n) := by
  unfold Volume.dirOpen
  rw [Volume.inodeOpen_eq hcnt hn]
  rfl

/-- An inode that is opened and closed again is what it was. -/
theorem Volume.inodeClose_put (hcnt : ∀ inode, v.openInodes n = some inode → 0 < inode.iOpenCnts ∧
      inode.iOpenCnts < 2 ^ 32 - 1) :
    (v.held (.opened n)).inodeClose n v.part
      { v.inode n with iOpenCnts := ((v.openInodes n).elim 0 (·.iOpenCnts)) + 1 } = v := by
  have hu (c : Nat) (hc : c < 2 ^ 32 - 1) : u32 (((c + 1 : Nat) : Int) - 1) = c := by
    unfold u32
    omega
  unfold Volume.held Volume.put Volume.inodeClose
  dsimp only
  have back : (if u32 (((v.openInodes n).elim 0 (·.iOpenCnts) + 1 : Nat) - 1 : Int) = 0 then none
      else some { v.inode n with
        iOpenCnts := u32 (((v.openInodes n).elim 0 (·.iOpenCnts) + 1 : Nat) - 1 : Int) }) =
      v.openInodes n := by
    cases h : v.openInodes n with
    | some inode =>
      obtain ⟨hpos, hlt⟩ := hcnt inode h
      rw [Volume.inode_open h]
      simp only [Option.elim, hu _ hlt, if_neg (Nat.ne_of_gt hpos)]
    | none => rfl
  rw [Function.update_idem, back, Function.update_eq_self]

theorem Volume.dirClose_held (hcnt : ∀ n inode, v.openInodes n = some inode → 0 < inode.iOpenCnts ∧
      inode.iOpenCnts < 2 ^ 32 - 1) (ref : DirRef) : (v.held ref).dirClose ref = v := by
  cases ref with
  | root => rfl
  | opened n =>
    have inode : (v.held (.opened n)).inode n = _ := Volume.inode_open Volume.put_self
    show (v.held (.opened n)).inodeClose n (v.held (.opened n)).part
      ((v.held (.opened n)).inode n) = v
    rw [inode]
    exact Volume.inodeClose_put (hcnt n)

/-! ## The loop -/

/-- What `search_file` does with the names of a path from directory `ref` on. -/
def follow (v : Volume sb) (ref : DirRef) (searchedPath : List Byte) (parentInodeNo : Nat)
    (dirE : DirEntry) :
    List Name → Int × SearchState sb
  | [] =>
    (toInt dirE.iNo, ⟨v.held (.opened parentInodeNo),
      ⟨searchedPath, .opened parentInodeNo, ftDirectory⟩, parentInodeNo, dirE⟩)
  | name :: rest =>
    match v.lookup ref.inodeNo name with
    | none =>
      (-1, ⟨v.held ref, ⟨searchedPath ++ slash :: name, ref, ftUnkown⟩, parentInodeNo, dirE⟩)
    | some e =>
      if e.fType = ftDirectory then
        follow v (.opened e.iNo) (searchedPath ++ slash :: name) ref.inodeNo e rest
      else
        (toInt e.iNo, ⟨v.held ref, ⟨searchedPath ++ slash :: name, ref, ftRegular⟩,
          parentInodeNo, e⟩)

/-- The names that are left: the one in `name` and those in the rest of the path. -/
def remaining (name : Name) (sub : Option (List Byte)) : List Name :=
  if name = [] then [] else name :: components (sub.getD [])

/-- How long a path of names is, with a slash before each. -/
def pathLength (names : List Name) : Nat := (names.map (·.length + 1)).sum

@[simp] theorem pathLength_nil : pathLength [] = 0 := rfl

@[simp] theorem pathLength_cons (name : Name) (names : List Name) :
    pathLength (name :: names) = name.length + 1 + pathLength names := rfl

@[simp] theorem pathLength_append (names names' : List Name) :
    pathLength (names ++ names') = pathLength names + pathLength names' := by
  simp [pathLength]

/-- The next name of the path, if the names fit. -/
theorem nextName_ok (sub : Option (List Byte))
    (valid : ∀ name ∈ components (sub.getD []), ValidName name) :
    ∃ name' sub', nextName sub = .ok (name', sub') ∧
      remaining name' sub' = components (sub.getD []) := by
  cases sub with
  | none => exact ⟨[], none, rfl, rfl⟩
  | some subPath =>
    change ∀ name ∈ components subPath, ValidName name at valid
    rw [components_parsed] at valid
    have fits : (parsedName subPath).length < maxFilenameLen := by
      by_cases h : parsedName subPath = []
      · rw [h]
        decide
      · rw [if_neg h] at valid
        exact Nat.lt_succ_of_le (valid _ List.mem_cons_self).2.1
    refine ⟨_, _, pathParse_ok.mpr ⟨fits, rfl, rfl⟩, ?_⟩
    show _ = components subPath
    rw [components_parsed subPath]
    unfold remaining
    split
    next => rfl
    next =>
      congr 1
      split
      next h => rw [h]; rfl
      next => rfl

theorem appendName_ok {searchedPath : List Byte} (h : searchedPath.length + 1 + name.length < 512) :
    appendName searchedPath name = .ok (searchedPath ++ slash :: name) := by
  unfold appendName
  rw [assertThat_of (show searchedPath.length < maxPathLen by unfold maxPathLen; omega), ok_bind,
    if_pos (show searchedPath.length + 1 + name.length < maxPathLen from h)]
  rfl

/-- THE LOOP. It goes on from directory `ref`, which is open, as `follow` says, and nothing fails.
-/
theorem searchLoop_eq (tree : Tree v) {names : List Name} {sub : Option (List Byte)}
    {searchedPath : List Byte} {parentInodeNo : Nat} {dirE : DirEntry}
    (left : remaining name sub = names) (dir : IsDir v ref.inodeNo) (parent : parentInodeNo < 4096)
    (valid : ∀ name ∈ names, ValidName name) (fits : searchedPath.length + pathLength names < 512) :
    searchLoop ⟨v.held ref, ⟨searchedPath, ref, ftUnkown⟩, parentInodeNo, dirE⟩ name sub =
      .ok (follow v ref searchedPath parentInodeNo dirE names) := by
  have cnts (n : Nat) (inode : Inode) (h : v.openInodes n = some inode) : 0 < inode.iOpenCnts ∧
      inode.iOpenCnts < 2 ^ 32 - 1 :=
    ⟨(tree.cnts n inode h).1, by have := (tree.cnts n inode h).2; omega⟩
  induction names generalizing ref name sub searchedPath parentInodeNo dirE with
  | nil =>
    have empty : name = [] := by
      by_contra h
      rw [remaining, if_neg h] at left
      cases left
    rw [searchLoop, dif_pos empty]
    dsimp only
    rw [Volume.dirClose_held cnts, Volume.dirOpen_eq (fun inode h => (cnts _ inode h).2) parent]
    rfl
  | cons n rest ih =>
    have nonempty : name ≠ [] := by
      intro h
      rw [remaining, if_pos h] at left
      cases left
    rw [remaining, if_neg nonempty, List.cons.injEq] at left
    obtain ⟨rfl, left⟩ := left
    obtain ⟨hname, hrest⟩ := List.forall_mem_cons.mp valid
    have weight : pathLength (name :: rest) = name.length + 1 + pathLength rest := rfl
    have append : appendName searchedPath name = .ok (searchedPath ++ slash :: name) :=
      appendName_ok (by omega)
    rw [searchLoop, dif_neg nonempty]
    dsimp only
    rw [append]
    dsimp only
    rw [show (v.held ref).searchDirEntry ref name = v.lookup ref.inodeNo name from
      Volume.held_lookup ref _ name]
    unfold follow
    cases found : v.lookup ref.inodeNo name with
    | none => rfl
    | some e =>
      obtain ⟨hno, htype⟩ := tree.entry _ dir _ _ hname found
      obtain ⟨name', sub', hnext, left'⟩ := nextName_ok sub (by rw [left]; exact hrest)
      rw [left] at left'
      dsimp only
      split
      next fault h =>
        rw [hnext] at h
        cases h
      next name'' sub'' h =>
        rw [hnext] at h
        cases h
        split
        next isDir =>
          rw [Volume.dirClose_held cnts, Volume.dirOpen_eq (fun inode h => (cnts _ inode h).2) hno]
          dsimp only
          have number : ((v.held ref).inode ref.inodeNo).iNo = ref.inodeNo := by
            rw [Volume.held_inode]
            exact tree.iNo _ dir
          rw [number]
          refine ih left' (.entry dir hname found isDir) (dir.lt tree) hrest ?_
          rw [List.length_append, List.length_cons]
          omega
        next notDir =>
          rw [if_pos (htype.resolve_right notDir)]

/-! ## The whole search -/

theorem pathLength_components (pathName : List Byte)
    (abs : pathName = [] ∨ ∃ tail, pathName = slash :: tail) :
    pathLength (components pathName) ≤ pathName.length := by
  induction h : pathName.length using Nat.strong_induction_on generalizing pathName with
  | _ len ih =>
    subst h
    rw [components_parsed]
    split
    next => exact Nat.zero_le _
    next ne =>
      have split : parsedName pathName ++ parsedRest pathName = skipSlashes pathName :=
        List.takeWhile_append_dropWhile
      have length := congrArg List.length split
      rw [List.length_append] at length
      rcases abs with rfl | ⟨tail, rfl⟩
      · exact absurd rfl ne
      · have skip : (skipSlashes (slash :: tail)).length ≤ tail.length := by
          unfold skipSlashes
          rw [List.dropWhile_cons_of_pos (p := (· == slash)) (beq_self_eq_true slash)]
          exact List.length_dropWhile_le _ _
        have rest :=
          ih _ (by rw [List.length_cons]; omega) (parsedRest (slash :: tail))
            (parsedRest_head _) rfl
        show (parsedName (slash :: tail)).length + 1 +
          pathLength (components (parsedRest (slash :: tail))) ≤ _
        rw [List.length_cons]
        omega

/-- An absolute path whose names fit. -/
structure ValidPath (path : List Byte) : Prop where
  absolute : ∃ tail, path = slash :: tail
  length : path.length < 512
  names : ∀ name ∈ components path, ValidName name

/-- `search_file` follows the names of the path from the root. -/
theorem searchFile_eq (tree : Tree v) {path : List Byte} (valid : ValidPath path) (dirE : DirEntry)
    (other : path ∉ rootNames) :
    searchFile v dirE path = .ok (follow v .root [] 0 dirE (components path)) := by
  obtain ⟨tail, hpath⟩ := valid.absolute
  have more : 1 < path.length := by
    rw [hpath]
    cases tail with
    | nil => exact absurd (by rw [hpath]; decide) other
    | cons => exact Nat.succ_lt_succ (Nat.succ_pos _)
  have head : path.head? = some slash := by rw [hpath]; rfl
  obtain ⟨name, sub, hparse, left⟩ := nextName_ok (some path) valid.names
  have weight := pathLength_components path (.inr valid.absolute)
  have hlen := valid.length
  unfold searchFile
  rw [if_neg other, assertThat_of ⟨head, more, valid.length⟩, ok_bind,
    show pathParse path = _ from hparse, ok_bind]
  change remaining name sub = components path at left
  have dir : IsDir v DirRef.root.inodeNo := .root
  refine searchLoop_eq tree left dir (by decide) valid.names ?_
  rw [List.length_nil]
  omega

/-- A number as `search_file` answers it. -/
def answer : Option (Nat × Nat) → Int
  | none => -1
  | some (i, _) => i

theorem toInt_small {n : Nat} (h : n < 4096) : toInt n = n := if_pos (by omega)

/-- Where no name but the last is a file's, the search answers what the path means. -/
theorem follow_walk (tree : Tree v) {names : List Name} {searchedPath : List Byte}
    {parentInodeNo : Nat} {dirE : DirEntry} (dir : IsDir v ref.inodeNo)
    (valid : ∀ name ∈ names, ValidName name) (whole : throughFile v ref.inodeNo names = false)
    (last : names = [] → toInt dirE.iNo = ref.inodeNo) :
    (follow v ref searchedPath parentInodeNo dirE names).1 = answer (walk v ref.inodeNo names) ∧
      (follow v ref searchedPath parentInodeNo dirE names).2.record.fileType =
        (walk v ref.inodeNo names).elim ftUnkown Prod.snd := by
  induction names generalizing ref searchedPath parentInodeNo dirE with
  | nil => exact ⟨last rfl, rfl⟩
  | cons name rest ih =>
    obtain ⟨hname, hrest⟩ := List.forall_mem_cons.mp valid
    unfold throughFile at whole
    unfold follow walk
    cases found : v.lookup ref.inodeNo name with
    | none => exact ⟨rfl, rfl⟩
    | some e =>
      obtain ⟨hno, htype⟩ := tree.entry _ dir _ _ hname found
      rw [found] at whole
      dsimp only at whole ⊢
      split
      next isDir =>
        rw [if_pos isDir] at whole
        have child : IsDir v (DirRef.opened e.iNo).inodeNo := .entry dir hname found isDir
        exact ih child hrest whole fun _ => toInt_small hno
      next notDir =>
        rw [if_neg notDir] at whole
        have none : rest = [] := by
          cases rest with
          | nil => rfl
          | cons => cases whole
        rw [if_pos none]
        exact ⟨toInt_small hno, (htype.resolve_right notDir).symm⟩

/-- Where a name before the last is a file's, the path means nothing, and the search answers the
file. -/
theorem follow_file (tree : Tree v) {names : List Name} {searchedPath : List Byte}
    {parentInodeNo : Nat} {dirE : DirEntry} (dir : IsDir v ref.inodeNo)
    (valid : ∀ name ∈ names, ValidName name) (through : throughFile v ref.inodeNo names = true) :
    (follow v ref searchedPath parentInodeNo dirE names).1 ≠ -1 ∧
    walk v ref.inodeNo names = none := by
  induction names generalizing ref searchedPath parentInodeNo dirE with
  | nil => cases through
  | cons name rest ih =>
    obtain ⟨hname, hrest⟩ := List.forall_mem_cons.mp valid
    unfold throughFile at through
    unfold follow walk
    cases found : v.lookup ref.inodeNo name with
    | none =>
      rw [found] at through
      cases through
    | some e =>
      obtain ⟨hno, htype⟩ := tree.entry _ dir _ _ hname found
      rw [found] at through
      dsimp only at through ⊢
      split
      next isDir =>
        rw [if_pos isDir] at through
        have child : IsDir v (DirRef.opened e.iNo).inodeNo := .entry dir hname found isDir
        exact ih child hrest through
      next notDir =>
        rw [if_neg notDir] at through
        have some : rest ≠ [] := by
          rintro rfl
          cases through
        rw [if_neg some]
        refine ⟨?_, rfl⟩
        show toInt e.iNo ≠ -1
        rw [toInt_small hno]
        omega

/-- One directory is open at the end: the parent in the record. -/
theorem follow_held {names : List Name} {searchedPath : List Byte} {parentInodeNo : Nat}
    {dirE : DirEntry} :
    (follow v ref searchedPath parentInodeNo dirE names).2.vol =
      v.held (follow v ref searchedPath parentInodeNo dirE names).2.record.parentDir := by
  induction names generalizing ref searchedPath parentInodeNo dirE with
  | nil => rfl
  | cons name rest ih =>
    unfold follow
    cases v.lookup ref.inodeNo name with
    | none => rfl
    | some e =>
      dsimp only
      split
      next => exact ih
      next => rfl

/-- A regular file is the entry of the directory that is open. -/
theorem follow_regular (tree : Tree v) {names : List Name} {searchedPath : List Byte}
    {parentInodeNo : Nat} {dirE : DirEntry} (dir : IsDir v ref.inodeNo)
    (valid : ∀ name ∈ names, ValidName name)
    (regular : (follow v ref searchedPath parentInodeNo dirE names).2.record.fileType = ftRegular) :
    ∃ name e, IsDir v (follow v ref searchedPath parentInodeNo dirE
      names).2.record.parentDir.inodeNo ∧ ValidName name ∧
      v.lookup (follow v ref searchedPath parentInodeNo dirE names).2.record.parentDir.inodeNo
        name = some e ∧
      (follow v ref searchedPath parentInodeNo dirE names).1 = e.iNo ∧ e.fType = ftRegular ∧
      e.iNo < 4096 := by
  induction names generalizing ref searchedPath parentInodeNo dirE with
  | nil => cases regular
  | cons name rest ih =>
    obtain ⟨hname, hrest⟩ := List.forall_mem_cons.mp valid
    unfold follow at regular ⊢
    cases found : v.lookup ref.inodeNo name with
    | none =>
      rw [found] at regular
      cases regular
    | some e =>
      obtain ⟨hno, htype⟩ := tree.entry _ dir _ _ hname found
      rw [found] at regular
      dsimp only at regular ⊢
      split
      next isDir =>
        rw [if_pos isDir] at regular
        have child : IsDir v (DirRef.opened e.iNo).inodeNo := .entry dir hname found isDir
        exact ih child hrest regular
      next notDir =>
        exact ⟨name, e, dir, hname, found, toInt_small hno, htype.resolve_right notDir, hno⟩

end SeekingOs.Fs
