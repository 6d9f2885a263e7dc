import SeekingOs.Fs.DirStreams
import SeekingOs.Fs.Fsck
import SeekingOs.Fs.Getcwd
import SeekingOs.Fs.OpenLeaks

/-!
# Where a path leads

The names of a path are gone through in the tree, from the root on. In a volume whose partition is
in order and whose open inodes are what the disk has, `search_file` goes the same way: it ends at a
name that is not there, at the first file, or at a directory.
-/

namespace SeekingOs.Fs

open Lib

/-! ## The names of a path -/

/-- A name as it comes out of a path. -/
def Plain (name : Name) : Prop := name ≠ [] ∧ slash ∉ name

theorem plain_of_mem {path : List Byte} {name : Name} (h : name ∈ components path) :
    Plain name := words_plain h

/-- What comes behind the last slash of a searched path. -/
theorem baseName_joined {name : Name} (plain : Plain name) (names : List Name) :
    OpenState.baseName (joined (names ++ [name])) = name := by
  have front : ∀ c ∈ name.reverse, (c != slash) = true := by
    intro c hc
    rw [bne_iff_ne]
    rintro rfl
    exact plain.2 (List.mem_reverse.mp hc)
  unfold OpenState.baseName
  rw [joined_append, joined_cons, joined_nil, List.append_nil, List.reverse_append,
    List.reverse_cons, List.append_assoc,
    List.takeWhile_append_of_pos front, List.singleton_append, List.takeWhile_cons_of_neg (by simp),
    List.append_nil, List.reverse_reverse]

theorem depthLoop_ok {name : Name} {sub : Option (List Byte)} {names : List Name}
    (left : remaining name sub = names) (valid : ∀ name ∈ names, ValidName name) :
    depthLoop name sub = .ok names.length := by
  induction names generalizing name sub with
  | nil =>
    have empty : name = [] := by
      by_contra h
      rw [remaining, if_neg h] at left
      cases left
    rw [depthLoop, dif_pos empty]
    rfl
  | cons n rest ih =>
    have nonempty : name ≠ [] := by
      intro h
      rw [remaining, if_pos h] at left
      cases left
    rw [remaining, if_neg nonempty, List.cons.injEq] at left
    obtain ⟨rfl, left⟩ := left
    obtain ⟨name', sub', hnext, left'⟩ :=
      nextName_ok sub (by rw [left]; exact (List.forall_mem_cons.mp valid).2)
    rw [left] at left'
    rw [depthLoop, dif_neg nonempty]
    split
    next fault h =>
      rw [hnext] at h
      cases h
    next name'' sub'' h =>
      rw [hnext] at h
      cases h
      rw [ih left' (List.forall_mem_cons.mp valid).2]
      rfl

/-- `path_depth_cnt` counts the names. -/
theorem pathDepthCnt_ok {path : List Byte} (valid : ∀ name ∈ components path, ValidName name) :
    pathDepthCnt path = .ok (components path).length := by
  obtain ⟨name, sub, hparse, left⟩ := nextName_ok (some path) valid
  change pathParse path = _ at hparse
  unfold pathDepthCnt
  rw [hparse]
  exact depthLoop_ok left valid

/-! ## The way through the tree -/

namespace FileTree

variable (up : FileTree)

/-- Directory `d` has the name: what it is the name of, and of what type that is. -/
inductive Has (d : Nat) : Name → Nat → Nat → Prop
  | dot : Has d dotName d ftDirectory
  | dotDot : Has d dotDotName (up.above d) ftDirectory
  | proper {name : Name} {n t : Nat} : Proper name → up n = some ⟨d, name, t⟩ → Has d name n t

/-- The names lead from one directory to another. -/
inductive Leads : Nat → List Name → Nat → Prop
  | here (d : Nat) : Leads d [] d
  | into {d n m : Nat} {name : Name} {rest : List Name} : up.Has d name n ftDirectory →
      Leads n rest m → Leads d (name :: rest) m

end FileTree

variable {sb : SuperBlock} {aside : Nat → Prop} {v : Volume sb} {p p' : Part sb} {up up' : FileTree}
  {d n m t i : Nat} {name : Name}
  {names rest : List Name} {map : Name → Option (Nat × Nat)} {inode inode' : Inode} {ref : DirRef}

theorem FileTree.Leads.snoc (leads : up.Leads d names n) (has : up.Has n name m ftDirectory) :
    up.Leads d (names ++ [name]) m := by
  induction leads with
  | here => exact .into has (.here m)
  | into first _ ih => exact .into first (ih has)

/-- What a directory should list is what it has. -/
theorem FileTree.Lists.has (lists : up.Lists d map) :
    map name = some (n, t) ↔ up.Has d name n t := by
  constructor
  · intro h
    by_cases hdot : name = dotName
    · subst hdot
      rw [lists.dot] at h
      cases h
      exact .dot
    by_cases hdotDot : name = dotDotName
    · subst hdotDot
      rw [lists.dotDot] at h
      cases h
      exact .dotDot
    exact .proper ⟨hdot, hdotDot⟩ ((lists.proper name n t ⟨hdot, hdotDot⟩).mp h)
  · rintro (_ | _ | ⟨proper, hn⟩)
    · exact lists.dot
    · exact lists.dotDot
    · exact (lists.proper name n t proper).mpr hn

theorem FileTree.Dir.above (tree : Rooted 0 (· = ftDirectory) up) : up.Dir (up.above d) := by
  unfold FileTree.above
  cases h : up d with
  | none => exact .inl rfl
  | some g => exact tree.parent d g h

/-- A directory that a directory has. -/
theorem FileTree.Has.dir (has : up.Has d name n ftDirectory) (tree : Rooted 0 (· = ftDirectory) up)
    (dir : up.Dir d) : up.Dir n := by
  cases has with
  | dot => exact dir
  | dotDot => exact FileTree.Dir.above tree
  | proper _ hn => exact .inr ⟨_, hn, rfl⟩

theorem FileTree.Leads.dir (leads : up.Leads d names n) (tree : Rooted 0 (· = ftDirectory) up)
    (dir : up.Dir d) : up.Dir n := by
  induction leads with
  | here => exact dir
  | into has _ ih => exact ih (has.dir tree dir)

/-! ## The volume -/

/-- The partition is in order, and so are the inodes in memory. -/
structure Loaded (aside : Nat → Prop) (v : Volume sb) (up : FileTree) : Prop where
  fsck : Fsck aside v.part up
  opened : ∀ n inode, v.openInodes n = some inode → up.Here n ∧ Alike inode (diskInode v.part n) ∧
    0 < inode.iOpenCnts

theorem Loaded.alike (loaded : Loaded aside v up) (n : Nat) :
    Alike (v.inode n) (diskInode v.part n) := by
  unfold Volume.inode
  cases h : v.openInodes n with
  | none => exact .refl _
  | some inode => exact (loaded.opened n inode h).2.1

/-- A lookup finds what the directory has. -/
theorem Loaded.lookup (loaded : Loaded aside v up) (dir : up.Dir d) (valid : ValidName name) :
    (∃ e, v.lookup d name = some e ∧ e.iNo = n ∧ e.fType = t) ↔ up.Has d name n t := by
  obtain ⟨map, acc, lists⟩ := loaded.fsck.dirs d dir
  have found : (v.lookup d name).map (fun e => (e.iNo, e.fType)) = map name :=
    ((loaded.alike d).accounted acc).good.agrees name valid
  rw [← lists.has, ← found, Option.map_eq_some_iff]
  simp only [Prod.mk.injEq]

theorem Loaded.lookup_some (loaded : Loaded aside v up) (dir : up.Dir d) (valid : ValidName name)
    {e : DirEntry} (h : v.lookup d name = some e) : up.Has d name e.iNo e.fType :=
  (loaded.lookup dir valid).mp ⟨e, h, rfl, rfl⟩

theorem Loaded.isDir (loaded : Loaded aside v up) (dir : IsDir v n) : up.Dir n := by
  induction dir with
  | root => exact .inl rfl
  | entry _ valid found isDir ih =>
    have has := loaded.lookup_some ih valid found
    rw [isDir] at has
    exact has.dir loaded.fsck.tree ih

/-- What a directory has is an inode, of a file or of a directory. -/
theorem FileTree.Has.typed (has : up.Has d name n t) (fsck : Fsck aside p up) (dir : up.Dir d) :
    n < 4096 ∧ (t = ftRegular ∨ t = ftDirectory) := by
  cases has with
  | dot => exact ⟨fsck.lt dir.here, .inr rfl⟩
  | dotDot => exact ⟨fsck.lt (FileTree.Dir.above fsck.tree).here, .inr rfl⟩
  | proper _ hn =>
    obtain ⟨hlt, -, -, kind⟩ := fsck.hung n _ hn
    exact ⟨hlt, kind⟩

/-- Nothing but a file is a file. -/
theorem FileTree.Has.file (has : up.Has d name n ftRegular) : up n = some ⟨d, name, ftRegular⟩ := by
  generalize ht : ftRegular = t at has
  cases has with
  | dot => exact absurd ht (by decide)
  | dotDot => exact absurd ht (by decide)
  | proper _ hn => exact hn

/-- A directory has a name once. -/
theorem FileTree.Has.unique {n' t' : Nat} (has : up.Has d name n t) (has' : up.Has d name n' t')
    (fsck : Fsck aside p up) (dir : up.Dir d) : n' = n ∧ t' = t := by
  obtain ⟨map, -, lists⟩ := fsck.dirs d dir
  have same := (lists.has.mpr has').symm.trans (lists.has.mpr has)
  rwa [Option.some.injEq, Prod.mk.injEq] at same

theorem FileTree.Leads.unique {n' : Nat} (leads : up.Leads d names n) (leads' : up.Leads d names n')
    (fsck : Fsck aside p up) (dir : up.Dir d) : n' = n := by
  induction leads with
  | here => cases leads' with | here => rfl
  | into has _ ih =>
    cases leads' with
    | into has' rest' =>
      obtain ⟨rfl, -⟩ := has.unique has' fsck dir
      exact ih rest' (has.dir fsck.tree dir)

theorem FileTree.Leads.split (leads : up.Leads d (names ++ rest) n) :
    ∃ m, up.Leads d names m ∧ up.Leads m rest n := by
  induction names generalizing d with
  | nil => exact ⟨d, .here d, leads⟩
  | cons name names ih =>
    cases leads with
    | into has leads =>
      obtain ⟨m, first, second⟩ := ih leads
      exact ⟨m, .into has first, second⟩

/-- Names that lead nowhere from some directory on lead nowhere else. -/
theorem FileTree.Leads.stops {before first : List Name} {last : Name} (leads : up.Leads 0 before d)
    (leads' : up.Leads 0 first m) (same : before ++ name :: rest = first ++ [last])
    (fsck : Fsck aside p up) (stops : ∀ n, ¬ up.Has d name n ftDirectory) :
    rest = [] ∧ first = before ∧ last = name ∧ m = d := by
  rcases List.eq_nil_or_concat rest with rfl | ⟨rest', name', rfl⟩
  · obtain ⟨rfl, e⟩ := List.append_inj' same rfl
    cases e
    exact ⟨rfl, rfl, rfl, leads.unique leads' fsck (.inl rfl)⟩
  · have split : before ++ name :: rest'.concat name' = before ++ name :: rest' ++ [name'] := by
      simp
    rw [split] at same
    obtain ⟨rfl, -⟩ := List.append_inj' same rfl
    obtain ⟨k, first, second⟩ := leads'.split
    obtain rfl := leads.unique first fsck (.inl rfl)
    cases second with
    | into has _ => exact absurd has (stops _)

/-- The names mean what they lead to. -/
theorem Loaded.walk_leads (loaded : Loaded aside v up) (leads : up.Leads d names n) (dir : up.Dir d)
    (valid : ∀ name ∈ names, ValidName name) : walk v d names = some (n, ftDirectory) := by
  induction leads with
  | here => rfl
  | into has _ ih =>
    obtain ⟨hname, hrest⟩ := List.forall_mem_cons.mp valid
    obtain ⟨e, found, rfl, isDir⟩ := (loaded.lookup dir hname).mpr has
    unfold walk
    rw [found]
    dsimp only
    rw [if_pos isDir]
    exact ih (has.dir loaded.fsck.tree dir) hrest

/-- The directories make a tree for the search too, as long as the counts do not wrap. -/
theorem Loaded.tree (loaded : Loaded aside v up) (root : (v.openInodes 0).isSome = true)
    (bound : ∀ n inode, v.openInodes n = some inode → inode.iOpenCnts < 2 ^ 32 - 2) : Tree v where
  rootOpen := root
  cnts n inode h := ⟨(loaded.opened n inode h).2.2, bound n inode h⟩
  iNo i dir := (loaded.alike i).iNo.trans (loaded.fsck.numbered i (loaded.isDir dir).here)
  entry _ dir _ _ valid found :=
    (loaded.lookup_some (loaded.isDir dir) valid found).typed loaded.fsck (loaded.isDir dir)

/-! ## How a search ends -/

/-- HOW A SEARCH ENDS: what `search_file` answers, and what is in its record. -/
inductive SearchEnds (up : FileTree) (names : List Name) : Int → PathSearchRecord → Prop
  | missing {before : List Name} {name : Name} {rest : List Name} {ref : DirRef} :
      names = before ++ name :: rest →
      up.Leads 0 before ref.inodeNo → (∀ n t, ¬ up.Has ref.inodeNo name n t) →
      SearchEnds up names (-1) ⟨joined (before ++ [name]), ref, ftUnkown⟩
  | file {before : List Name} {name : Name} {rest : List Name} {ref : DirRef} {n : Nat} :
      names = before ++ name :: rest →
      up.Leads 0 before ref.inodeNo → up n = some ⟨ref.inodeNo, name, ftRegular⟩ →
      SearchEnds up names n ⟨joined (before ++ [name]), ref, ftRegular⟩
  | dir {before : List Name} {name : Name} {d n : Nat} : names = before ++ [name] →
      up.Leads 0 before d →
      up.Has d name n ftDirectory → SearchEnds up names n ⟨joined names, .opened d, ftDirectory⟩

/-- The directory that is left open is one of the tree. -/
theorem SearchEnds.parent {ret : Int} {record : PathSearchRecord}
    (ends : SearchEnds up names ret record) (tree : Rooted 0 (· = ftDirectory) up) :
    up.Dir record.parentDir.inodeNo := by
  cases ends with
  | missing _ leads _ => exact leads.dir tree (.inl rfl)
  | file _ leads _ => exact leads.dir tree (.inl rfl)
  | dir _ leads _ => exact leads.dir tree (.inl rfl)

/-- What is left of the names is gone through from a directory on. -/
theorem Loaded.follow_ends (loaded : Loaded aside v up) {before : List Name}
    (leads : up.Leads 0 before ref.inodeNo) (valid : ∀ name ∈ names, ValidName name)
    {parentInodeNo : Nat} {dirE : DirEntry}
    (last : names = [] → ∃ first name, before = first ++ [name] ∧ up.Leads 0 first parentInodeNo ∧
      up.Has parentInodeNo name dirE.iNo ftDirectory ∧ dirE.iNo < 4096) :
    SearchEnds up (before ++ names) (follow v ref (joined before) parentInodeNo dirE names).1
      (follow v ref (joined before) parentInodeNo dirE names).2.record := by
  induction names generalizing ref before parentInodeNo dirE with
  | nil =>
    obtain ⟨first, name, rfl, leads', has, hlt⟩ := last rfl
    unfold follow
    rw [toInt_small hlt, List.append_nil]
    exact .dir rfl leads' has
  | cons name rest ih =>
    obtain ⟨hname, hrest⟩ := List.forall_mem_cons.mp valid
    have dir := leads.dir loaded.fsck.tree (.inl rfl)
    have path : joined before ++ slash :: name = joined (before ++ [name]) := by simp
    unfold follow
    rw [path]
    cases found : v.lookup ref.inodeNo name with
    | none =>
      refine .missing rfl leads fun n t has => ?_
      obtain ⟨e, h, -⟩ := (loaded.lookup dir hname).mpr has
      rw [found] at h
      cases h
    | some e =>
      have has := loaded.lookup_some dir hname found
      obtain ⟨hlt, htype⟩ := has.typed loaded.fsck dir
      dsimp only
      split
      next isDir =>
        rw [isDir] at has
        have all : before ++ name :: rest = before ++ [name] ++ rest := by simp
        rw [all]
        exact ih (leads.snoc has) hrest fun _ => ⟨before, name, rfl, leads, has, hlt⟩
      next notDir =>
        rw [htype.resolve_right notDir] at has
        rw [toInt_small hlt]
        exact .file rfl leads has.file

/-- What the calls may be asked for: a path whose names fit, and one at least. -/
structure GivenPath (path : List Byte) : Prop extends ValidPath path where
  some : components path ≠ []

/-- THE SEARCH ends so, and leaves one directory open. -/
theorem Loaded.searchFile (loaded : Loaded aside v up) (root : (v.openInodes 0).isSome = true)
    (bound : ∀ n inode, v.openInodes n = some inode → inode.iOpenCnts < 2 ^ 32 - 2)
    {path : List Byte} (given : GivenPath path) {dirE : DirEntry} {o : Int × SearchState sb}
    (h : searchFile v dirE path = .ok o) :
    o.2.vol = v.held o.2.record.parentDir ∧ up.Dir o.2.record.parentDir.inodeNo ∧
      (SearchEnds up (components path) o.1 o.2.record ∨ path ∈ rootNames ∧ o.1 = 0 ∧
        o.2.record.fileType = ftDirectory) := by
  by_cases other : path ∈ rootNames
  · unfold Fs.searchFile at h
    rw [if_pos other] at h
    cases h
    exact ⟨rfl, .inl rfl, .inr ⟨other, rfl, rfl⟩⟩
  · rw [searchFile_eq (loaded.tree root bound) given.toValidPath dirE other] at h
    cases h
    have start : up.Leads 0 [] DirRef.root.inodeNo := .here 0
    have ends : SearchEnds up ([] ++ components path) (follow v .root [] 0 dirE (components path)).1
        (follow v .root [] 0 dirE (components path)).2.record :=
      loaded.follow_ends start given.names fun none => absurd none given.some
    exact ⟨follow_held, ends.parent loaded.fsck.tree, .inl ends⟩

end SeekingOs.Fs
