import SeekingOs.Fs.WholePaths

/-!
# Where a process is

`sys_getcwd` climbs from the working directory to the root. `..` names the parent, and in the parent
the name is that of the entry with the child's inode number. The path comes out with the last name
first, and is turned round at its slashes.

The other way is down: `Down` is a path from the root to a directory, by entries other than `.` and
`..`. In a well-formed tree there is one for each directory, the climb goes it backwards, and
`search_file` goes it again.

Both ways read more than the names of the tree. The climb takes the first slot with the child's
number, in use or not, and the search the first with the name: so free slots have to be cleared, and
names must differ within a directory.
-/

namespace SeekingOs.Fs

open Lib

variable {sb : SuperBlock}

/-! ## The call -/

/-- `get_parent_dir_inode_no` -/
def getParentDirInodeNo (v : Volume sb) (childInodeNo : Nat) : Except Fault (Nat × Volume sb) := do
  let childDirInode ← v.inodeOpen childInodeNo
  let blockLba := childDirInode.iSectors 0
  assertThat false (sb.dataStartLba ≤ blockLba) "get_parent_dir_inode_no"
    "block_lba >= cur_part->sb->data_start_lba"
  let v := (v.put childInodeNo v.part childDirInode).inodeClose childInodeNo v.part childDirInode
  let dirE := dirEntryAt (ideRead v.part blockLba zeros 1) (dirEntrySize * 1)
  assertThat false (dirE.iNo < 4096 ∧ dirE.fType = ftDirectory) "get_parent_dir_inode_no"
    "dir_e[1].i_no < 4096 && dir_e[1].f_type == FT_DIRECTORY"
  return (dirE.iNo, v)

/-- The index of the entry with an inode number, in a sector. The type of the entry is not looked
at. -/
def findNumber (buf : Buf) (inodeNr : Nat) : Option Nat :=
  (List.range dirEntrysPerSec).find? fun i => (dirEntryAt buf (dirEntrySize * i)).iNo == inodeNr

/-- The loop of `get_child_dir_name` over the blocks. The name goes on to the end of the string. -/
def childBlocks (p : Part sb) (allBlocks : Blocks) (cInodeNr : Nat) : List Nat → Option Name
  | [] => none
  | blockIdx :: rest =>
    if allBlocks blockIdx = 0 then childBlocks p allBlocks cInodeNr rest
    else
      let buf := ideRead p (allBlocks blockIdx) zeros 1
      match findNumber buf cInodeNr with
      | some i => some (cStr buf (dirEntrySize * i) (sectorSize - dirEntrySize * i))
      | none => childBlocks p allBlocks cInodeNr rest

/-- `strcat(path, "/")` and `strcat(path, filename)`, in `MAX_PATH_LEN` bytes. -/
def strcatName (path : List Byte) (filename : Name) : Except Fault (List Byte) :=
  if path.length + 1 + filename.length < maxPathLen then .ok (path ++ slash :: filename)
  else .error (.outOfBounds "get_child_dir_name")

/-- `get_child_dir_name`; `none` is −1. -/
def getChildDirName (v : Volume sb) (pInodeNr cInodeNr : Nat) (path : List Byte) :
    Except Fault (Option (List Byte) × Volume sb) := do
  let pInode ← v.inodeOpen pInodeNr
  let allBlocks := collectBlocks v.part pInode
  let blockCnt := if pInode.iSectors 12 ≠ 0 then 140 else 12
  let v := (v.put pInodeNr v.part pInode).inodeClose pInodeNr v.part pInode
  match childBlocks v.part allBlocks cInodeNr (List.range blockCnt) with
  | none => return (none, v)
  | some filename =>
    let path ← strcatName path filename
    return (some path, v)

/-- The path has grown. -/
theorem getChildDirName_length {v v' : Volume sb} {pInodeNr cInodeNr : Nat} {path path' : List Byte}
    (h : getChildDirName v pInodeNr cInodeNr path = .ok (some path', v')) :
    path.length < path'.length ∧ path'.length < maxPathLen := by
  unfold getChildDirName at h
  obtain ⟨pInode, _, h⟩ := bind_eq_ok.mp h
  dsimp only at h
  split at h
  next => cases h
  next filename _ =>
    obtain ⟨cat, hcat, h⟩ := bind_eq_ok.mp h
    cases h
    unfold strcatName at hcat
    split at hcat
    next fits =>
      cases hcat
      rw [List.length_append, List.length_cons]
      omega
    next => cases hcat

/-- The first loop of `sys_getcwd`; `none` is where a name is not found. -/
def climbLoop (v : Volume sb) (childInodeNr : Nat) (fullPathReverse : List Byte) :
    Except Fault (Option (List Byte) × Volume sb) :=
  if childInodeNr = 0 then .ok (some fullPathReverse, v)
  else
    match getParentDirInodeNo v childInodeNr with
    | .error fault => .error fault
    | .ok (parentInodeNr, v) =>
      match _hname : getChildDirName v parentInodeNr childInodeNr fullPathReverse with
      | .error fault => .error fault
      | .ok (none, v) => .ok (none, v)
      | .ok (some fullPathReverse, v) => climbLoop v parentInodeNr fullPathReverse
termination_by maxPathLen - fullPathReverse.length
decreasing_by
  have := getChildDirName_length _hname
  omega

/-- `strrchr`, as an index: `last` is where `ch` was seen last, before index `i`. -/
def strrchr (ch : Byte) : List Byte → Nat → Option Nat → Option Nat
  | [], _, last => last
  | c :: str, i, last => strrchr ch str (i + 1) (if c = ch then some i else last)

theorem strrchr_lt {ch : Byte} {str : List Byte} {i k : Nat} {last : Option Nat}
    (h : strrchr ch str i last = some k) : last = some k ∨ k < i + str.length := by
  induction str generalizing i last with
  | nil => exact .inl h
  | cons c rest ih =>
    rw [List.length_cons]
    rcases ih h with hlast | hlt
    · split at hlast
      next =>
        cases hlast
        exact .inr (by omega)
      next => exact .inl hlast
    · exact .inr (by omega)

/-- The second loop of `sys_getcwd`: what comes from the last slash on goes to the end of `buf`,
which has `size` bytes. -/
def reverseLoop (size : Nat) (fullPathReverse buf : List Byte) : Except Fault (List Byte) :=
  match _hslash : strrchr slash fullPathReverse 0 none with
  | none => .ok buf
  | some lastSlash =>
    if buf.length + (fullPathReverse.length - lastSlash) < size then
      reverseLoop size (fullPathReverse.take lastSlash) (buf ++ fullPathReverse.drop lastSlash)
    else .error (.outOfBounds "sys_getcwd")
termination_by fullPathReverse.length
decreasing_by
  have := (strrchr_lt _hslash).resolve_left nofun
  rw [List.length_take]
  omega

/-- `sys_getcwd`; `none` is `NULL`. `buf` says whether the buffer is not `NULL`, and `ioBuf` whether
`sys_malloc` answers. -/
def sysGetcwd (buf ioBuf : Bool) (v : Volume sb) (cwdInodeNr size : Nat) :
    Except Fault (Option (List Byte) × Volume sb) := do
  assertThat false (buf = true) "sys_getcwd" "buf != NULL"
  if ioBuf = false then return (none, v)
  else
    assertThat false (cwdInodeNr < 4096) "sys_getcwd" "child_inode_nr >= 0 && child_inode_nr < 4096"
    if cwdInodeNr = 0 then
      if size < 2 then throw (.outOfBounds "sys_getcwd")
      else return (some [slash], v)
    else
      match ← climbLoop v cwdInodeNr [] with
      | (none, v) => return (none, v)
      | (some fullPathReverse, v) =>
        assertThat false (fullPathReverse.length ≤ size) "sys_getcwd"
          "strlen(full_path_reverse) <= size"
        let path ← reverseLoop size fullPathReverse []
        return (some path, v)

/-! ## Well-formed trees -/

/-- The entry in a cell of directory `d`. -/
def Volume.entry (v : Volume sb) (d : Nat) (c : Cell) : DirEntry := entries v.part (v.inode d) c

/-- The cells of `.` and `..`. -/
def dotCell : Cell := (0, 0)
def dotDotCell : Cell := (0, 1)

/-- The directories of the tree: the root, and what an entry of one of them has as a directory. -/
inductive InTree (v : Volume sb) : Nat → Prop
  | root : InTree v 0
  | entry {d : Nat} {c : Cell} : InTree v d → (v.entry d c).fType = ftDirectory →
      InTree v (v.entry d c).iNo

/-- An entry of directory `d` other than `.` and `..` names inode `i`. -/
structure Names (v : Volume sb) (d : Nat) (c : Cell) (i : Nat) : Prop where
  dir : InTree v d
  proper : c ≠ dotCell ∧ c ≠ dotDotCell
  used : (v.entry d c).fType ≠ ftUnkown
  number : (v.entry d c).iNo = i

/-- The names on the way from the root down to directory `i`. -/
inductive Down (v : Volume sb) : Nat → List Name → Prop
  | root : Down v 0 []
  | entry {d i : Nat} {names : List Name} {c : Cell} : Down v d names → Names v d c i →
      (v.entry d c).fType = ftDirectory → i ≠ 0 → Down v i (names ++ [(v.entry d c).name])

/-- `/` before each name. -/
def joined (names : List Name) : List Byte := names.flatMap (slash :: ·)

/-- A TREE OF DIRECTORIES, as its entries in use have it. The root is open, and open inodes count
those who have them open. -/
structure NamedTree (v : Volume sb) : Prop where
  rootOpen : (v.openInodes 0).isSome = true
  cnts : ∀ n inode, v.openInodes n = some inode → 0 < inode.iOpenCnts ∧ inode.iOpenCnts < 2 ^ 32 - 2
  iNo : ∀ d, InTree v d → (v.inode d).iNo = d
  number : ∀ d, InTree v d → ∀ c, (v.entry d c).fType ≠ ftUnkown →
    (v.entry d c).iNo < 4096 ∧ ((v.entry d c).fType = ftRegular ∨ (v.entry d c).fType = ftDirectory)
  names : ∀ d, InTree v d → ∀ c, (v.entry d c).fType ≠ ftUnkown → ValidName (v.entry d c).name ∧
    slash ∉ (v.entry d c).name
  block : ∀ d, InTree v d → sb.dataStartLba ≤ (v.inode d).iSectors 0
  dot : ∀ d, InTree v d → (v.entry d dotCell).binding = some (dotName, d, ftDirectory)
  dotDot : ∀ d, InTree v d →
    ∃ parent, (v.entry d dotDotCell).binding = some (dotDotName, parent, ftDirectory)
  /-- `..` of the root names the root. -/
  rootParent : (v.entry 0 dotDotCell).iNo = 0
  /-- `..` of another directory names the directory that holds its entry. -/
  parent : ∀ i, i ≠ 0 → InTree v i → ∀ d c, Names v d c i → (v.entry i dotDotCell).iNo = d
  /-- No other directory is named twice. -/
  once : ∀ i, i ≠ 0 → InTree v i → ∀ d c d' c', Names v d c i → Names v d' c' i → d = d' ∧ c = c'
  /-- Full paths fit. -/
  fits : ∀ i names, Down v i names → (joined names).length < maxPathLen

/-- Free entries are cleared, as `delete_dir_entry` leaves them. -/
def FreeCleared (v : Volume sb) : Prop := ∀ d, InTree v d → ∀ c, (v.entry d c).fType = ftUnkown →
  v.entry d c = emptyEntry

/-- No name is used twice in a directory. -/
def NamesDistinct (v : Volume sb) : Prop :=
  ∀ d, InTree v d → ∀ c c', (v.entry d c).fType ≠ ftUnkown → (v.entry d c').fType ≠ ftUnkown →
    (v.entry d c).name = (v.entry d c').name → c = c'

/-- A WELL-FORMED DIRECTORY TREE. -/
structure WellFormed (v : Volume sb) : Prop extends NamedTree v where
  free : FreeCleared v
  distinct : NamesDistinct v

variable {v : Volume sb} {d i n : Nat} {c : Cell} {names : List Name} {path : List Byte}

/-! ## Joined names -/

@[simp] theorem joined_nil : joined [] = [] := rfl

@[simp] theorem joined_cons (name : Name) (names : List Name) :
    joined (name :: names) = slash :: name ++ joined names :=
  List.flatMap_cons

@[simp] theorem joined_append (names names' : List Name) :
    joined (names ++ names') = joined names ++ joined names' :=
  List.flatMap_append

theorem joined_head (names : List Name) :
    joined names = [] ∨ ∃ tail, joined names = slash :: tail := by
  cases names with
  | nil => exact .inl rfl
  | cons name rest => exact .inr ⟨_, joined_cons name rest⟩

/-- Parsing takes the names apart again. -/
theorem components_joined (valid : ∀ name ∈ names, name ≠ [] ∧ slash ∉ name) :
    components (joined names) = names := by
  induction names with
  | nil => rfl
  | cons name rest ih =>
    obtain ⟨⟨ne, plain⟩, hrest⟩ := List.forall_mem_cons.mp valid
    have hname : ∀ c ∈ name, (c != slash) = true := by
      intro c hc
      rw [bne_iff_ne]
      rintro rfl
      exact plain hc
    rw [joined_cons, List.cons_append, components_slash,
      components_name hname ne (joined_head rest), ih hrest]

theorem strrchr_append (ch : Byte) (str str' : List Byte) (i : Nat) (last : Option Nat) :
    strrchr ch (str ++ str') i last = strrchr ch str' (i + str.length) (strrchr ch str i last) := by
  induction str generalizing i last with
  | nil => rfl
  | cons c rest ih =>
    rw [List.length_cons, ← Nat.add_assoc, Nat.add_right_comm]
    exact ih (i + 1) _

theorem strrchr_missing {ch : Byte} {str : List Byte} (h : ch ∉ str) (i : Nat) (last : Option Nat) :
    strrchr ch str i last = last := by
  induction str generalizing i last with
  | nil => rfl
  | cons c rest ih =>
    obtain ⟨hc, hrest⟩ := not_or.mp (mt List.mem_cons.mpr h)
    unfold strrchr
    rw [if_neg (Ne.symm hc)]
    exact ih hrest _ _

/-- The last slash is the one before the last name. -/
theorem strrchr_joined {name : Name} (plain : slash ∉ name) (str : List Byte) :
    strrchr slash (str ++ slash :: name) 0 none = some str.length := by
  rw [strrchr_append, Nat.zero_add]
  unfold strrchr
  rw [if_pos rfl, strrchr_missing plain]

/-- THE SECOND LOOP turns the names round. -/
theorem reverseLoop_joined {size : Nat} {buf : List Byte} (plain : ∀ name ∈ names, slash ∉ name)
    (fits : buf.length + (joined names).length < size) :
    reverseLoop size (joined names) buf = .ok (buf ++ joined names.reverse) := by
  induction names using List.reverseRecOn generalizing buf with
  | nil =>
    unfold reverseLoop
    rw [List.reverse_nil, joined_nil, List.append_nil]
    rfl
  | append_singleton names name ih =>
    have hname : slash ∉ name := plain name (List.mem_append_right _ List.mem_cons_self)
    have split : joined (names ++ [name]) = joined names ++ slash :: name := by simp
    rw [split, List.length_append] at fits
    have room : buf.length + ((joined names ++ slash :: name).length - (joined names).length) <
        size := by
      rw [List.length_append]
      omega
    have last : strrchr slash (joined names ++ slash :: name) 0 none = some (joined names).length :=
      strrchr_joined hname _
    rw [split, reverseLoop]
    split
    next h =>
      rw [last] at h
      cases h
    next k h =>
      rw [last] at h
      cases h
      rw [if_pos room, List.take_left, List.drop_left]
      refine (ih (fun name h => plain name (List.mem_append_left _ h)) ?_).trans ?_
      · rw [List.length_append]
        omega
      · rw [List.reverse_append, List.reverse_singleton, List.singleton_append, joined_cons,
          List.append_assoc]

/-! ## Entries of a directory -/

/-- Where a search leads is in the tree. -/
theorem IsDir.inTree (dir : IsDir v i) : InTree v i := by
  induction dir with
  | root => exact .root
  | entry _ valid found type ih =>
    obtain ⟨c, rfl, -⟩ := searchBlocks_some valid (fun k hk => List.mem_range.mp hk) found
    exact .entry ih type

/-- Where free entries are cleared, what a search finds is an entry in use with the name. -/
theorem found_used (free : FreeCleared v) (dir : InTree v d) {name : Name} {e : DirEntry}
    (valid : ValidName name) (found : v.lookup d name = some e) :
    ∃ c, v.entry d c = e ∧ e.name = name ∧ e.fType ≠ ftUnkown := by
  obtain ⟨c, hc, hname⟩ := searchBlocks_some valid (fun k hk => List.mem_range.mp hk) found
  change v.entry d c = e at hc
  refine ⟨c, hc, hname, fun unused => ?_⟩
  have empty := hc.symm.trans (free d dir c (by rwa [hc]))
  have length := valid.1
  rw [← hname, empty] at length
  exact absurd length (by decide)

/-- What `search_file` asks of a volume. -/
theorem NamedTree.toTree (tree : NamedTree v) (free : FreeCleared v) : Tree v where
  rootOpen := tree.rootOpen
  cnts := tree.cnts
  iNo _ dir := tree.iNo _ dir.inTree
  entry _ dir name e valid found := by
    obtain ⟨c, rfl, -, used⟩ := found_used free dir.inTree valid found
    exact tree.number _ dir.inTree c used

namespace WellFormed

section Entries

variable (wf : WellFormed v) (dir : InTree v d)
include wf dir

/-- An entry in use is found by its name. -/
theorem lookup (used : (v.entry d c).fType ≠ ftUnkown) :
    v.lookup d (v.entry d c).name = some (v.entry d c) := by
  have valid := (wf.names d dir c used).1
  cases found : v.lookup d (v.entry d c).name with
  | none =>
    have held : cells v.part (v.inode d) c =
        some ((v.entry d c).name, (v.entry d c).iNo, (v.entry d c).fType) :=
      binding_some.mpr ⟨used, rfl, rfl, rfl⟩
    exact absurd held (searchDirEntry_none valid found c _)
  | some e =>
    obtain ⟨c', rfl, hname, used'⟩ := found_used wf.free dir valid found
    rw [wf.distinct d dir c' c used' used hname]

theorem dot_used : (v.entry d dotCell).fType ≠ ftUnkown ∧ (v.entry d dotCell).iNo = d := by
  obtain ⟨used, -, number, -⟩ := binding_some.mp (wf.dot d dir)
  exact ⟨used, number⟩

theorem dotDot_used :
    (v.entry d dotDotCell).fType = ftDirectory ∧ (v.entry d dotDotCell).name = dotDotName := by
  obtain ⟨parent, h⟩ := wf.dotDot d dir
  obtain ⟨-, name, -, type⟩ := binding_some.mp h
  exact ⟨type, name⟩

/-- `..` leads to a directory. -/
theorem dotDot_dir : InTree v (v.entry d dotDotCell).iNo := .entry dir (wf.dotDot_used dir).1

/-- A cell with a number other than zero is in use. -/
theorem used_of_number (h : (v.entry d c).iNo ≠ 0) : (v.entry d c).fType ≠ ftUnkown := by
  intro free
  rw [wf.free d dir c free] at h
  exact h rfl

/-- The search goes to each directory of the tree. -/
theorem isDir : IsDir v d := by
  induction dir with
  | root => exact .root
  | @entry d c dir type ih =>
    have used : (v.entry d c).fType ≠ ftUnkown := by
      rw [type]
      decide
    exact .entry ih (wf.names d dir c used).1 (wf.lookup dir used) type

end Entries

theorem toTree (wf : WellFormed v) : Tree v := wf.toNamedTree.toTree wf.free

theorem lt (wf : WellFormed v) (dir : InTree v d) : d < 4096 := (wf.isDir dir).lt wf.toTree

end WellFormed

/-! ## Ways down -/

theorem Down.inTree (down : Down v i names) : InTree v i := by
  induction down with
  | root => exact .root
  | entry _ named type _ ih =>
    have child := InTree.entry ih type
    rwa [named.number] at child

/-- There is one way down. -/
theorem Down.unique (wf : WellFormed v) {names' : List Name} (down : Down v i names)
    (down' : Down v i names') : names = names' := by
  induction down generalizing names' with
  | root =>
    cases down' with
    | root => rfl
    | entry _ _ _ other => exact absurd rfl other
  | entry way named type other ih =>
    cases down' with
    | root => exact absurd rfl other
    | entry way' named' type' _ =>
      obtain ⟨rfl, rfl⟩ :=
        wf.once _ other ((Down.entry way named type other).inTree) _ _ _ _ named named'
      rw [ih way']

/-- Only the root is where no name leads to. -/
theorem Down.of_nil (down : Down v i names) (h : names = []) : i = 0 := by
  cases down with
  | root => rfl
  | entry => simp at h

/-- The parent is on the way. -/
theorem Down.parent (wf : WellFormed v) (down : Down v i names) :
    (v.entry i dotDotCell).iNo = 0 ∧ i = 0 ∨ ∃ name, ∃ up, names = up ++ [name] ∧
      Down v (v.entry i dotDotCell).iNo up := by
  cases down with
  | root => exact .inl ⟨wf.rootParent, rfl⟩
  | entry way named type other =>
    have child := (Down.entry way named type other).inTree
    refine .inr ⟨_, _, rfl, ?_⟩
    rwa [wf.parent i other child _ _ named]

/-- There is a way down to every directory. -/
theorem InTree.down (wf : WellFormed v) (dir : InTree v i) : ∃ names, Down v i names := by
  induction dir with
  | root => exact ⟨[], .root⟩
  | @entry d c dir type ih =>
    obtain ⟨names, way⟩ := ih
    by_cases isDot : c = dotCell
    · rw [isDot, (wf.dot_used dir).2]
      exact ⟨names, way⟩
    by_cases isDotDot : c = dotDotCell
    · rw [isDotDot]
      rcases way.parent wf with ⟨root, -⟩ | ⟨_, up, -, above⟩
      · rw [root]
        exact ⟨[], .root⟩
      · exact ⟨up, above⟩
    by_cases zero : (v.entry d c).iNo = 0
    · rw [zero]
      exact ⟨[], .root⟩
    · have used : (v.entry d c).fType ≠ ftUnkown := by
        rw [type]
        decide
      exact ⟨_, .entry way ⟨dir, ⟨isDot, isDotDot⟩, used, rfl⟩ type zero⟩

/-- A directory is not its own child, and not its child's child: its number is in the parent at one
entry only. -/
theorem Down.cell (wf : WellFormed v) {c' : Cell} (way : Down v d names) (named : Names v d c i)
    (type : (v.entry d c).fType = ftDirectory) (other : i ≠ 0) (number : (v.entry d c').iNo = i) :
    c' = c := by
  have dir := way.inTree
  have down := Down.entry way named type other
  have used : (v.entry d c').fType ≠ ftUnkown := wf.used_of_number dir (by rwa [number])
  have proper : c' ≠ dotCell ∧ c' ≠ dotDotCell := by
    constructor
    · rintro rfl
      rw [(wf.dot_used dir).2] at number
      subst number
      have length := congrArg List.length (way.unique wf down)
      rw [List.length_append, List.length_singleton] at length
      omega
    · rintro rfl
      rcases way.parent wf with ⟨root, -⟩ | ⟨_, up, hup, above⟩
      · exact other (number.symm.trans root)
      · rw [number] at above
        have length := congrArg List.length (above.unique wf down)
        rw [List.length_append, List.length_singleton, hup, List.length_append,
          List.length_singleton] at length
        omega
  exact (wf.once i other down.inTree _ _ _ _ ⟨dir, proper, used, number⟩ named).2

/-- The names on the way are plain ones. -/
theorem Down.plain (wf : WellFormed v) (down : Down v i names) :
    ∀ name ∈ names, ValidName name ∧ slash ∉ name ∧ Proper name := by
  induction down with
  | root => nofun
  | @entry d i names c way named type other ih =>
    have dir := way.inTree
    intro name hname
    rcases List.mem_append.mp hname with h | h
    · exact ih name h
    · obtain rfl := List.mem_singleton.mp h
      obtain ⟨valid, plain⟩ := wf.names d dir c named.used
      refine ⟨valid, plain, fun isDot => named.proper.1 ?_, fun isDotDot => named.proper.2 ?_⟩
      · obtain ⟨used, dotName, -⟩ := binding_some.mp (wf.dot d dir)
        exact wf.distinct d dir _ _ named.used used (isDot.trans dotName.symm)
      · obtain ⟨parent, h⟩ := wf.dotDot d dir
        obtain ⟨used, dotDotName, -⟩ := binding_some.mp h
        exact wf.distinct d dir _ _ named.used used (isDotDot.trans dotDotName.symm)

/-! ## One step up -/

/-- A directory that is opened and closed again. -/
theorem opened_closed (tree : Tree v) (hn : n < 4096) : ∃ inode, v.inodeOpen n = .ok inode ∧
    inode.iSectors = (v.inode n).iSectors ∧
    (v.put n v.part inode).inodeClose n v.part inode = v := by
  have cnts (inode : Inode) (h : v.openInodes n = some inode) : 0 < inode.iOpenCnts ∧
      inode.iOpenCnts < 2 ^ 32 - 1 :=
    ⟨(tree.cnts n inode h).1, by have := (tree.cnts n inode h).2; omega⟩
  exact ⟨_, Volume.inodeOpen_eq (fun inode h => (cnts inode h).2) hn, rfl,
    Volume.inodeClose_put cnts⟩

/-- THE PARENT is what `..` names. -/
theorem getParentDirInodeNo_eq (wf : WellFormed v) (dir : InTree v i) :
    getParentDirInodeNo v i = .ok ((v.entry i dotDotCell).iNo, v) := by
  obtain ⟨inode, hopen, sectors, hclose⟩ := opened_closed wf.toTree (wf.lt dir)
  have block : sb.dataStartLba ≤ inode.iSectors 0 := by
    rw [sectors]
    exact wf.block i dir
  have type := (wf.dotDot_used dir).1
  have entry : dirEntryAt (ideRead v.part (inode.iSectors 0) zeros 1) (dirEntrySize * 1) =
      v.entry i dotDotCell := by
    have used : (v.entry i dotDotCell).fType ≠ 0 := by
      rw [type]
      decide
    obtain ⟨-, -, hslot⟩ := entries_place used
    rw [ideRead_entry zeros (by decide), sectors,
      ← slot_direct (p := v.part) (show 0 < 12 by decide)]
    exact (entries_used (by decide) (by decide) hslot).symm
  unfold getParentDirInodeNo
  rw [hopen, ok_bind]
  dsimp only
  rw [assertThat_of block, ok_bind, hclose, entry, assertThat_of ⟨wf.lt (wf.dotDot_dir dir), type⟩]
  rfl

/-- A string that ends within `n` bytes is the same read further. -/
theorem cStr_more {a : Buf} {off n m : Nat} (short : (cStr a off n).length < n) (hm : n ≤ m) :
    cStr a off m = cStr a off n := by
  induction n generalizing off m with
  | zero => exact absurd short (Nat.not_lt_zero _)
  | succ n ih =>
    obtain ⟨m, rfl⟩ := Nat.exists_eq_succ_of_ne_zero (show m ≠ 0 by omega)
    unfold cStr at short ⊢
    split
    next => rfl
    next more =>
      rw [if_neg more, List.length_cons] at short
      rw [ih (Nat.lt_of_succ_lt_succ short) (Nat.le_of_succ_le_succ hm)]

/-- What the scan of the parent finds is the name in a cell with the number. -/
theorem childBlocks_some {p : Part sb} {inode : Inode} {filename : Name} {ks : List Nat}
    (hks : ∀ k ∈ ks, k < 140) (h : childBlocks p (collectBlocks p inode) n ks = some filename) :
    ∃ c, (entries p inode c).iNo = n ∧
      ((entries p inode c).name.length < 16 → filename = (entries p inode c).name) := by
  induction ks with
  | nil => cases h
  | cons k ks ih =>
    rw [List.forall_mem_cons] at hks
    unfold childBlocks at h
    split at h
    next => exact ih hks.2 h
    next hne =>
      dsimp only at h
      split at h
      next i hfind =>
        cases h
        have hi := List.mem_range.mp (List.mem_of_find?_eq_some hfind)
        have number := List.find?_some hfind
        rw [ideRead_entry zeros hi, beq_iff_eq] at number
        rw [← slot_lt hks.1] at hne number ⊢
        refine ⟨(k, i), ?_, ?_⟩
        · rwa [entries_used hks.1 hi hne]
        · rw [entries_used hks.1 hi hne, ← ideRead_cStr zeros hi]
          intro short
          apply cStr_more short
          unfold dirEntrysPerSec at hi
          unfold sectorSize dirEntrySize
          omega
      next => exact ih hks.2 h

theorem childBlocks_none {p : Part sb} {inode : Inode} {ks : List Nat} (hks : ∀ k ∈ ks, k < 140)
    (h : childBlocks p (collectBlocks p inode) n ks = none) (hc : c.1 ∈ ks)
    (used : (entries p inode c).fType ≠ 0) : (entries p inode c).iNo ≠ n := by
  obtain ⟨-, hi, hslot⟩ := entries_place used
  induction ks with
  | nil => cases hc
  | cons k ks ih =>
    rw [List.forall_mem_cons] at hks
    unfold childBlocks at h
    rw [← slot_lt hks.1] at h
    split at h
    next h0 =>
      rcases List.mem_cons.mp hc with same | hc
      · rw [same] at hslot
        exact absurd h0 hslot
      · exact ih hks.2 h hc
    next =>
      dsimp only at h
      split at h
      next => cases h
      next hfind =>
        rcases List.mem_cons.mp hc with same | hc
        · have missing := List.find?_eq_none.mp hfind c.2 (List.mem_range.mpr hi)
          rw [ideRead_entry zeros hi, beq_iff_eq, ← same] at missing
          rwa [show entries p inode c = _ from entries_used (same ▸ hks.1) hi hslot]
        · exact ih hks.2 h hc

/-- THE NAME is the one on the way down. -/
theorem getChildDirName_eq (wf : WellFormed v) (way : Down v d names) (named : Names v d c i)
    (type : (v.entry d c).fType = ftDirectory) (other : i ≠ 0)
    (fits : path.length + 1 + (v.entry d c).name.length < maxPathLen) :
    getChildDirName v d i path = .ok (some (path ++ slash :: (v.entry d c).name), v) := by
  have dir := way.inTree
  obtain ⟨inode, hopen, sectors, hclose⟩ := opened_closed wf.toTree (wf.lt dir)
  have blocks : collectBlocks v.part inode = collectBlocks v.part (v.inode d) :=
    collectBlocks_congr sectors
  have all : ∀ k ∈ List.range (if inode.iSectors 12 ≠ 0 then 140 else 12), k < 140 := by
    intro k hk
    have := List.mem_range.mp hk
    split at this <;> omega
  have scanned : c.1 ∈ List.range (if inode.iSectors 12 ≠ 0 then 140 else 12) := by
    obtain ⟨hk, -, hslot⟩ := entries_place named.used
    rw [List.mem_range]
    split
    next => exact hk
    next noTable =>
      -- without a table the slots from 12 on have no blocks
      by_contra far
      rw [slot_indirect (by omega) hk,
        if_pos (by rw [← sectors]; exact not_not.mp noTable)] at hslot
      exact hslot rfl
  have found : childBlocks v.part (collectBlocks v.part inode) i
      (List.range (if inode.iSectors 12 ≠ 0 then 140 else 12)) =
      some (v.entry d c).name := by
    rw [blocks]
    cases h : childBlocks v.part (collectBlocks v.part (v.inode d)) i
      (List.range (if inode.iSectors 12 ≠ 0 then 140 else 12)) with
    | none => exact absurd named.number (childBlocks_none all h scanned named.used)
    | some filename =>
      obtain ⟨c', number, hname⟩ := childBlocks_some all h
      obtain rfl := way.cell wf named type other number
      have short := (wf.names d dir c' named.used).1.2.1
      exact congrArg some (hname (Nat.lt_succ_of_le short))
  unfold getChildDirName
  rw [hopen, ok_bind]
  dsimp only
  rw [hclose, found]
  dsimp only
  unfold strcatName
  rw [if_pos fits]
  rfl

/-! ## All the way up -/

/-- THE CLIMB goes the way down backwards. -/
theorem climbLoop_eq (wf : WellFormed v) (down : Down v i names)
    (fits : path.length + (joined names).length < maxPathLen) :
    climbLoop v i path = .ok (some (path ++ joined names.reverse), v) := by
  induction down generalizing path with
  | root =>
    rw [climbLoop, if_pos rfl, List.reverse_nil, joined_nil, List.append_nil]
  | @entry d i names c way named type other ih =>
    have dir := (Down.entry way named type other).inTree
    have weight : (joined (names ++ [(v.entry d c).name])).length =
        (joined names).length + ((v.entry d c).name.length + 1) := by simp
    have up : getParentDirInodeNo v i = .ok (d, v) := by
      rw [getParentDirInodeNo_eq wf dir, wf.parent i other dir d c named]
    have name : getChildDirName v d i path = .ok (some (path ++ slash :: (v.entry d c).name), v) :=
      getChildDirName_eq wf way named type other (by omega)
    rw [climbLoop, if_neg other, up]
    dsimp only
    split
    next h =>
      rw [name] at h
      cases h
    next h =>
      rw [name] at h
      cases h
    next h =>
      rw [name] at h
      cases h
      rw [ih (by rw [List.length_append, List.length_cons]; omega)]
      simp

/-! ## Down again -/

theorem walk_append {o : Nat} {name : Name} {e : DirEntry}
    (h : walk v o names = some (d, ftDirectory)) (found : v.lookup d name = some e)
    (type : e.fType = ftDirectory) : walk v o (names ++ [name]) = some (e.iNo, ftDirectory) := by
  induction names generalizing o with
  | nil =>
    cases h
    rw [List.nil_append, walk, found]
    dsimp only
    rw [if_pos type]
    rfl
  | cons first rest ih =>
    rw [List.cons_append]
    unfold walk at h ⊢
    cases step : v.lookup o first with
    | none =>
      rw [step] at h
      cases h
    | some e' =>
      rw [step] at h
      dsimp only at h ⊢
      split at h
      next isDir =>
        rw [if_pos isDir]
        exact ih h
      next notDir =>
        split at h
        next => exact absurd (Prod.mk.inj (Option.some.inj h)).2 notDir
        next => cases h

/-- A path to a directory does not go through a file. -/
theorem walk_whole {o : Nat} (h : walk v o names = some (i, ftDirectory)) :
    throughFile v o names = false := by
  induction names generalizing o with
  | nil => rfl
  | cons first rest ih =>
    unfold walk at h
    unfold throughFile
    cases step : v.lookup o first with
    | none => rfl
    | some e =>
      rw [step] at h
      dsimp only at h ⊢
      split at h
      next isDir =>
        rw [if_pos isDir]
        exact ih h
      next notDir =>
        split at h
        next => exact absurd (Prod.mk.inj (Option.some.inj h)).2 notDir
        next => cases h

theorem Down.walk (wf : WellFormed v) (down : Down v i names) :
    walk v 0 names = some (i, ftDirectory) := by
  induction down with
  | root => rfl
  | @entry d i names c way named type other ih =>
    rw [← named.number]
    exact walk_append ih (wf.lookup way.inTree named.used) type

/-- The path with these names: `/` alone where there are none. -/
def fullPath (names : List Name) : List Byte := if names = [] then [slash] else joined names

/-- `search_file` goes the way down. -/
theorem Down.search (wf : WellFormed v) (down : Down v i names) (dirE : DirEntry) :
    ∃ s, searchFile v dirE (fullPath names) = .ok ((i : Int), s) ∧
      s.record.fileType = ftDirectory := by
  have walked := down.walk wf
  unfold fullPath
  split
  next empty =>
    subst empty
    cases walked
    exact ⟨_, if_pos (by decide), rfl⟩
  next named =>
    have plain := down.plain wf
    have parts : components (joined names) = names := components_joined fun name h => by
      obtain ⟨valid, noSlash, -⟩ := plain name h
      refine ⟨?_, noSlash⟩
      rintro rfl
      exact absurd valid.1 (by decide)
    have valid : ValidPath (joined names) := by
      refine ⟨(joined_head names).resolve_left ?_, wf.fits i names down, ?_⟩
      · intro h
        rw [h] at parts
        exact named parts.symm
      · rw [parts]
        exact fun name h => (plain name h).1
    have other : joined names ∉ rootNames := by
      intro root
      have cases : joined names = [slash] ∨ joined names = slash :: dotName ∨
          joined names = slash :: dotDotName := by
          simpa [rootNames] using root
      rw [← parts] at named plain
      rcases cases with h | h | h <;> rw [h] at named plain
      · exact named rfl
      · exact (plain dotName List.mem_cons_self).2.2.1 rfl
      · exact (plain dotDotName List.mem_cons_self).2.2.2 rfl
    have whole : throughFile v 0 (components (joined names)) = false := by
      rw [parts]
      exact walk_whole walked
    have last : components (joined names) = [] → toInt dirE.iNo = 0 :=
      fun h => absurd (parts.symm.trans h) named
    obtain ⟨s, hsearch, -, type, -⟩ := searchFile_walk wf.toTree valid other whole last
    rw [parts, walked] at hsearch type
    exact ⟨s, hsearch, type⟩

/-- `sys_getcwd` answers the names from the root down to directory `i`, if there is memory, and
`search_file` finds the directory by them. -/
def InvertsSearch (v : Volume sb) (i size : Nat) : Prop :=
  ∃ names, Down v i names ∧
    (∀ ioBuf, sysGetcwd true ioBuf v i size =
      .ok (if ioBuf then some (fullPath names) else none, v)) ∧
    ∀ dirE, ∃ s, searchFile v dirE (fullPath names) = .ok ((i : Int), s) ∧
      s.record.fileType = ftDirectory

/-- GETCWD INVERTS THE SEARCH, in every directory of a well-formed tree. -/
theorem getcwd_inverts_search (v : Volume sb) (i size : Nat) (wf : WellFormed v) (dir : InTree v i)
    (hsize : 512 ≤ size) : InvertsSearch v i size := by
  obtain ⟨names, down⟩ := dir.down wf
  refine ⟨names, down, fun ioBuf => ?_, down.search wf⟩
  have small := wf.lt dir
  have fits := wf.fits i names down
  unfold maxPathLen at fits
  unfold sysGetcwd
  rw [assertThat_of rfl, ok_bind]
  cases ioBuf with
  | false => rfl
  | true =>
    rw [if_neg (by decide), assertThat_of small, ok_bind]
    by_cases root : i = 0
    · subst root
      obtain rfl := down.unique wf .root
      rw [if_pos rfl, if_neg (by omega)]
      rfl
    · have named : names ≠ [] := fun h => root (down.of_nil h)
      have climb : climbLoop v i [] = .ok (some (joined names.reverse), v) :=
        climbLoop_eq wf down (by rw [List.length_nil]; unfold maxPathLen; omega)
      have same : (joined names.reverse).length = (joined names).length :=
        ((List.reverse_perm names).flatMap_right _).length_eq
      have turned : reverseLoop size (joined names.reverse) [] =
          .ok (joined names.reverse.reverse) :=
        reverseLoop_joined (fun name h => (down.plain wf name (List.mem_reverse.mp h)).2.1)
          (by rw [List.length_nil]; omega)
      rw [List.reverse_reverse] at turned
      rw [if_neg root, climb, ok_bind]
      dsimp only
      rw [assertThat_of (by omega), ok_bind, turned]
      unfold fullPath
      rw [if_neg named]
      rfl

/-! ## A directory in the root -/

/-- `"d"` -/
def homeName : Name := [100]

/-- The entries of the root and of `/d`, which is inode 1. In the root the slot before `d` is left
open. -/
def homeEntry (extra : Option (Name × Nat × Nat)) : Nat → Nat → Option (Name × Nat × Nat)
  | d, 0 => some (dotName, d, ftDirectory)
  | _, 1 => some (dotDotName, 0, ftDirectory)
  | 0, 2 => extra
  | 0, 3 => some (homeName, 1, ftDirectory)
  | _, _ => none

/-- In that slot there may be what was there before, or a file. -/
def NoDirectory (extra : Option (Name × Nat × Nat)) : Prop :=
  ∀ e, extra = some e → (ValidName e.1 ∧ slash ∉ e.1) ∧ e.2.1 < 4096 ∧
    (e.2.2 = ftUnkown ∨ e.2.2 = ftRegular ∧ 2 ≤ e.2.1)

/-- The disk: the block of directory `d` is 700 + `d`. -/
def homeDisk (extra : Option (Name × Nat × Nat)) (a : Nat) : Byte :=
  if a / 512 = 700 ∨ a / 512 = 701 then
    (homeEntry extra (a / 512 - 700) (a % 512 / 24)).elim 0 fun e =>
      entryBuf e.1 e.2.1 e.2.2 (a % 512 % 24)
  else 0

def homePart (extra : Option (Name × Nat × Nat)) : Part smallDisk :=
  { fullPart with disk := homeDisk extra }

def homeInode (d : Nat) : Inode where
  iNo := d
  iSize := 96
  iOpenCnts := 1
  writenDeny := false
  iSectors k := if k = 0 then 700 + d else 0

/-- The volume with both directories open. -/
def homeVolume (extra : Option (Name × Nat × Nat)) : Volume smallDisk :=
  ⟨homePart extra, fun n => if n < 2 then some (homeInode n) else none⟩

section Home

variable {extra : Option (Name × Nat × Nat)}

theorem home_sector {d i : Nat} (hd : d < 2) (hi : i < dirEntrysPerSec) :
    entryOf (homePart extra) (700 + d) i =
      (homeEntry extra d i).elim emptyEntry fun e => dirEntryAt (entryBuf e.1 e.2.1 e.2.2) 0 := by
  have hat {j : Nat} (hj : j < 24) : sector (homePart extra) (700 + d) (dirEntrySize * i + j) =
      (homeEntry extra d i).elim 0 fun e => entryBuf e.1 e.2.1 e.2.2 j := by
    show homeDisk extra _ = _
    unfold dirEntrysPerSec at hi
    unfold homeDisk sectorSize dirEntrySize
    rw [if_pos (by omega), show (512 * (700 + d) + (24 * i + j)) / 512 - 700 = d by omega,
      show (512 * (700 + d) + (24 * i + j)) % 512 = 24 * i + j by omega,
      show (24 * i + j) / 24 = i by omega,
      show (24 * i + j) % 24 = j by omega]
  cases h : homeEntry extra d i with
  | none =>
    refine dirEntryAt_congr fun j hj => ?_
    rw [hat hj, h]
    rfl
  | some e =>
    refine dirEntryAt_congr fun j hj => ?_
    rw [hat hj, h, Nat.zero_add]
    rfl

theorem home_slot {d k : Nat} :
    slot (homePart extra) (homeInode d) k = if k = 0 then 700 + d else 0 := by
  have noTable : (homeInode d).iSectors 12 = 0 := rfl
  rw [slot_noTable noTable]
  split
  next => rfl
  next hk => exact (if_neg (by omega)).symm

theorem home_index {d i : Nat} {e : Name × Nat × Nat} (h : homeEntry extra d i = some e) :
    i < dirEntrysPerSec := by
  unfold homeEntry at h
  split at h <;> first | decide | cases h

/-- An entry is a directory that the tree has, or the one in the slot left open. -/
theorem home_valid (ok : NoDirectory extra) {d i : Nat} {e : Name × Nat × Nat} (hd : d < 2)
    (h : homeEntry extra d i = some e) :
    (ValidName e.1 ∧ slash ∉ e.1) ∧ e.2.1 < 4096 ∧
      (e.2.2 = ftDirectory ∧ e.2.1 < 2 ∨ e.2.2 = ftUnkown ∨ e.2.2 = ftRegular ∧ 2 ≤ e.2.1) := by
  unfold homeEntry at h
  split at h
  next =>
    cases h
    exact ⟨show ValidName dotName ∧ slash ∉ dotName by decide, show d < 4096 by omega,
      .inl ⟨rfl, hd⟩⟩
  next =>
    cases h
    decide
  next =>
    obtain ⟨valid, number, type⟩ := ok e h
    exact ⟨valid, number, .inr type⟩
  next =>
    cases h
    decide
  next => cases h

theorem home_entry {d : Nat} (hd : d < 2) (c : Cell) :
    (homeVolume extra).entry d c =
      if c.1 = 0 then
        (homeEntry extra d c.2).elim emptyEntry fun e => dirEntryAt (entryBuf e.1 e.2.1 e.2.2) 0
      else emptyEntry := by
  obtain ⟨k, i⟩ := c
  have inode : (homeVolume extra).inode d = homeInode d := Volume.inode_open (if_pos hd)
  unfold Volume.entry
  rw [inode]
  show entries (homePart extra) (homeInode d) (k, i) = _
  by_cases place : k = 0 ∧ i < dirEntrysPerSec
  · obtain ⟨rfl, hi⟩ := place
    rw [entries_used (by decide) hi (by rw [home_slot, if_pos rfl]; omega), home_slot, if_pos rfl,
      home_sector hd hi, if_pos rfl]
  · have empty : entries (homePart extra) (homeInode d) (k, i) = emptyEntry := by
      apply if_neg
      rintro ⟨-, hi, hslot⟩
      dsimp only at hi hslot
      rw [home_slot] at hslot
      split at hslot
      next hk => exact place ⟨hk, hi⟩
      next => exact hslot rfl
    rw [empty]
    split
    next hk =>
      cases h : homeEntry extra d i with
      | none => rfl
      | some e => exact absurd ⟨hk, home_index h⟩ place
    next => rfl

/-- What the cells hold. -/
theorem home_held (ok : NoDirectory extra) {d : Nat} (hd : d < 2) {c : Cell} {e : Name × Nat × Nat}
    (hc : c.1 = 0) (h : homeEntry extra d c.2 = some e) :
    ((homeVolume extra).entry d c).name = e.1 ∧ ((homeVolume extra).entry d c).iNo = e.2.1 ∧
      ((homeVolume extra).entry d c).fType = e.2.2 := by
  obtain ⟨⟨valid, -⟩, number, type⟩ := home_valid ok hd h
  rw [home_entry hd, if_pos hc, h]
  refine entryBuf_fields valid (by omega) ?_
  rcases type with ⟨type, -⟩ | type | ⟨type, -⟩ <;> rw [type] <;> decide

/-- An entry in use is one of those. -/
theorem home_used (ok : NoDirectory extra) {d : Nat} (hd : d < 2) {c : Cell}
    (used : ((homeVolume extra).entry d c).fType ≠ ftUnkown) :
    c.1 = 0 ∧ homeEntry extra d c.2 = some (((homeVolume extra).entry d c).name,
      ((homeVolume extra).entry d c).iNo, ((homeVolume extra).entry d c).fType) := by
  by_cases hc : c.1 = 0
  · cases h : homeEntry extra d c.2 with
    | none =>
      rw [home_entry hd, if_pos hc, h] at used
      exact absurd rfl used
    | some e =>
      obtain ⟨name, number, type⟩ := home_held ok hd hc h
      rw [name, number, type]
      exact ⟨hc, rfl⟩
  · rw [home_entry hd, if_neg hc] at used
    exact absurd rfl used

theorem home_dir (ok : NoDirectory extra) {d : Nat} (dir : InTree (homeVolume extra) d) :
    d < 2 := by
  induction dir with
  | root => decide
  | @entry d c _ type ih =>
    have used : ((homeVolume extra).entry d c).fType ≠ ftUnkown := by
      rw [type]
      decide
    obtain ⟨-, -, directory | stale | file⟩ := home_valid ok ih (home_used ok ih used).2
    · exact directory.2
    · exact absurd stale used
    · exact absurd (type.symm.trans file.1) (by decide)

/-- The one directory besides `.` and `..` is `/d`, named once. -/
theorem home_named (ok : NoDirectory extra) {d i : Nat} {c : Cell}
    (named : Names (homeVolume extra) d c i) (hi : i < 2) :
    d = 0 ∧ c = (0, 3) ∧ ((homeVolume extra).entry d c).name = homeName := by
  obtain ⟨k, j⟩ := c
  have hd := home_dir ok named.dir
  obtain ⟨hk, held⟩ := home_used ok hd named.used
  dsimp only at hk held
  subst hk
  have sort := (home_valid ok hd held).2.2
  dsimp only at sort
  rw [named.number] at held sort
  unfold homeEntry at held
  split at held
  next => exact absurd rfl named.proper.1
  next => exact absurd rfl named.proper.2
  next =>
    rcases (ok _ held).2.2 with stale | ⟨-, far⟩
    · exact absurd stale named.used
    · exact absurd hi (Nat.not_lt.mpr far)
  next => exact ⟨rfl, rfl, (Prod.mk.inj (Option.some.inj held)).1.symm⟩
  next => cases held

theorem home_down (ok : NoDirectory extra) {i : Nat} {names : List Name}
    (down : Down (homeVolume extra) i names) : names = [] ∨ names = [homeName] := by
  cases down with
  | root => exact .inl rfl
  | entry way named type other =>
    obtain ⟨rfl, -, name⟩ :=
      home_named ok named (home_dir ok (Down.entry way named type other).inTree)
    rw [name]
    cases way with
    | root => exact .inr rfl
    | entry _ _ _ other => exact absurd rfl other

theorem home_dotDot (ok : NoDirectory extra) {d : Nat} (hd : d < 2) :
    ((homeVolume extra).entry d dotDotCell).binding = some (dotDotName, 0, ftDirectory) := by
  obtain ⟨name, number, type⟩ := home_held ok hd (c := dotDotCell) rfl rfl
  exact binding_some.mpr ⟨by rw [type]; decide, name, number, type⟩

theorem home_tree (ok : NoDirectory extra) : NamedTree (homeVolume extra) where
  rootOpen := rfl
  cnts n inode h := by
    change (if n < 2 then some (homeInode n) else none) = some inode at h
    split at h
    · cases h
      exact ⟨Nat.one_pos, show 1 < 2 ^ 32 - 2 by decide⟩
    · cases h
  iNo d dir :=
    congrArg Inode.iNo (Volume.inode_open (v := homeVolume extra) (if_pos (home_dir ok dir)))
  number d dir c used := by
    obtain ⟨-, number, sort⟩ :=
      home_valid ok (home_dir ok dir) (home_used ok (home_dir ok dir) used).2
    refine ⟨number, ?_⟩
    rcases sort with directory | stale | file
    · exact .inr directory.1
    · exact absurd stale used
    · exact .inl file.1
  names d dir c used := (home_valid ok (home_dir ok dir) (home_used ok (home_dir ok dir) used).2).1
  block d dir := by
    have inode : (homeVolume extra).inode d = homeInode d :=
      Volume.inode_open (if_pos (home_dir ok dir))
    rw [inode]
    show 612 ≤ 700 + d
    omega
  dot d dir := by
    obtain ⟨name, number, type⟩ := home_held ok (home_dir ok dir) (c := dotCell) rfl rfl
    exact binding_some.mpr ⟨by rw [type]; exact (show ftDirectory ≠ 0 by decide),
      name, number, type⟩
  dotDot d dir := ⟨0, home_dotDot ok (home_dir ok dir)⟩
  rootParent := (binding_some.mp (home_dotDot ok (by decide))).2.2.1
  parent i _ dir d c named := by
    obtain ⟨rfl, -, -⟩ := home_named ok named (home_dir ok dir)
    exact (binding_some.mp (home_dotDot ok (home_dir ok dir))).2.2.1
  once i _ dir d c d' c' named named' := by
    obtain ⟨rfl, rfl, -⟩ := home_named ok named (home_dir ok dir)
    obtain ⟨rfl, rfl, -⟩ := home_named ok named' (home_dir ok dir)
    exact ⟨rfl, rfl⟩
  fits i names down := by
    rcases home_down ok down with rfl | rfl <;> decide

/-- `/d` is a directory. -/
theorem home_child (ok : NoDirectory extra) : InTree (homeVolume extra) 1 := by
  obtain ⟨-, number, type⟩ := home_held ok (d := 0) (by decide) (c := (0, 3)) rfl rfl
  have child := InTree.entry (v := homeVolume extra) .root type
  rwa [number] at child

theorem home_free (ok : NoDirectory extra) (used : ∀ e, extra = some e → e.2.2 ≠ ftUnkown) :
    FreeCleared (homeVolume extra) := by
  intro d dir c h
  have hd := home_dir ok dir
  by_cases hc : c.1 = 0
  · cases held : homeEntry extra d c.2 with
    | none => rw [home_entry hd, if_pos hc, held, Option.elim_none]
    | some e =>
      rw [(home_held ok hd hc held).2.2] at h
      unfold homeEntry at held
      split at held
      next =>
        cases held
        cases h
      next =>
        cases held
        cases h
      next => exact absurd h (used e held)
      next =>
        cases held
        cases h
      next => cases held
  · rw [home_entry hd, if_neg hc]

theorem home_distinct (ok : NoDirectory extra) (unused : ∀ e, extra = some e → e.2.2 = ftUnkown) :
    NamesDistinct (homeVolume extra) := by
  have apart {d i j : Nat} {e e' : Name × Nat × Nat} (h : homeEntry extra d i = some e)
      (used : e.2.2 ≠ ftUnkown)
      (h' : homeEntry extra d j = some e') (used' : e'.2.2 ≠ ftUnkown) (same : e.1 = e'.1) :
        i = j := by
    unfold homeEntry at h h'
    split at h <;> split at h' <;> first
      | rfl
      | exact absurd (unused _ h) used
      | exact absurd (unused _ h') used'
      | cases h <;> cases h' <;> dsimp only at same <;> exact absurd same (by decide)
  intro d dir c c' used used' same
  obtain ⟨hk, held⟩ := home_used ok (home_dir ok dir) used
  obtain ⟨hk', held'⟩ := home_used ok (home_dir ok dir) used'
  exact Prod.ext (hk.trans hk'.symm) (apart held used held' used' same)

end Home

theorem noDirectory_none : NoDirectory none := fun e h => absurd h.symm (Option.some_ne_none e)

theorem home_wellFormed : WellFormed (homeVolume none) where
  toNamedTree := home_tree noDirectory_none
  free := home_free noDirectory_none fun e h => absurd h.symm (Option.some_ne_none e)
  distinct := home_distinct noDirectory_none fun e h => absurd h.symm (Option.some_ne_none e)

/-- The theorem in `/d`. The slot before its entry is free, and cleared. -/
theorem getcwd_inverts_home : InvertsSearch (homeVolume none) 1 512 := by
  exact getcwd_inverts_search (homeVolume none) 1 512 home_wellFormed (home_child noDirectory_none)
    (Nat.le_refl _)

/-- In the slot before `d` there is left what a directory `x` had there, with the number that `d`
has now. -/
def stale : Option (Name × Nat × Nat) := some ([120], 1, ftUnkown)

/-- In the slot before `d` there is a file of the same name. -/
def twin : Option (Name × Nat × Nat) := some (homeName, 2, ftRegular)

theorem noDirectory_stale : NoDirectory stale := by
  rintro _ ⟨⟩
  decide

theorem noDirectory_twin : NoDirectory twin := by
  rintro _ ⟨⟩
  decide

/-- The names down to `/d`, as `sys_getcwd` should answer them. -/
theorem home_path (ok : NoDirectory extra) (down : Down (homeVolume extra) 1 names) :
    fullPath names = slash :: homeName := by
  rcases home_down ok down with rfl | rfl
  · exact absurd (down.of_nil rfl) (by decide)
  · rfl

/-- The search for `/d` stops at the file of that name. -/
theorem twin_searched :
    ∃ s, searchFile (homeVolume twin) emptyEntry (slash :: homeName) = .ok (2, s) := by
  have free := home_free noDirectory_twin (by rintro _ ⟨⟩; decide)
  have found : ((homeVolume twin).lookup 0 homeName).map (fun e => (e.iNo, e.fType)) =
      some (2, ftRegular) := by
    decide +kernel
  obtain ⟨e, hlookup, he⟩ := Option.map_eq_some_iff.mp found
  obtain ⟨number, type⟩ := Prod.mk.inj he
  have file : e.fType ≠ ftDirectory := by
    rw [type]
    decide
  have parts : components (slash :: homeName) = [homeName] :=
    components_joined (show ∀ name ∈ [homeName], name ≠ [] ∧ slash ∉ name by decide)
  have walked : walk (homeVolume twin) 0 [homeName] = some (2, ftRegular) := by
    unfold walk
    rw [hlookup]
    dsimp only
    rw [if_neg file, if_pos rfl, number, type]
  have whole : throughFile (homeVolume twin) 0 [homeName] = false := by
    unfold throughFile
    rw [hlookup]
    dsimp only
    rw [if_neg file]
    rfl
  have valid : ValidPath (slash :: homeName) := ⟨⟨_, rfl⟩, by decide, by rw [parts]; decide⟩
  have last : components (slash :: homeName) = [] → toInt emptyEntry.iNo = 0 :=
    fun h => absurd (parts.symm.trans h) (List.cons_ne_nil _ _)
  obtain ⟨s, hsearch, -⟩ :=
    searchFile_walk ((home_tree noDirectory_twin).toTree free) valid (by decide) (by rwa [parts])
      last
  rw [parts, walked] at hsearch
  exact ⟨s, hsearch⟩

/-- THE TREE ALONE IS NOT ENOUGH. Over a slot that is free but not cleared `sys_getcwd` answers `/x`
in `/d`; and where a file before it has the name of `d`, the search for `/d` finds the file. -/
theorem getcwd_differs :
    (¬ ∀ v : Volume smallDisk, NamedTree v → NamesDistinct v → ∀ i, InTree v i →
      InvertsSearch v i 512) ∧
    ¬ ∀ v : Volume smallDisk, NamedTree v → FreeCleared v → ∀ i, InTree v i →
      InvertsSearch v i 512 := by
  constructor
  · intro h
    have distinct := home_distinct noDirectory_stale (by rintro _ ⟨⟩; rfl)
    obtain ⟨names, down, answer, -⟩ :=
      h (homeVolume stale) (home_tree noDirectory_stale) distinct 1 (home_child noDirectory_stale)
    have answers : ((sysGetcwd true true (homeVolume stale) 1 512).toOption.map Prod.fst) =
        some (some [47, 120]) := by
      decide +kernel
    rw [answer true, home_path noDirectory_stale down] at answers
    cases answers
  · intro h
    have free := home_free noDirectory_twin (by rintro _ ⟨⟩; decide)
    obtain ⟨names, down, -, search⟩ :=
      h (homeVolume twin) (home_tree noDirectory_twin) free 1 (home_child noDirectory_twin)
    obtain ⟨s, hsearch, -⟩ := search emptyEntry
    obtain ⟨s', hfile⟩ := twin_searched
    rw [home_path noDirectory_twin down, hfile] at hsearch
    cases hsearch

end SeekingOs.Fs
