import SeekingOs.Fs.WholePaths

/-!
# Three calls on one path

`sys_stat`, `sys_opendir` and `sys_chdir` search for a path after a test of their own for the root.
`sys_opendir` looks at the first two characters only and answers `&root_dir` for every path that
begins with `/.`, whatever it names. The other two compare the whole string.
-/

namespace SeekingOs.Fs

open Lib

variable {sb : SuperBlock} {v : Volume sb} {ref : DirRef} {names : List Name}
  {path searchedPath : List Byte}
  {dirE : DirEntry} {parentInodeNo n : Nat}

/-- `'.'` -/
def dot : Byte := 46

/-- `sys_opendir`; `none` is `NULL`. -/
def sysOpendir (v : Volume sb) (dirE : DirEntry) (name : List Byte) :
    Except Fault (Option DirRef × Volume sb) := do
  assertThat false (name.length < maxPathLen) "sys_opendir" "strlen(name) < MAX_PATH_LEN"
  if name.head? = some slash ∧ (name[1]? = some dot ∨ name[1]? = none) then return (some .root, v)
  else
    let (inodeNo, s) ← searchFile v dirE name
    if inodeNo = -1 ∨ s.record.fileType = ftRegular then
      return (none, s.vol.dirClose s.record.parentDir)
    else if s.record.fileType = ftDirectory then
      let (vol, ret) ← s.vol.dirOpen (u32 inodeNo)
      return (some ret, vol.dirClose s.record.parentDir)
    else return (none, s.vol.dirClose s.record.parentDir)

/-- `sys_chdir`: the answer and `cwd_inode_nr`. The directory that the search leaves open stays
open. -/
def sysChdir (v : Volume sb) (dirE : DirEntry) (cwdInodeNr : Nat) (path : List Byte) :
    Except Fault ((Int × Nat) × Volume sb) := do
  let (inodeNo, s) ← searchFile v dirE path
  if inodeNo ≠ -1 ∧ s.record.fileType = ftDirectory then return ((0, u32 inodeNo), s.vol)
  else return ((-1, cwdInodeNr), s.vol)

/-- Where `sys_stat` reports a directory the other two get to it, and where it fails they fail,
whatever is on the stack when each of them is called. -/
structure CallsAgree (v : Volume sb) (path : List Byte) : Prop where
  directory : ∀ dirE₁ dirE₂ dirE₃ cwd st v₁, sysStat v dirE₁ path = .ok (some st, v₁) →
    st.stFiletype = ftDirectory →
    (∃ ref v₂, sysOpendir v dirE₂ path = .ok (some ref, v₂) ∧ ref.inodeNo = st.stIno) ∧
      ∃ v₃, sysChdir v dirE₃ cwd path = .ok ((0, st.stIno), v₃)
  failure : ∀ dirE₁ dirE₂ dirE₃ cwd v₁, sysStat v dirE₁ path = .ok (none, v₁) →
    (∃ v₂, sysOpendir v dirE₂ path = .ok (none, v₂)) ∧
    ∃ v₃, sysChdir v dirE₃ cwd path = .ok ((-1, cwd), v₃)

/-! ## What the search answers -/

/-- The search fails, or answers the number of a file or directory. -/
theorem follow_cases (tree : Tree v) (searchedPath : List Byte) (parentInodeNo : Nat)
    (dir : IsDir v ref.inodeNo) (valid : ∀ name ∈ names, ValidName name)
    (last : names = [] → dirE.iNo < 4096) :
    (follow v ref searchedPath parentInodeNo dirE names).1 = -1 ∨
      ∃ n : Nat, n < 4096 ∧ (follow v ref searchedPath parentInodeNo dirE names).1 = (n : Int) ∧
        ((follow v ref searchedPath parentInodeNo dirE names).2.record.fileType = ftRegular ∨
          (follow v ref searchedPath parentInodeNo dirE names).2.record.fileType =
          ftDirectory) := by
  induction names generalizing ref searchedPath parentInodeNo dirE with
  | nil => exact .inr ⟨_, last rfl, toInt_small (last rfl), .inr rfl⟩
  | cons name rest ih =>
    obtain ⟨hname, hrest⟩ := List.forall_mem_cons.mp valid
    unfold follow
    cases found : v.lookup ref.inodeNo name with
    | none => exact .inl rfl
    | some e =>
      obtain ⟨hno, -⟩ := tree.entry _ dir _ _ hname found
      dsimp only
      split
      next isDir =>
        have child : IsDir v (DirRef.opened e.iNo).inodeNo := .entry dir hname found isDir
        exact ih _ _ child hrest fun _ => hno
      next => exact .inr ⟨_, hno, toInt_small hno, .inl rfl⟩

/-- Where there is a name to look up, the answer does not depend on the stack. -/
theorem follow_stack (v : Volume sb) (ref : DirRef) (searchedPath : List Byte) (parentInodeNo : Nat)
    (dirE dirE' : DirEntry) (named : names ≠ []) :
    (follow v ref searchedPath parentInodeNo dirE names).1 =
      (follow v ref searchedPath parentInodeNo dirE' names).1 ∧
      (follow v ref searchedPath parentInodeNo dirE names).2.record =
        (follow v ref searchedPath parentInodeNo dirE' names).2.record := by
  cases names with
  | nil => exact absurd rfl named
  | cons name rest =>
    unfold follow
    cases v.lookup ref.inodeNo name with
    | none => exact ⟨rfl, rfl⟩
    | some e => exact ⟨rfl, rfl⟩

/-- A search that goes through a file ends there. -/
theorem follow_through (through : throughFile v ref.inodeNo names = true) :
    (follow v ref searchedPath parentInodeNo dirE names).2.record.fileType = ftRegular := by
  induction names generalizing ref searchedPath parentInodeNo dirE with
  | nil => cases through
  | cons name rest ih =>
    unfold throughFile at through
    unfold follow
    cases found : v.lookup ref.inodeNo name with
    | none =>
      rw [found] at through
      cases through
    | some e =>
      rw [found] at through
      dsimp only at through ⊢
      split
      next isDir =>
        rw [if_pos isDir] at through
        have through : throughFile v (DirRef.opened e.iNo).inodeNo rest = true := through
        exact ih through
      next => rfl

/-! ## The calls after a search -/

section Search

variable {s : SearchState sb}

theorem sysStat_missing (tree : Tree v) (other : path ∉ rootNames)
    (hsearch : searchFile v dirE path = .ok (-1, s)) (held : s.vol = v.held s.record.parentDir) :
    sysStat v dirE path = .ok (none, v) := by
  unfold sysStat
  rw [if_neg other, hsearch, ok_bind]
  dsimp only
  rw [if_pos rfl, held, dirClose_after tree]
  rfl

theorem sysStat_found (tree : Tree v) (other : path ∉ rootNames)
    (hsearch : searchFile v dirE path = .ok ((n : Int), s))
    (held : s.vol = v.held s.record.parentDir) (hn : n < 4096) :
    sysStat v dirE path = .ok (some ⟨n, (v.inode n).iSize, s.record.fileType⟩, v) := by
  obtain ⟨inode, hopen, size, hclose⟩ := stat_object tree s.record.parentDir hn
  have found : (n : Int) ≠ -1 := by omega
  have number : u32 (n : Int) = n := u32_of_lt (by omega)
  unfold sysStat
  rw [if_neg other, hsearch, ok_bind]
  dsimp only
  rw [if_neg found, number, held, hopen, ok_bind, hclose, dirClose_after tree, size]
  rfl

/-- A path that `sys_opendir` searches for. -/
def Searched (path : List Byte) : Prop :=
  path.length < maxPathLen ∧ ¬ (path[1]? = some dot ∨ path[1]? = none)

theorem sysOpendir_missing (tree : Tree v) (searched : Searched path)
    (hsearch : searchFile v dirE path = .ok (-1, s)) (held : s.vol = v.held s.record.parentDir) :
    sysOpendir v dirE path = .ok (none, v) := by
  unfold sysOpendir
  rw [assertThat_of searched.1, ok_bind, if_neg (fun h => searched.2 h.2), hsearch, ok_bind]
  dsimp only
  rw [if_pos (.inl rfl), held, dirClose_after tree]
  rfl

/-- A directory is opened while the parent is still open. -/
theorem sysOpendir_found (tree : Tree v) (searched : Searched path)
    (hsearch : searchFile v dirE path = .ok ((n : Int), s))
    (held : s.vol = v.held s.record.parentDir) (hn : n < 4096)
    (isDir : s.record.fileType = ftDirectory) :
    sysOpendir v dirE path = .ok
      (some (.opened n), ((v.held s.record.parentDir).held (.opened n)).dirClose
        s.record.parentDir) := by
  have notRegular : ¬ ((n : Int) = -1 ∨ s.record.fileType = ftRegular) := by
    rw [isDir]
    rintro (h | h)
    · omega
    · cases h
  have number : u32 (n : Int) = n := u32_of_lt (by omega)
  unfold sysOpendir
  rw [assertThat_of searched.1, ok_bind, if_neg (fun h => searched.2 h.2), hsearch, ok_bind]
  dsimp only
  rw [if_neg notRegular, if_pos isDir, held, number,
    Volume.dirOpen_eq (fun inode h => (held_cnts tree _ _ inode h).2) hn, ok_bind]
  rfl

theorem sysChdir_missing {cwd : Nat} (hsearch : searchFile v dirE path = .ok (-1, s)) :
    sysChdir v dirE cwd path = .ok ((-1, cwd), s.vol) := by
  unfold sysChdir
  rw [hsearch, ok_bind]
  dsimp only
  rw [if_neg (fun h => h.1 rfl)]
  rfl

theorem sysChdir_found {cwd : Nat} (hsearch : searchFile v dirE path = .ok ((n : Int), s))
    (hn : n < 4096) (isDir : s.record.fileType = ftDirectory) :
    sysChdir v dirE cwd path = .ok ((0, n), s.vol) := by
  have found : (n : Int) ≠ -1 ∧ s.record.fileType = ftDirectory := ⟨by omega, isDir⟩
  have number : u32 (n : Int) = n := u32_of_lt (by omega)
  unfold sysChdir
  rw [hsearch, ok_bind]
  dsimp only
  rw [if_pos found, number]
  rfl

end Search

/-- The shortcut. -/
theorem sysOpendir_shortcut (valid : ValidPath path)
    (short : path[1]? = some dot ∨ path[1]? = none) :
    sysOpendir v dirE path = .ok (some .root, v) := by
  obtain ⟨tail, hpath⟩ := valid.absolute
  have head : path.head? = some slash := by
    rw [hpath]
    rfl
  unfold sysOpendir
  rw [assertThat_of (show path.length < maxPathLen from valid.length), ok_bind,
    if_pos ⟨head, short⟩]
  rfl

/-! ## When they agree -/

/-- What the search for a path that is not the root's answers and leaves open. -/
theorem searchFile_found (tree : Tree v) (valid : ValidPath path) (other : path ∉ rootNames)
    (dirE : DirEntry) :
    ∃ s, searchFile v dirE path = .ok ((follow v .root [] 0 dirE (components path)).1, s) ∧
      s.vol = v.held s.record.parentDir ∧
      s.record = (follow v .root [] 0 dirE (components path)).2.record :=
  ⟨_, searchFile_eq tree valid dirE other, follow_held, rfl⟩

theorem short_root (valid : ValidPath path) (short : path[1]? = none) : path = [slash] := by
  obtain ⟨tail, rfl⟩ := valid.absolute
  cases tail with
  | nil => rfl
  | cons c rest => cases short

theorem unnamed_other (unnamed : components path = []) (ne : path ≠ [slash]) :
    path ∉ rootNames := by
  intro root
  have cases : path = [slash] ∨ path = slash :: dotName ∨ path = slash :: dotDotName := by
    simpa [rootNames] using root
  rcases cases with rfl | rfl | rfl
  · exact ne rfl
  · cases unnamed
  · cases unnamed

/-- Without a name the number comes from the stack, where it need not be the same twice. -/
theorem CallsAgree.named (tree : Tree v) (valid : ValidPath path) (agree : CallsAgree v path)
    (unnamed : components path = []) : path = [slash] := by
  by_contra ne
  have other := unnamed_other unnamed ne
  have search (n : Nat) (hn : n < 4096) : ∃ s, searchFile v ⟨zeros, n, 0⟩ path =
      .ok ((n : Int), s) ∧
      s.vol = v.held s.record.parentDir ∧ s.record.fileType = ftDirectory := by
    obtain ⟨s, hsearch, held, record⟩ := searchFile_found tree valid other ⟨zeros, n, 0⟩
    rw [unnamed] at hsearch record
    refine ⟨s, hsearch.trans ?_, held, congrArg PathSearchRecord.fileType record⟩
    exact congrArg (fun number => Except.ok (number, s)) (toInt_small hn)
  obtain ⟨s, hsearch, held, isDir⟩ := search 0 (by decide)
  obtain ⟨s', hsearch', -, isDir'⟩ := search 1 (by decide)
  have stat := sysStat_found tree other hsearch held (by decide)
  obtain ⟨v₃, chdir⟩ := (agree.directory _ emptyEntry ⟨zeros, 1, 0⟩ 0 _ _ stat isDir).2
  rw [sysChdir_found hsearch' (by decide) isDir'] at chdir
  cases chdir

/-- Where `sys_opendir` answers the root, the path has to name it, or a file. -/
theorem CallsAgree.dotted (con : Consistent v) (valid : ValidPath path) (agree : CallsAgree v path)
    (dotted : path[1]? = some dot) :
    throughFile v 0 (components path) = true ∨
      ∃ i t, walk v 0 (components path) = some (i, t) ∧ (t = ftDirectory → i = 0) := by
  have short : sysOpendir v emptyEntry path = .ok (some .root, v) :=
    sysOpendir_shortcut valid (.inl dotted)
  by_cases root : path ∈ rootNames
  · exact .inr ⟨0, ftDirectory, (rootNames_walk con root).1, fun _ => rfl⟩
  apply or_iff_not_imp_left.mpr
  intro whole
  rw [Bool.not_eq_true] at whole
  have named : components path = [] → toInt emptyEntry.iNo = 0 := fun _ => rfl
  obtain ⟨s, hsearch, held, type, -⟩ := searchFile_walk con.toTree valid root whole named
  cases hwalk : walk v 0 (components path) with
  | none =>
    rw [hwalk] at hsearch
    obtain ⟨⟨v₂, missing⟩, -⟩ :=
      agree.failure _ emptyEntry emptyEntry 0 _ (sysStat_missing con.toTree root hsearch held)
    rw [short] at missing
    cases missing
  | some o =>
    obtain ⟨i, t⟩ := o
    rw [hwalk] at hsearch type
    obtain ⟨hlt, -⟩ := walk_some con.toTree .root valid.names hwalk
    refine ⟨i, t, rfl, ?_⟩
    rintro rfl
    have stat := sysStat_found con.toTree root hsearch held hlt
    obtain ⟨⟨ref, v₂, opened, number⟩, -⟩ := agree.directory _ emptyEntry emptyEntry 0 _ _ stat type
    rw [short] at opened
    cases opened
    exact number.symm

/-- A path that the root's names do not hold, and that does not mislead `sys_opendir`. -/
theorem callsAgree_searched (tree : Tree v) (valid : ValidPath path) (other : path ∉ rootNames)
    (named : components path ≠ [])
    (dotted : path[1]? = some dot → throughFile v 0 (components path) = true ∨
      ∃ i t, walk v 0 (components path) = some (i, t) ∧ (t = ftDirectory → i = 0)) :
    CallsAgree v path := by
  have dir : IsDir v DirRef.root.inodeNo := .root
  have searched (plain : path[1]? ≠ some dot) : Searched path :=
    ⟨valid.length, fun h => h.elim plain fun h => other (by rw [short_root valid h]; decide)⟩
  -- the same answer from every stack
  have search (dirE : DirEntry) : ∃ s, searchFile v dirE path =
      .ok ((follow v .root [] 0 emptyEntry (components path)).1, s) ∧
      s.vol = v.held s.record.parentDir ∧
        s.record = (follow v .root [] 0 emptyEntry (components path)).2.record := by
    obtain ⟨s, hsearch, held, record⟩ := searchFile_found tree valid other dirE
    obtain ⟨number, same⟩ := follow_stack v .root [] 0 dirE emptyEntry named
    exact ⟨s, number ▸ hsearch, held, record.trans same⟩
  have meaning (whole : ¬ throughFile v 0 (components path) = true) :
      (follow v .root [] 0 emptyEntry (components path)).1 = answer (walk v 0 (components path)) ∧
        (follow v .root [] 0 emptyEntry (components path)).2.record.fileType =
          (walk v 0 (components path)).elim ftUnkown Prod.snd :=
    follow_walk tree dir valid.names (Bool.not_eq_true _ ▸ whole) fun h => absurd h named
  rcases follow_cases tree [] 0 dir valid.names (show components path = [] →
    emptyEntry.iNo < 4096 from fun _ => by decide)
    with missing | ⟨n, hn, number, -⟩
  · -- nothing is found
    rw [missing] at search
    have whole : ¬ throughFile v 0 (components path) = true := by
      intro through
      have found : (follow v .root [] 0 emptyEntry (components path)).1 ≠ -1 :=
        (follow_file tree dir valid.names through).1
      exact found missing
    have plain : path[1]? ≠ some dot := by
      intro h
      obtain ⟨i, t, hwalk, -⟩ := (dotted h).resolve_left whole
      have number := (meaning whole).1
      rw [missing, hwalk] at number
      have : ((i : Nat) : Int) = -1 := number.symm
      omega
    constructor
    · intro dirE₁ _ _ _ st v₁ stat _
      obtain ⟨s, hsearch, held, -⟩ := search dirE₁
      rw [sysStat_missing tree other hsearch held] at stat
      cases stat
    · intro _ dirE₂ dirE₃ cwd v₁ _
      obtain ⟨s₂, hsearch₂, held₂, -⟩ := search dirE₂
      obtain ⟨s₃, hsearch₃, -⟩ := search dirE₃
      exact ⟨⟨_, sysOpendir_missing tree (searched plain) hsearch₂ held₂⟩, _,
        sysChdir_missing hsearch₃⟩
  · -- number `n` is found
    rw [number] at search
    constructor
    · intro dirE₁ dirE₂ dirE₃ cwd st v₁ stat isDir
      obtain ⟨s, hsearch, held, record⟩ := search dirE₁
      obtain ⟨s₂, hsearch₂, held₂, record₂⟩ := search dirE₂
      obtain ⟨s₃, hsearch₃, -, record₃⟩ := search dirE₃
      rw [sysStat_found tree other hsearch held hn] at stat
      cases stat
      have type : (follow v .root [] 0 emptyEntry (components path)).2.record.fileType =
          ftDirectory := record ▸ isDir
      refine ⟨?_, _, sysChdir_found hsearch₃ hn (record₃ ▸ type)⟩
      by_cases h : path[1]? = some dot
      · have whole : ¬ throughFile v 0 (components path) = true := by
          intro through
          have through : throughFile v DirRef.root.inodeNo (components path) = true := through
          rw [follow_through through] at type
          cases type
        obtain ⟨i, t, hwalk, zero⟩ := (dotted h).resolve_left whole
        obtain ⟨number', type'⟩ := meaning whole
        rw [number, hwalk] at number'
        rw [type, hwalk] at type'
        have hi : i = 0 := zero type'.symm
        refine ⟨.root, v, sysOpendir_shortcut valid (.inl h), ?_⟩
        show 0 = n
        have : (n : Int) = (i : Nat) := number'
        omega
      · exact ⟨_, _, sysOpendir_found tree (searched h) hsearch₂ held₂ hn (record₂ ▸ type), rfl⟩
    · intro dirE₁ _ _ _ v₁ stat
      obtain ⟨s, hsearch, held, -⟩ := search dirE₁
      rw [sysStat_found tree other hsearch held hn] at stat
      cases stat

theorem callsAgree_root (valid : ValidPath path) (root : path ∈ rootNames) : CallsAgree v path := by
  have cases : path = [slash] ∨ path = slash :: dotName ∨ path = slash :: dotDotName := by
    simpa [rootNames] using root
  have short : path[1]? = some dot ∨ path[1]? = none := by
    rcases cases with rfl | rfl | rfl
    · exact .inr rfl
    · exact .inl rfl
    · exact .inl rfl
  have stat (dirE : DirEntry) :
      sysStat v dirE path = .ok (some ⟨0, (v.inode 0).iSize, ftDirectory⟩, v) := if_pos root
  constructor
  · intro dirE₁ dirE₂ dirE₃ cwd st v₁ hstat _
    rw [stat] at hstat
    cases hstat
    refine ⟨⟨.root, v, sysOpendir_shortcut valid short, rfl⟩, v, ?_⟩
    have hsearch : searchFile v dirE₃ path =
        .ok (((0 : Nat) : Int), ⟨v, ⟨[], .root, ftDirectory⟩, 0, dirE₃⟩) := if_pos root
    exact sysChdir_found hsearch (by decide) rfl
  · intro dirE₁ _ _ _ v₁ hstat
    rw [stat] at hstat
    cases hstat

/-- THREE CALLS, ONE MEANING. They agree on a path if and only if it names something, `/` alone
apart, and a path that begins with `/.` names the root or a file. -/
theorem calls_agree_iff (v : Volume sb) (path : List Byte) (con : Consistent v)
    (valid : ValidPath path) :
    CallsAgree v path ↔ (components path = [] → path = [slash]) ∧
    (path[1]? = some dot → throughFile v 0 (components path) = true ∨
      ∃ i t, walk v 0 (components path) = some (i, t) ∧ (t = ftDirectory → i = 0)) := by
  constructor
  · intro agree
    exact ⟨agree.named con.toTree valid, agree.dotted con valid⟩
  · rintro ⟨named, dotted⟩
    by_cases root : path ∈ rootNames
    · exact callsAgree_root valid root
    · refine callsAgree_searched con.toTree valid root (fun h => root ?_) dotted
      rw [named h]
      decide

/-- The theorem at `/./f`. -/
theorem calls_agree_file : CallsAgree treeVolume (slash :: dotName ++ slash :: fileName) := by
  have names : components (slash :: dotName ++ slash :: fileName) = [dotName, fileName] := by decide
  refine (calls_agree_iff treeVolume _ tree_consistent ⟨⟨_, rfl⟩, by decide, by decide⟩).mpr
    ⟨fun h => absurd h (by decide), fun _ => ?_⟩
  obtain ⟨e, found, zero, isDir⟩ := tree_found (i := 0) rfl
  obtain ⟨f, found', number, type⟩ := tree_found (i := 2) rfl
  refine .inr ⟨1, ftRegular, ?_, fun h => by cases h⟩
  have notDir : ¬ f.fType = ftDirectory := by
    rw [type]
    decide
  show walk treeVolume 0 (components (slash :: dotName ++ slash :: fileName)) = _
  rw [names]
  unfold walk
  rw [found]
  dsimp only
  rw [if_pos isDir, zero]
  unfold walk
  rw [found']
  dsimp only
  rw [if_neg notDir, if_pos rfl, number, type]

/-- `/.x` is not there, and `sys_opendir` answers the root. -/
theorem hidden_name_opened : ¬ ∀ (sb : SuperBlock) (v : Volume sb) (path : List Byte),
    Consistent v → ValidPath path → CallsAgree v path := by
  intro claim
  have valid : ValidPath [slash, dot, 120] := ⟨⟨_, rfl⟩, by decide, by decide⟩
  have names : components [slash, dot, 120] = [[dot, 120]] := by decide
  have missing : treeVolume.lookup 0 [dot, 120] = none := by
    cases found : treeVolume.lookup 0 [dot, 120] with
    | none => rfl
    | some e =>
      obtain ⟨i, hi⟩ := tree_lookup (by decide) found
      unfold treeEntry at hi
      split at hi <;> cases hi
  have agree := claim smallDisk treeVolume _ tree_consistent valid
  obtain ⟨s, search, held, -⟩ :=
    searchFile_found tree_consistent.toTree valid (by decide) emptyEntry
  have none : (follow treeVolume .root [] 0 emptyEntry [[dot, 120]]).1 = -1 := by
    unfold follow
    rw [show treeVolume.lookup DirRef.root.inodeNo [dot, 120] = none from missing]
  rw [names, none] at search
  have stat := sysStat_missing tree_consistent.toTree (by decide) search held
  obtain ⟨⟨v₂, opened⟩, -⟩ := agree.failure _ emptyEntry emptyEntry 0 _ stat
  rw [sysOpendir_shortcut valid (.inl rfl)] at opened
  cases opened

end SeekingOs.Fs
