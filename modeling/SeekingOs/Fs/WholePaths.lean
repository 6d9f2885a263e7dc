import SeekingOs.Fs.DirMap
import SeekingOs.Fs.Unlink

/-!
# Paths that resolve to what they name

`search_file`, `sys_stat` and `sys_unlink` against the meaning of a path. They agree exactly
where no name but the last is a file's and there is a name at all: `search_file` does not look at
what is left of the path when it meets a file, and it answers what is on the stack when it looks up
nothing.
-/

namespace SeekingOs.Fs

open Lib

variable {sb : SuperBlock} {v v' : Volume sb} {ref : DirRef} {names : List Name}
  {path searchedPath : List Byte}
  {dirE : DirEntry} {parentInodeNo n : Nat}

/-- What the three functions make of a path is what the path means. -/
structure ResolvesWhole (v : Volume sb) (dirE : DirEntry) (path : List Byte) : Prop where
  search : ∃ s, searchFile v dirE path = .ok (answer (walk v 0 (components path)), s)
  stat : sysStat v dirE path =
    .ok ((walk v 0 (components path)).map fun object =>
      ⟨object.1, (v.inode object.1).iSize, object.2⟩, v)
  nothing : walk v 0 (components path) = none →
    ∀ openFiles ioBuf, sysUnlink openFiles ioBuf v dirE path = .ok (-1, v)
  unlink : ∀ openFiles ioBuf ret v', sysUnlink openFiles ioBuf v dirE path = .ok (ret, v') →
    ret = -1 ∧ v' = v ∨ ret = 0 ∧
    ∃ d i, walk v 0 (components path).dropLast = some (d, ftDirectory) ∧
      walk v 0 (components path) = some (i, ftRegular) ∧ Removed v d i v'

/-! ## What the names lead to -/

/-- What a path means is a directory or a regular file, and its number is that of an inode. -/
theorem walk_some (tree : Tree v) {i : Nat} (dir : IsDir v i)
    (valid : ∀ name ∈ names, ValidName name) {o : Nat × Nat} (h : walk v i names = some o) :
    o.1 < 4096 ∧ (o.2 = ftRegular ∨ o.2 = ftDirectory) := by
  induction names generalizing i with
  | nil =>
    cases h
    exact ⟨dir.lt tree, .inr rfl⟩
  | cons name rest ih =>
    obtain ⟨hname, hrest⟩ := List.forall_mem_cons.mp valid
    unfold walk at h
    cases found : v.lookup i name with
    | none =>
      rw [found] at h
      cases h
    | some e =>
      rw [found] at h
      dsimp only at h
      split at h
      next isDir => exact ih (.entry dir hname found isDir) hrest h
      next =>
        split at h
        next =>
          cases h
          exact tree.entry _ dir _ _ hname found
        next => cases h

/-- The directory of a regular file is what the path without its last name means. -/
theorem follow_parent (whole : throughFile v ref.inodeNo names = false)
    (regular : (follow v ref searchedPath parentInodeNo dirE names).2.record.fileType = ftRegular) :
    walk v ref.inodeNo names.dropLast =
      some ((follow v ref searchedPath parentInodeNo dirE names).2.record.parentDir.inodeNo,
        ftDirectory) := by
  induction names generalizing ref searchedPath parentInodeNo dirE with
  | nil => cases regular
  | cons name rest ih =>
    unfold throughFile at whole
    unfold follow at regular ⊢
    cases found : v.lookup ref.inodeNo name with
    | none =>
      rw [found] at regular
      cases regular
    | some e =>
      rw [found] at whole regular
      dsimp only at whole regular ⊢
      split at whole
      next isDir =>
        rw [if_pos isDir] at regular ⊢
        cases rest with
        | nil => cases regular
        | cons name' rest' =>
          rw [List.dropLast_cons_of_ne_nil (List.cons_ne_nil _ _)]
          unfold walk
          rw [found]
          dsimp only
          rw [if_pos isDir]
          have whole : throughFile v (DirRef.opened e.iNo).inodeNo (name' :: rest') = false := whole
          exact ih whole regular
      next notDir =>
        rw [if_neg notDir]
        cases rest with
        | nil => rfl
        | cons => cases whole

/-! ## The calls -/

theorem held_cnts (tree : Tree v) (ref : DirRef) (n : Nat) (inode : Inode)
    (h : (v.held ref).openInodes n = some inode) :
    0 < inode.iOpenCnts ∧ inode.iOpenCnts < 2 ^ 32 - 1 := by
  have weaken {m : Nat} {inode : Inode} (h : v.openInodes m = some inode) : 0 < inode.iOpenCnts ∧
      inode.iOpenCnts < 2 ^ 32 - 2 :=
    tree.cnts m inode h
  cases ref with
  | root =>
    have := weaken h
    omega
  | opened m =>
    by_cases hnm : n = m
    · subst hnm
      obtain rfl : inode = _ := Option.some.inj (h.symm.trans Volume.put_self)
      dsimp only
      cases hopen : v.openInodes n with
      | none => exact ⟨Nat.succ_pos _, show 0 + 1 < 2 ^ 32 - 1 by decide⟩
      | some inode =>
        have := weaken hopen
        exact ⟨Nat.succ_pos _, show inode.iOpenCnts + 1 < 2 ^ 32 - 1 by omega⟩
    · rw [show (v.held (.opened m)).openInodes n = v.openInodes n from Volume.put_other hnm] at h
      have := weaken h
      omega

theorem dirClose_after (tree : Tree v) (ref : DirRef) : (v.held ref).dirClose ref = v :=
  Volume.dirClose_held (fun n inode h => by have := tree.cnts n inode h; omega) ref

/-- The search finds what the path means, and leaves one directory open. -/
theorem searchFile_walk (tree : Tree v) (valid : ValidPath path) (other : path ∉ rootNames)
    (whole : throughFile v 0 (components path) = false)
    (last : components path = [] → toInt dirE.iNo = 0) :
    ∃ s, searchFile v dirE path = .ok (answer (walk v 0 (components path)), s) ∧
      s.vol = v.held s.record.parentDir ∧
      s.record.fileType = (walk v 0 (components path)).elim ftUnkown Prod.snd ∧
      (s.record.fileType = ftRegular →
        walk v 0 (components path).dropLast = some (s.record.parentDir.inodeNo, ftDirectory) ∧
        ∃ name e, IsDir v s.record.parentDir.inodeNo ∧ ValidName name ∧
        v.lookup s.record.parentDir.inodeNo name = some e ∧
          answer (walk v 0 (components path)) = e.iNo ∧ e.fType = ftRegular ∧ e.iNo < 4096) := by
  have dir : IsDir v DirRef.root.inodeNo := .root
  have ⟨number, type⟩ : (follow v .root [] 0 dirE (components path)).1 =
      answer (walk v 0 (components path)) ∧ _ :=
    follow_walk tree dir valid.names whole last
  refine ⟨(follow v .root [] 0 dirE (components path)).2, ?_, follow_held, type, fun regular =>
    ⟨follow_parent whole regular, ?_⟩⟩
  · rw [searchFile_eq tree valid dirE other]
    exact congrArg Except.ok (Prod.ext number rfl)
  · have entry := follow_regular tree dir valid.names regular
    rwa [number] at entry

/-- The object is opened and closed again. -/
theorem stat_object (tree : Tree v) (ref : DirRef) (hn : n < 4096) :
    ∃ inode, (v.held ref).inodeOpen n = .ok inode ∧
    inode.iSize = (v.inode n).iSize ∧
    ((v.held ref).put n (v.held ref).part inode).inodeClose n (v.held ref).part inode =
      v.held ref := by
  refine ⟨_, Volume.inodeOpen_eq (fun inode h => (held_cnts tree ref n inode h).2) hn, ?_, ?_⟩
  · show ((v.held ref).inode n).iSize = _
    rw [Volume.held_inode]
  · exact Volume.inodeClose_put (held_cnts tree ref n)

theorem rootNames_walk (con : Consistent v) (root : path ∈ rootNames) :
    walk v 0 (components path) = some (0, ftDirectory) ∧
    throughFile v 0 (components path) = false := by
  have one {name : Name} (h : name = dotName ∨ name = dotDotName) :
      walk v 0 [name] = some (0, ftDirectory) ∧ throughFile v 0 [name] = false := by
    obtain ⟨e, found, zero, isDir⟩ := con.rootDots name h
    unfold walk throughFile
    rw [found]
    dsimp only
    rw [if_pos isDir, if_pos isDir, zero]
    exact ⟨rfl, rfl⟩
  have cases : path = [slash] ∨ path = slash :: dotName ∨ path = slash :: dotDotName := by
    simpa [rootNames] using root
  rcases cases with rfl | rfl | rfl
  · exact ⟨rfl, rfl⟩
  · exact one (.inl rfl)
  · exact one (.inr rfl)

theorem sysStat_walk (con : Consistent v) (valid : ValidPath path)
    (whole : throughFile v 0 (components path) = false)
    (last : components path = [] → path ∈ rootNames ∨ toInt dirE.iNo = 0) :
    sysStat v dirE path =
      .ok ((walk v 0 (components path)).map fun object =>
        ⟨object.1, (v.inode object.1).iSize, object.2⟩, v) := by
  unfold sysStat
  split
  next root =>
    rw [(rootNames_walk con root).1]
    rfl
  next other =>
    obtain ⟨s, hsearch, hvol, type, -⟩ :=
      searchFile_walk con.toTree valid other whole fun h => (last h).resolve_left other
    rw [hsearch, ok_bind]
    dsimp only
    cases hwalk : walk v 0 (components path) with
    | none =>
      rw [if_pos (show answer none = -1 from rfl), hvol, dirClose_after con.toTree]
      rfl
    | some o =>
      obtain ⟨hlt, -⟩ := walk_some con.toTree .root valid.names hwalk
      have number : u32 (answer (some o)) = o.1 := u32_of_lt (by omega)
      obtain ⟨inode, hopen, size, hclose⟩ := stat_object con.toTree s.record.parentDir hlt
      have found : answer (some o) ≠ -1 := by
        show ((o.1 : Nat) : Int) ≠ -1
        omega
      rw [if_neg found, number, hvol, hopen, ok_bind, hclose, dirClose_after con.toTree,
        type, hwalk, size]
      rfl

/-- `sys_unlink` answers −1 and does nothing, or removes the file that the path names. -/
theorem sysUnlink_walk (con : Consistent v) (valid : ValidPath path) (other : path ∉ rootNames)
    (whole : throughFile v 0 (components path) = false)
    (last : components path = [] → toInt dirE.iNo = 0) {openFiles : List Nat} {ioBuf : Bool}
    {ret : Int} (h : sysUnlink openFiles ioBuf v dirE path = .ok (ret, v')) :
    ret = -1 ∧ v' = v ∨ ret = 0 ∧
    ∃ d i, walk v 0 (components path).dropLast = some (d, ftDirectory) ∧
      walk v 0 (components path) = some (i, ftRegular) ∧ Removed v d i v' := by
  obtain ⟨s, hsearch, hvol, type, parent⟩ := searchFile_walk con.toTree valid other whole last
  unfold sysUnlink at h
  obtain ⟨_, _, h⟩ := bind_eq_ok.mp h
  rw [hsearch, ok_bind] at h
  obtain ⟨_, _, h⟩ := bind_eq_ok.mp h
  split at h
  next =>
    cases h
    rw [hvol, dirClose_after con.toTree]
    exact .inl ⟨rfl, rfl⟩
  next go =>
    rw [not_or, not_or] at go
    obtain ⟨named, notDir, -⟩ := go
    cases hwalk : walk v 0 (components path) with
    | none =>
      rw [hwalk] at named
      exact absurd rfl named
    | some o =>
      obtain ⟨hlt, htype⟩ := walk_some con.toTree .root valid.names hwalk
      rw [hwalk] at type
      have regular : s.record.fileType = ftRegular :=
        type.trans (htype.resolve_right fun h => notDir (type.trans h))
      obtain ⟨hparent, name, e, dir, hname, found, number, etype, -⟩ := parent regular
      rw [hwalk] at h number
      have same : o.1 = e.iNo := Int.ofNat.inj number
      have arg : u32 (answer (some o)) = e.iNo := same ▸ u32_of_lt (by omega)
      obtain ⟨⟨b, p, inode⟩, hdel, h⟩ := bind_eq_ok.mp h
      obtain ⟨v₂, hrealse, h⟩ := bind_eq_ok.mp h
      cases h
      rw [hvol, arg] at hdel hrealse
      refine .inr ⟨rfl, _, _, hparent, ?_, unlink_removed con dir hname found etype hdel hrealse⟩
      rw [← same]
      exact congrArg some (Prod.ext rfl (type.symm.trans regular))

theorem sysUnlink_nothing (tree : Tree v) (valid : ValidPath path) (other : path ∉ rootNames)
    (whole : throughFile v 0 (components path) = false)
    (last : components path = [] → toInt dirE.iNo = 0) (nothing : walk v 0 (components path) = none)
    (openFiles : List Nat) (ioBuf : Bool) :
    sysUnlink openFiles ioBuf v dirE path = .ok (-1, v) := by
  obtain ⟨s, hsearch, hvol, -, -⟩ := searchFile_walk tree valid other whole last
  have length := valid.length
  unfold sysUnlink
  rw [assertThat_of (show path.length ≤ maxPathLen by unfold maxPathLen; omega), ok_bind, hsearch,
    nothing, ok_bind]
  dsimp only
  rw [assertThat_of (show answer none ≠ 0 by decide), ok_bind, if_pos (.inl rfl), hvol,
    dirClose_after tree]
  rfl

/-- A path that is the root's makes `sys_unlink` fail its assertion. -/
theorem sysUnlink_root (root : path ∈ rootNames) (openFiles : List Nat) (ioBuf : Bool)
    (o : Int × Volume sb) : sysUnlink openFiles ioBuf v dirE path ≠ .ok o := by
  intro h
  unfold sysUnlink at h
  obtain ⟨_, _, h⟩ := bind_eq_ok.mp h
  obtain ⟨⟨number, s⟩, hsearch, h⟩ := bind_eq_ok.mp h
  unfold searchFile at hsearch
  rw [if_pos root] at hsearch
  cases hsearch
  obtain ⟨_, hassert, _⟩ := bind_eq_ok.mp h
  exact assertThat_ok hassert rfl

/-- WHOLE PATHS. The three functions do what the path means if and only if no name but the last is a
file's, and where there is no name, the path is `/` or the number on the stack happens to be the
root's. -/
theorem resolves_whole_iff (v : Volume sb) (dirE : DirEntry) (path : List Byte) (con : Consistent v)
    (valid : ValidPath path) :
    ResolvesWhole v dirE path ↔ throughFile v 0 (components path) = false ∧
      (components path = [] → path ∈ rootNames ∨ toInt dirE.iNo = 0) := by
  constructor
  · intro resolves
    obtain ⟨s, hsearch⟩ := resolves.search
    by_cases root : path ∈ rootNames
    · exact ⟨(rootNames_walk con root).2, fun _ => .inl root⟩
    · rw [searchFile_eq con.toTree valid dirE root, Except.ok.injEq] at hsearch
      have number := congrArg Prod.fst hsearch
      constructor
      · by_contra through
        rw [Bool.not_eq_false] at through
        have dir : IsDir v DirRef.root.inodeNo := .root
        have ⟨found, nothing⟩ : (follow v .root [] 0 dirE (components path)).1 ≠ -1 ∧ _ :=
          follow_file con.toTree dir valid.names through
        change walk v 0 (components path) = none at nothing
        rw [nothing] at number
        exact found number
      · intro empty
        rw [empty] at number
        exact .inr number
  · rintro ⟨whole, last⟩
    by_cases root : path ∈ rootNames
    · refine ⟨?_, sysStat_walk con valid whole last, fun nothing => ?_, fun _ _ ret v' h =>
        absurd h (sysUnlink_root root _ _ _)⟩
      · rw [(rootNames_walk con root).1]
        exact ⟨_, if_pos root⟩
      · rw [(rootNames_walk con root).1] at nothing
        cases nothing
    · have last' : components path = [] → toInt dirE.iNo = 0 := fun h => (last h).resolve_left root
      obtain ⟨s, hsearch, -⟩ := searchFile_walk con.toTree valid root whole last'
      exact ⟨⟨s, hsearch⟩, sysStat_walk con valid whole last,
        sysUnlink_nothing con.toTree valid root whole last',
        fun _ _ _ _ h => sysUnlink_walk con valid root whole last' h⟩

/-! ## A file in the root -/

/-- `"f"` -/
def fileName : Name := [102]

/-- The entries of the root. -/
def treeEntry : Nat → Option (Name × Nat × Nat)
  | 0 => some (dotName, 0, ftDirectory)
  | 1 => some (dotDotName, 0, ftDirectory)
  | 2 => some (fileName, 1, ftRegular)
  | _ => none

/-- The disk: the root's block is 700. -/
def treeDisk (a : Nat) : Byte :=
  if a / 512 = 700 then (treeEntry (a % 512 / 24)).elim 0 fun e =>
    entryBuf e.1 e.2.1 e.2.2 (a % 512 % 24) else 0

def treePart : Part smallDisk := { fullPart with disk := treeDisk }

def treeRoot : Inode where
  iNo := 0
  iSize := 72
  iOpenCnts := 1
  writenDeny := false
  iSectors k := if k = 0 then 700 else 0

/-- The volume with the root open. -/
def treeVolume : Volume smallDisk := ⟨treePart, fun n => if n = 0 then some treeRoot else none⟩

theorem tree_entry {i : Nat} (hi : i < dirEntrysPerSec) :
    entryOf treePart 700 i = (treeEntry i).elim emptyEntry fun e =>
      dirEntryAt (entryBuf e.1 e.2.1 e.2.2) 0 := by
  have hat {j : Nat} (hj : j < 24) : sector treePart 700 (dirEntrySize * i + j) =
      (treeEntry i).elim 0 fun e => entryBuf e.1 e.2.1 e.2.2 j := by
    show treeDisk _ = _
    unfold dirEntrysPerSec at hi
    unfold treeDisk sectorSize dirEntrySize
    rw [if_pos (by omega), show (512 * 700 + (24 * i + j)) % 512 = 24 * i + j by omega,
      show (24 * i + j) / 24 = i by omega, show (24 * i + j) % 24 = j by omega]
  cases h : treeEntry i with
  | none =>
    refine dirEntryAt_congr fun j hj => ?_
    rw [hat hj, h]
    rfl
  | some e =>
    refine dirEntryAt_congr fun j hj => ?_
    rw [hat hj, h, Nat.zero_add]
    rfl

theorem tree_slot (k : Nat) : slot treePart treeRoot k = if k = 0 then 700 else 0 := by
  have noTable : treeRoot.iSectors 12 = 0 := rfl
  rw [slot_noTable noTable]
  split
  next => rfl
  next hk => exact (if_neg (by omega)).symm

theorem tree_entries (k i : Nat) : entries treePart treeRoot (k, i) =
    if k = 0 then (treeEntry i).elim emptyEntry fun e => dirEntryAt (entryBuf e.1 e.2.1 e.2.2) 0
    else emptyEntry := by
  by_cases hk : k = 0
  · subst hk
    by_cases hi : i < dirEntrysPerSec
    · have used : entries treePart treeRoot (0, i) =
          entryOf treePart (slot treePart treeRoot 0) i :=
        entries_used (by decide) hi (by rw [tree_slot]; decide)
      rw [used, tree_slot, if_pos rfl, if_pos rfl, tree_entry hi]
    · have beyond : treeEntry i = none := by
        unfold dirEntrysPerSec at hi
        unfold treeEntry
        split <;> first | omega | rfl
      rw [if_pos rfl, beyond]
      exact if_neg fun h => hi h.2.1
  · rw [if_neg hk]
    exact entries_unused (by rw [tree_slot, if_neg hk])

theorem treeEntry_valid {i : Nat} {e : Name × Nat × Nat} (h : treeEntry i = some e) :
    ValidName e.1 ∧ e.2.1 < 4096 ∧ (e.2.2 = ftRegular ∨ e.2.2 = ftDirectory ∧ e.2.1 = 0) := by
  unfold treeEntry at h
  split at h <;> cases h <;> decide

theorem treeEntry_name {i j : Nat} {e e' : Name × Nat × Nat} (h : treeEntry i = some e)
    (h' : treeEntry j = some e') (same : e.1 = e'.1) : e = e' := by
  unfold treeEntry at h h'
  split at h <;> split at h' <;> cases h <;> cases h' <;>
    first
    | rfl
    | exact absurd same (by decide)

theorem tree_cells (k i : Nat) :
    cells treePart treeRoot (k, i) = if k = 0 then treeEntry i else none := by
  unfold cells
  rw [tree_entries]
  split
  next =>
    cases h : treeEntry i with
    | none => rfl
    | some e =>
      obtain ⟨valid, hn, htype⟩ := treeEntry_valid h
      refine entryBuf_binding valid (by omega) ?_ ?_ <;> rcases htype with h | ⟨h, -⟩ <;>
        rw [h] <;> decide
  next => rfl

theorem tree_zeroed : Zeroed treePart treeRoot := by
  rintro ⟨k, i⟩ h
  have unbound : cells treePart treeRoot (k, i) = none := if_pos h
  rw [tree_cells] at unbound
  rw [tree_entries]
  split
  next hk =>
    rw [if_pos hk] at unbound
    rw [unbound]
    rfl
  next => rfl

/-- A lookup in the root finds the entries that are there. -/
theorem tree_lookup {name : Name} (valid : ValidName name) {e : DirEntry}
    (h : treeVolume.lookup 0 name = some e) : ∃ i, treeEntry i = some (name, e.iNo, e.fType) := by
  obtain ⟨⟨k, i⟩, hc⟩ := searchDirEntry_some valid tree_zeroed h
  rw [tree_cells] at hc
  split at hc
  next => exact ⟨i, hc⟩
  next => cases hc

theorem tree_found {i n t : Nat} {name : Name} (h : treeEntry i = some (name, n, t)) :
    ∃ e, treeVolume.lookup 0 name = some e ∧ e.iNo = n ∧ e.fType = t := by
  have valid := (treeEntry_valid h).1
  cases found : treeVolume.lookup 0 name with
  | none =>
    have held := tree_cells 0 i
    rw [if_pos rfl, h] at held
    exact absurd held (searchDirEntry_none valid found (0, i) (n, t))
  | some e =>
    obtain ⟨j, hj⟩ := tree_lookup valid found
    obtain ⟨-, same⟩ := Prod.mk.inj (treeEntry_name hj h rfl)
    obtain ⟨number, type⟩ := Prod.mk.inj same
    exact ⟨e, rfl, number, type⟩

theorem tree_root {i : Nat} (dir : IsDir treeVolume i) : i = 0 := by
  induction dir with
  | root => rfl
  | entry _ valid found isDir ih =>
    subst ih
    obtain ⟨j, hj⟩ := tree_lookup valid found
    obtain ⟨-, -, regular | ⟨-, zero⟩⟩ := treeEntry_valid hj
    · rw [isDir] at regular
      cases regular
    · exact zero

theorem tree_live {n : Nat} : treeVolume.Live n ↔ n < 4096 := by
  refine ⟨fun h => ?_, fun h => test_fullBitmap (n := 512) h⟩
  exact Volume.Live.lt h

theorem tree_blocks {n k : Nat} (hn : n < 4096) (h : treeVolume.blocks n k ≠ 0) :
    n = 0 ∧ k = 0 ∧ treeVolume.blocks n k = 700 := by
  by_cases h0 : n = 0
  · subst h0
    change slot treePart treeRoot k ≠ 0 at h
    show 0 = 0 ∧ k = 0 ∧ slot treePart treeRoot k = 700
    rw [tree_slot] at h ⊢
    split at h
    next hk => exact ⟨rfl, hk, if_pos hk⟩
    next => exact absurd rfl h
  · -- the table on the disk holds nothing
    have inode : treeVolume.inode n = diskInode treePart n := Volume.inode_closed (if_neg h0)
    have sectors (j : Nat) : (diskInode treePart n).iSectors j = 0 := by
      have empty : diskInode treePart n = inodeAt zeros := by
        refine inodeAt_congr fun k hk => if_neg ?_
        have table : smallDisk.inodeTableLba = 4 := rfl
        unfold inodeAddr sectorSize inodeBytesLen
        rw [table]
        omega
      rw [empty]
      show (if j < 13 then _ else 0) = 0
      split <;> rfl
    refine absurd ?_ h
    unfold Volume.blocks
    rw [inode]
    rw [slot_noTable (sectors 12), sectors, ite_self]

theorem tree_unshared : treeVolume.Unshared := by
  refine ⟨fun n hn => ⟨fun i j hi heq => ?_, fun i hi => ?_⟩, ?_⟩
  · have hj := (tree_blocks (tree_live.mp hn) (heq ▸ hi)).2.1
    rw [hj, (tree_blocks (tree_live.mp hn) hi).2.1]
  · rw [(tree_blocks (tree_live.mp hn) hi).2.2]
    exact taken_fullPart
  · rintro n m hn hm hne b ⟨hb, i, rfl⟩ ⟨_, j, hj⟩
    exact hne ((tree_blocks (tree_live.mp hn) hb).1.trans
      (tree_blocks (tree_live.mp hm) (hj ▸ hb)).1.symm)

theorem tree_open {n : Nat} {inode : Inode} (h : treeVolume.openInodes n = some inode) :
    n = 0 ∧ inode = treeRoot := by
  change (if n = 0 then some treeRoot else none) = some inode at h
  split at h
  next hn =>
    cases h
    exact ⟨hn, rfl⟩
  next => cases h

theorem tree_consistent : Consistent treeVolume where
  rootOpen := rfl
  cnts n inode h := by
    rw [(tree_open h).2]
    decide
  iNo i dir := by
    rw [tree_root dir]
    rfl
  entry i dir name e valid found := by
    rw [tree_root dir] at found
    obtain ⟨j, hj⟩ := tree_lookup valid found
    obtain ⟨-, hn, type⟩ := treeEntry_valid hj
    exact ⟨hn, type.imp_right And.left⟩
  unshared := tree_unshared
  keyed n inode h := by
    obtain ⟨rfl, rfl⟩ := tree_open h
    decide
  rootDots name h := by
    rcases h with rfl | rfl
    · exact tree_found (i := 0) rfl
    · exact tree_found (i := 1) rfl
  liveDir i dir := by
    rw [tree_root dir]
    exact tree_live.mpr (by decide)
  liveEntry i dir name e valid found := by
    rw [tree_root dir] at found
    obtain ⟨j, hj⟩ := tree_lookup valid found
    exact tree_live.mpr (treeEntry_valid hj).2.1
  files i dir name e valid found regular isDir := by
    rw [tree_root dir] at found
    obtain ⟨j, hj⟩ := tree_lookup valid found
    rw [tree_root isDir, regular] at hj
    unfold treeEntry at hj
    split at hj <;> cases hj
  dots i dir k j used _ := by
    rw [tree_root dir] at used ⊢
    change (entries treePart treeRoot (k, j)).fType ≠ 0 at used
    rw [tree_entries] at used
    split at used
    next hk =>
      have dot := tree_cells k 0
      rw [if_pos hk] at dot
      obtain ⟨hused, hname, -⟩ := binding_some.mp dot
      exact ⟨0, hused, hname⟩
    next => exact absurd rfl used

/-- The theorem at `/f`. -/
theorem resolves_whole_file : ResolvesWhole treeVolume ⟨zeros, 0, 0⟩ (slash :: fileName) := by
  refine (resolves_whole_iff treeVolume _ _ tree_consistent ⟨⟨_, rfl⟩, by decide, by decide⟩).mpr
    ⟨?_, fun h => ?_⟩
  · obtain ⟨e, found, -, type⟩ := tree_found (i := 2) rfl
    rw [show components (slash :: fileName) = [fileName] by decide]
    unfold throughFile
    rw [found]
    dsimp only
    rw [type]
    rfl
  · exact absurd h (by decide)

/-- `/f/x` resolves to the file `/f`. -/
theorem file_as_directory :
    ¬ ∀ (sb : SuperBlock) (v : Volume sb) (dirE : DirEntry) (path : List Byte),
    Consistent v → ValidPath path → ResolvesWhole v dirE path := by
  intro claim
  have valid : ValidPath (slash :: fileName ++ slash :: [120]) := ⟨⟨_, rfl⟩, by decide, by decide⟩
  have names : components (slash :: fileName ++ slash :: [120]) = [fileName, [120]] := by decide
  obtain ⟨s, hsearch⟩ := (claim smallDisk treeVolume ⟨zeros, 0, 0⟩ _ tree_consistent valid).search
  obtain ⟨e, found, number, type⟩ := tree_found (i := 2) rfl
  have notDir : ¬ e.fType = ftDirectory := by
    rw [type]
    decide
  rw [searchFile_eq tree_consistent.toTree valid _ (by decide), names] at hsearch
  have file : (follow treeVolume .root [] 0 ⟨zeros, 0, 0⟩ [fileName, [120]]).1 = 1 := by
    unfold follow
    rw [show treeVolume.lookup DirRef.root.inodeNo fileName = some e from found]
    dsimp only
    rw [if_neg notDir, number]
    rfl
  have nothing : walk treeVolume 0 [fileName, [120]] = none := by
    unfold walk
    rw [found]
    dsimp only
    rw [if_neg notDir]
    rfl
  rw [Except.ok.injEq] at hsearch
  have same := congrArg Prod.fst hsearch
  rw [file, nothing] at same
  cases same

end SeekingOs.Fs
