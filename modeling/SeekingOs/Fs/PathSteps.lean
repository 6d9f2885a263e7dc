import SeekingOs.Fs.FsckRemoval
import SeekingOs.Fs.Shown

/-!
# The calls that take a path

From a session that shows a store, `sys_mkdir`, `sys_unlink` and `sys_rmdir` lead to a session that
shows what the call makes of the store.
-/

namespace SeekingOs.Fs

open Lib Lib.Machine

variable {sb : SuperBlock} {aside : Nat → Prop} {s : Session sb} {S S' : Store} {path : List Byte}
  {dirE : DirEntry} {names : List Name}
  {name : Name} {d n : Nat} {ret : Int} {record : PathSearchRecord} {p p' : Part sb}
    {parent : Inode}

/-! ## What the calls are promised -/

/-- The directory that the path leads to without its last name has room in its direct blocks. -/
def RoomFor (v : Volume sb) (path : List Byte) : Prop :=
  ∀ d t, walk v 0 (components path).dropLast = some (d, t) → DirectRoom v.part (v.inode d)

/-- The directory that the path leads to is not open, and its name is not `.`. -/
def Removable (v : Volume sb) (path : List Byte) : Prop :=
  (components path).getLast? ≠ some dotName ∧
    ∀ n, walk v 0 (components path) = some (n, ftDirectory) → v.openInodes n = none

/-- WHAT THE CALLS ARE PROMISED. Paths are absolute and their names fit; a directory that something
is made in has room before its indirect table; a directory is removed under its own name and while
it is not open; a write is of one byte at least; and no inode is open so often that its count might
wrap. -/
def Promised (s : Session sb) : SysCall → Prop
  | .open _ _ path flags => s.vol.Countable ∧ GivenPath path ∧
      (flags &&& oCreate ≠ 0 → RoomFor s.vol path)
  | .write _ _ _ count => 1 ≤ count
  | .mkdir _ _ path => s.vol.Countable ∧ GivenPath path ∧ RoomFor s.vol path
  | .rmdir _ _ path => s.vol.Countable ∧ GivenPath path ∧ Removable s.vol path
  | .unlink _ _ path => s.vol.Countable ∧ GivenPath path
  | _ => True

/-! ## Paths -/

theorem Shows.searched (shows : Shows aside s S) (countable : s.vol.Countable)
    (given : GivenPath path) {o : Int × SearchState sb} (h : searchFile s.vol dirE path = .ok o) :
    o.2.vol = s.vol.held o.2.record.parentDir ∧ S.up.Dir o.2.record.parentDir.inodeNo ∧
      (SearchEnds S.up (components path) o.1 o.2.record ∨ path ∈ rootNames ∧ o.1 = 0 ∧
        o.2.record.fileType = ftDirectory) :=
  shows.loaded.searchFile shows.rootOpen
    (fun n inode h => by have := (countable n inode h).2; omega) given h

/-- The names that have been searched are counted. -/
theorem GivenPath.depth_joined (given : GivenPath path)
    (sub : ∀ name ∈ names, name ∈ components path) :
    pathDepthCnt (joined names) = .ok names.length := by
  have same : components (joined names) = names :=
    components_joined fun name h => plain_of_mem (sub name h)
  have valid : ∀ name ∈ components (joined names), ValidName name := by
    rw [same]
    exact fun name h => given.names name (sub name h)
  rw [pathDepthCnt_ok valid, same]

theorem GivenPath.depth_searched (given : GivenPath path) {before rest : List Name}
    (split : components path = before ++ name :: rest) :
    pathDepthCnt (joined (before ++ [name])) = .ok (before.length + 1) := by
  have sub : ∀ x ∈ before ++ [name], x ∈ components path := by
    intro x hx
    rw [split]
    simp only [List.mem_append, List.mem_cons, List.not_mem_nil, or_false] at hx ⊢
    exact hx.imp_right .inl
  rw [given.depth_joined sub, List.length_append]
  rfl

/-- A search that has gone through as many names as the path has has gone through all of them. -/
theorem GivenPath.whole (given : GivenPath path) {before rest : List Name}
    (split : components path = before ++ name :: rest)
    (same : pathDepthCnt (joined (before ++ [name])) = pathDepthCnt path) : rest = [] := by
  rw [given.depth_searched split, pathDepthCnt_ok given.names, split] at same
  have := Except.ok.inj same
  simp only [List.length_append, List.length_cons] at this
  exact List.eq_nil_of_length_eq_zero (by omega)

/-- Where there is a place for something new, nothing is found. -/
theorem SearchEnds.of_vacant (ends : SearchEnds S.up names ret record)
    (vacant : S.Vacant names d name) (fsck : Fsck aside p S.up) :
    ret = -1 ∧ record.searchedPath = joined names ∧ record.fileType = ftUnkown := by
  obtain ⟨first, rfl, leads, none⟩ := vacant
  cases ends with
  | missing split leads' none' =>
    obtain ⟨rfl, rfl, rfl, -⟩ := leads'.stops leads split.symm fsck fun n => none' n _
    exact ⟨rfl, rfl, rfl⟩
  | @file before found rest ref n split leads' hn =>
    have has : S.up.Has ref.inodeNo found n ftRegular := .proper (fsck.hung n _ hn).2.2.1 hn
    obtain ⟨-, -, rfl, rfl⟩ := leads'.stops leads split.symm fsck fun m hm =>
      absurd (has.unique hm fsck (leads'.dir fsck.tree (.inl rfl))).2 (by decide)
    exact absurd has (none _ _)
  | dir split leads' has =>
    obtain ⟨rfl, e⟩ := List.append_inj' split rfl
    cases e
    obtain rfl := leads'.unique leads fsck (.inl rfl)
    exact absurd has (none _ _)

/-- What is in the names of the root. -/
theorem rootNames_components (root : path ∈ rootNames) :
    components path = [] ∨ components path = [dotName] ∨ components path = [dotDotName] := by
  rcases List.mem_cons.mp root with rfl | root
  · exact .inl (by decide)
  · rcases List.mem_cons.mp root with rfl | root
    · exact .inr (.inl (by decide))
    · obtain rfl := List.mem_singleton.mp root
      exact .inr (.inr (by decide))

/-- In the root there is always `.`. -/
theorem rootNames_vacant (root : path ∈ rootNames) : ¬ S.Vacant (components path) d name := by
  rintro ⟨before, split, leads, none⟩
  have one {last : Name} (h : [last] = before ++ [name]) : before = [] ∧ last = name := by
    cases before with
    | nil => exact ⟨rfl, (List.cons.inj h).1⟩
    | cons => exact absurd (congrArg List.length h) (by simp)
  rcases rootNames_components root with nothing | dot | dotDot
  · rw [nothing] at split
    exact absurd split (by simp)
  · rw [dot] at split
    obtain ⟨-, rfl⟩ := one split
    exact none _ _ .dot
  · rw [dotDot] at split
    obtain ⟨-, rfl⟩ := one split
    exact none _ _ .dotDot

/-- Where nothing is found under the last name there is a place for it. -/
theorem SearchEnds.vacant (ends : SearchEnds S.up (components path) (-1) record)
    (given : GivenPath path) (same : pathDepthCnt record.searchedPath = pathDepthCnt path) :
    ∃ name, S.Vacant (components path) record.parentDir.inodeNo name ∧
      OpenState.baseName record.searchedPath = name ∧ name ∈ components path := by
  generalize hret : (-1 : Int) = ret at ends
  cases ends with
  | @missing before name rest ref split leads none =>
    obtain rfl := given.whole split same
    have mem : name ∈ components path := by
      rw [split]
      exact List.mem_append_right _ List.mem_cons_self
    exact ⟨name, ⟨before, split, leads, none⟩, baseName_joined (plain_of_mem mem) before, mem⟩
  | file => cases hret
  | dir => cases hret

/-- A place where nothing is is one for a new entry. -/
theorem Store.Vacant.proper (vacant : S.Vacant names d name) :
    Proper name ∧ ∀ m g, S.up m = some g → g.parent = d → g.name ≠ name := by
  obtain ⟨first, -, -, none⟩ := vacant
  have proper : Proper name := by
    refine ⟨?_, ?_⟩
    · rintro rfl
      exact none _ _ .dot
    · rintro rfl
      exact none _ _ .dotDot
  refine ⟨proper, fun m g hm hp hname => none m g.kind (.proper proper ?_)⟩
  rw [hm, ← hp, ← hname]

/-- The room that is promised is in the directory that is open. -/
theorem RoomFor.held (room : RoomFor s.vol path) (shows : Shows aside s S) (given : GivenPath path)
    {ref : DirRef} (vacant : S.Vacant (components path) ref.inodeNo name) :
    DirectRoom (s.vol.held ref).part ((s.vol.held ref).inode ref.inodeNo) := by
  obtain ⟨first, split, leads, -⟩ := vacant
  have walks : walk s.vol 0 (components path).dropLast = some (ref.inodeNo, ftDirectory) := by
    rw [split, List.dropLast_concat]
    refine shows.loaded.walk_leads leads (.inl rfl) fun x hx => given.names x ?_
    rw [split]
    exact List.mem_append_left _ hx
  rw [Volume.held_part, Volume.held_inode]
  exact room _ _ walks

/-- The directory that is open is what the disk has. -/
theorem Shows.held_alike (shows : Shows aside s S) (ref : DirRef) :
    Alike ((s.vol.held ref).inode ref.inodeNo) (diskInode s.vol.part ref.inodeNo) := by
  have like := shows.loaded.alike ref.inodeNo
  rw [Volume.held_inode]
  exact ⟨like.iNo, like.iSize, like.iSectors⟩

theorem Shows.closes (countable : s.vol.Countable) (ref : DirRef) :
    (s.vol.held ref).dirClose ref = s.vol := Volume.dirClose_held countable.cnts ref

/-! ## `sys_mkdir` -/

/-- No allocation of `sys_mkdir` fails. -/
theorem sysMkdir_some {r : Option (Part sb × Inode × Inode)}
    (h : Fs.sysMkdir p parent name = .ok r) :
    ∃ p' parent' new, r = some (p', parent', new) ∧ parent'.iOpenCnts = parent.iOpenCnts := by
  unfold Fs.sysMkdir at h
  obtain ⟨_, halloc, h⟩ := bind_eq_ok.mp h
  unfold inodeBitmapAlloc at halloc
  obtain ⟨_, hscan, halloc⟩ := bind_eq_ok.mp halloc
  obtain ⟨n, rfl, -⟩ := bitmapScan_one hscan
  cases halloc
  dsimp only [Option.map_some] at h
  obtain ⟨_, halloc, h⟩ := bind_eq_ok.mp h
  obtain ⟨b, p₁, rfl, -⟩ := blockBitmapAlloc_ok halloc
  dsimp only at h
  obtain ⟨_, _, h⟩ := bind_eq_ok.mp h
  obtain ⟨pDe, _, h⟩ := bind_eq_ok.mp h
  obtain ⟨⟨done, p₂, parent₂⟩, hsync, h⟩ := bind_eq_ok.mp h
  obtain rfl := syncDirEntry_true hsync
  obtain ⟨p₃, _, h⟩ := bind_eq_ok.mp h
  obtain ⟨p₄, _, h⟩ := bind_eq_ok.mp h
  cases h
  exact ⟨_, _, _, rfl, syncDirEntry_cnts hsync⟩

theorem Shows.sysMkdir (shows : Shows aside s S) (countable : s.vol.Countable)
    (given : GivenPath path) (room : RoomFor s.vol path) {heap : Bool} {o : Int × Volume sb}
    (h : s.vol.sysMkdir heap dirE path = .ok o) :
    ∃ S', S.Serves (.mkdir heap dirE path) ⟨o.1, none⟩ S' ∧
      Shows aside { s with vol := o.2 } S' := by
  unfold Volume.sysMkdir at h
  split at h
  next hheap =>
    cases h
    exact ⟨S, .refused (.inl hheap), shows⟩
  next hheap =>
  obtain rfl : heap = true := by simpa using hheap
  obtain ⟨⟨inodeNo, w⟩, hsearch, h⟩ := bind_eq_ok.mp h
  obtain ⟨hvol, dir, ends⟩ := shows.searched countable given hsearch
  dsimp only at hvol dir ends h
  rw [hvol] at h
  -- a call that is refused closes the directory, and nothing has changed
  have refused (reason : ∀ d name, ¬ S.Vacant (components path) d name) {o : Int × Volume sb}
      (ho : (.ok (-1, (s.vol.held w.record.parentDir).dirClose w.record.parentDir) : Except Fault
        (Int × Volume sb)) = .ok o) :
      ∃ S', S.Serves (.mkdir true dirE path) ⟨o.1, none⟩ S' ∧
        Shows aside { s with vol := o.2 } S' := by
    cases ho
    rw [Shows.closes countable]
    exact ⟨S, .refused (.inr reason), shows⟩
  split at h
  next found =>
    refine refused (fun d name vacant => ?_) h
    rcases ends with ends | ⟨root, -, -⟩
    · exact found (ends.of_vacant vacant shows.loaded.fsck).1
    · exact rootNames_vacant root vacant
  next missing =>
  obtain rfl : inodeNo = -1 := by simpa using missing
  replace ends := ends.resolve_right fun root => absurd root.2.1 (by decide)
  rw [pathDepthCnt_ok given.names, ok_bind] at h
  obtain ⟨depth, hdepth, h⟩ := bind_eq_ok.mp h
  split at h
  next early =>
    refine refused (fun d name vacant => early ?_) h
    rw [(ends.of_vacant vacant shows.loaded.fsck).2.1, given.depth_joined fun _ hx => hx] at hdepth
    exact Except.ok.inj hdepth
  next whole =>
  obtain rfl := Classical.not_not.mp whole
  obtain ⟨name, vacant, base, mem⟩ :=
    ends.vacant given (hdepth.trans (pathDepthCnt_ok given.names).symm)
  obtain ⟨proper, unused⟩ := vacant.proper
  rw [base] at h
  obtain ⟨r, hmake, h⟩ := bind_eq_ok.mp h
  obtain ⟨p', parent', new, rfl, cnts⟩ := sysMkdir_some hmake
  have like := shows.held_alike w.record.parentDir
  have part : (s.vol.held w.record.parentDir).part = s.vol.part := Volume.held_part _
  have roomy := room.held shows given vacant
  cases h
  rw [part] at hmake roomy
  obtain ⟨enters, fsck, like', others⟩ :=
    shows.loaded.fsck.sysMkdir dir like roomy (given.names name mem) proper unused hmake
  dsimp only
  rw [Volume.dirClose_changed countable shows.rootOpen cnts]
  exact ⟨S.hang new.iNo w.record.parentDir.inodeNo name ftDirectory,
    .made ⟨vacant, enters.nonzero, enters.free⟩,
    shows.hung enters (plain_of_mem mem) fsck like' others (fun _ _ => rfl) nofun⟩

/-! ## `sys_unlink` -/

/-- A file that is in no slot is not in memory. -/
theorem Shows.unused (shows : Shows aside s S) (countable : s.vol.Countable) {h : Hang Nat Name Nat}
    (hn : S.up n = some h) (kind : h.kind = ftRegular) (absent : n ∉ s.openFiles) :
    s.vol.openInodes n = none := by
  rw [← Volume.openCnts_eq_zero countable, shows.users n h hn kind,
    List.count_eq_zero_of_not_mem absent]

/-- What is found and is no directory is a file on the way. -/
theorem SearchEnds.meets (ends : SearchEnds S.up names ret record) (found : ret ≠ -1)
    (file : record.fileType ≠ ftDirectory) :
    ∃ (n : Nat) (name : Name), ret = n ∧ S.Meets names record.parentDir.inodeNo name n := by
  cases ends with
  | missing => exact absurd rfl found
  | file split leads hn => exact ⟨_, _, rfl, _, _, split, leads, hn⟩
  | dir => exact absurd rfl file

theorem u32_small (hn : n < 4096) : u32 (n : Int) = n := by
  unfold u32
  omega

theorem Shows.sysUnlink (shows : Shows aside s S) (countable : s.vol.Countable)
    (given : GivenPath path) {ioBuf : Bool} {o : Int × Volume sb}
    (h : Fs.sysUnlink s.openFiles ioBuf s.vol dirE path = .ok o) :
    ∃ S', S.Serves (.unlink ioBuf dirE path) ⟨o.1, none⟩ S' ∧
      Shows aside { s with vol := o.2 } S' := by
  unfold Fs.sysUnlink at h
  obtain ⟨_, _, h⟩ := bind_eq_ok.mp h
  obtain ⟨⟨inodeNo, w⟩, hsearch, h⟩ := bind_eq_ok.mp h
  obtain ⟨hvol, dir, ends⟩ := shows.searched countable given hsearch
  dsimp only at hvol dir ends h
  obtain ⟨_, hroot, h⟩ := bind_eq_ok.mp h
  have nonzero := assertThat_ok hroot
  replace ends := ends.resolve_right fun root => nonzero root.2.1
  rw [hvol] at h
  split at h
  next =>
    cases h
    rw [Shows.closes countable]
    exact ⟨S, .refused trivial, shows⟩
  next going =>
  simp only [not_or] at going
  obtain ⟨hfound, hfile, hopen, hio⟩ := going
  obtain ⟨n, name, number, meets⟩ := ends.meets hfound hfile
  have hn := meets.choose_spec.choose_spec.2.2
  have hlt := shows.loaded.fsck.lt (here_of hn)
  rw [number, u32_small hlt] at hopen h
  have closed := shows.unused countable hn rfl hopen
  have hne : n ≠ w.record.parentDir.inodeNo := by
    rintro rfl
    exact shows.loaded.fsck.not_dir hn rfl dir
  have same {p₁ : Part sb} {parent' : Inode} :
      ((s.vol.held w.record.parentDir).put w.record.parentDir.inodeNo p₁ parent').openInodes n =
        none :=
    (Volume.put_other hne).trans ((Volume.held_other hne).trans closed)
  obtain ⟨⟨done, p₁, parent'⟩, hdel, h⟩ := bind_eq_ok.mp h
  obtain ⟨w₂, hrealse, h⟩ := bind_eq_ok.mp h
  cases h
  obtain ⟨p', victim, likev, hgone, rfl⟩ :=
    Volume.inodeRealse_open (fun inode hi => absurd (same.symm.trans hi) nofun) hlt hrealse
  rw [Volume.inode_closed same] at likev
  rw [show (s.vol.held w.record.parentDir).part = s.vol.part from Volume.held_part _] at hdel
  obtain ⟨fsck, like', others⟩ := shows.loaded.fsck.remove hn (shows.held_alike _)
    (fun m g hm hp => shows.loaded.fsck.not_dir hn rfl (hp ▸ shows.loaded.fsck.tree.parent m g hm))
      hdel likev hgone
  have closes :
      (⟨p', ((s.vol.held w.record.parentDir).put w.record.parentDir.inodeNo
        p₁ parent').openInodes⟩ : Volume sb).dirClose w.record.parentDir =
      s.vol.changed w.record.parentDir.inodeNo p' parent' :=
    Volume.dirClose_changed countable shows.rootOpen (deleteDirEntry_cnts hdel)
  dsimp only
  rw [closes, show ioBuf = true by simpa using hio]
  refine ⟨S.cut n, .unlinked meets fun fd o hfd => ?_, shows.cut hn closed hopen fsck like' others⟩
  rintro rfl
  obtain ⟨g, hg, -, slot⟩ := shows.descriptors.opened fd o hfd
  exact hopen (mem_openFiles.mpr ⟨g, hg, by rw [slot]⟩)

/-! ## `sys_rmdir` -/

/-- `dir_is_empty` says whether something hangs below the directory. -/
theorem Fsck.isEmpty_iff {up : FileTree} (fsck : Fsck aside p up) (dir : up.Dir n) {inode : Inode}
    (like : Alike inode (diskInode p n)) :
    dirIsEmpty inode = true ↔ ∀ m g, up m = some g → g.parent ≠ n := by
  obtain ⟨map, acc, lists⟩ := fsck.dirs n dir
  replace acc := like.accounted acc
  rw [acc.accounts.isEmpty_iff]
  constructor
  · rintro only m g hm rfl
    obtain ⟨-, -, proper, -⟩ := fsck.hung m g hm
    obtain ⟨c, hc⟩ :=
      acc.good.represents.complete g.name (m, g.kind) ((lists.proper g.name m g.kind proper).mpr hm)
    rcases only c (cells_live hc) with rfl | rfl
    · obtain ⟨v, hv⟩ := acc.accounts.dot
      rw [hc, Option.some.injEq, Prod.mk.injEq] at hv
      exact proper.1 hv.1
    · obtain ⟨v, hv⟩ := acc.accounts.dotDot
      rw [hc, Option.some.injEq, Prod.mk.injEq] at hv
      exact proper.2 hv.1
  · intro bare c hlive
    have hc : cells p inode c =
        some ((entries p inode c).name, (entries p inode c).iNo, (entries p inode c).fType) :=
          if_neg hlive
    have listed := acc.good.represents.sound c _ _ hc
    by_cases hdot : (entries p inode c).name = dotName
    · obtain ⟨v, hv⟩ := acc.accounts.dot
      rw [hdot] at hc
      exact .inl (acc.good.represents.once c (0, 0) _ _ _ hc hv)
    by_cases hdotDot : (entries p inode c).name = dotDotName
    · obtain ⟨v, hv⟩ := acc.accounts.dotDot
      rw [hdotDot] at hc
      exact .inr (acc.good.represents.once c (0, 1) _ _ _ hc hv)
    exact absurd rfl (bare _ _ ((lists.proper _ _ _ ⟨hdot, hdotDot⟩).mp listed))

/-- What is found under the name of a directory. -/
theorem SearchEnds.of_named (ends : SearchEnds S.up names ret record)
    (named : S.Named names d name n ftDirectory) (fsck : Fsck aside p S.up) :
    ret = n ∧ record.fileType = ftDirectory := by
  obtain ⟨first, rfl, leads, hn⟩ := named
  have has : S.up.Has d name n ftDirectory := .proper (fsck.hung n _ hn).2.2.1 hn
  cases ends with
  | missing split leads' none =>
    obtain ⟨-, rfl, rfl, rfl⟩ := leads'.stops leads split.symm fsck fun m => none m _
    exact absurd has (none _ _)
  | @file before found rest ref m split leads' hm =>
    have file : S.up.Has ref.inodeNo found m ftRegular := .proper (fsck.hung m _ hm).2.2.1 hm
    have dir := leads'.dir fsck.tree (.inl rfl)
    have stops (k : Nat) (hk : S.up.Has ref.inodeNo found k ftDirectory) : False :=
      absurd (file.unique hk fsck dir).2 (by decide)
    obtain ⟨-, -, rfl, rfl⟩ := leads'.stops leads split.symm fsck stops
    exact (stops _ has).elim
  | dir split leads' has' =>
    obtain ⟨rfl, e⟩ := List.append_inj' split rfl
    cases e
    obtain rfl := leads'.unique leads fsck (.inl rfl)
    obtain ⟨rfl, -⟩ := has'.unique has fsck (leads.dir fsck.tree (.inl rfl))
    exact ⟨rfl, rfl⟩

/-- What is found and is a directory. -/
theorem SearchEnds.reaches (ends : SearchEnds S.up names ret record) (found : ret ≠ -1)
    (dir : record.fileType ≠ ftRegular) :
    ∃ (n : Nat) (before : List Name) (name : Name), ret = n ∧ names = before ++ [name] ∧
      S.up.Leads 0 before record.parentDir.inodeNo ∧
      S.up.Has record.parentDir.inodeNo name n ftDirectory := by
  cases ends with
  | missing => exact absurd rfl found
  | file => exact absurd rfl dir
  | dir split leads has => exact ⟨_, _, _, rfl, split, leads, has⟩

/-- A directory with nothing below it hangs in the one that has its name. -/
theorem FileTree.Has.child {up : FileTree} (has : up.Has d name n ftDirectory)
    (notDot : name ≠ dotName) (nonzero : n ≠ 0) (bare : ∀ m g, up m = some g → g.parent ≠ n) :
    up n = some ⟨d, name, ftDirectory⟩ := by
  cases has with
  | dot => exact absurd rfl notDot
  | dotDot =>
    unfold FileTree.above at nonzero bare ⊢
    cases hd : up d with
    | none =>
      rw [hd] at nonzero
      exact absurd rfl nonzero
    | some g =>
      rw [hd] at bare
      exact absurd rfl (bare d g hd)
  | proper _ hn => exact hn

/-- What is known of the directory that `sys_rmdir` has found and opened. -/
structure ChildOpened (s : Session sb) (ref : DirRef) (n : Nat) : Prop where
  lt : n < 4096
  other : n ≠ ref.inodeNo
  opened : ((s.vol.held ref).held (.opened n)).openInodes n =
    some { (s.vol.held ref).inode n with iOpenCnts := 1 }
  part : ((s.vol.held ref).held (.opened n)).part = s.vol.part
  like : ∀ m, Alike (((s.vol.held ref).held (.opened n)).inode m) (diskInode s.vol.part m)
  number : (((s.vol.held ref).held (.opened n)).inode n).iNo = n

theorem Shows.childOpened (shows : Shows aside s S) {ref : DirRef}
    (hung : S.up n = some ⟨ref.inodeNo, name, ftDirectory⟩) (closed : s.vol.openInodes n = none)
    (bare : ∀ m g, S.up m = some g → g.parent ≠ n) : ChildOpened s ref n := by
  have hne : n ≠ ref.inodeNo := fun e => bare n _ hung e.symm
  have like (m : Nat) :
      Alike (((s.vol.held ref).held (.opened n)).inode m) (diskInode s.vol.part m) :=
    ((Volume.held_alike _ m).trans (Volume.held_alike ref m)).trans (shows.loaded.alike m)
  refine ⟨shows.loaded.fsck.lt (here_of hung), hne, Volume.put_self.trans ?_,
    (Volume.held_part _).trans (Volume.held_part _), like,
    (like n).iNo.trans (shows.loaded.fsck.numbered n (here_of hung))⟩
  rw [show (s.vol.held ref).openInodes n = none from (Volume.held_other hne).trans closed]
  rfl

/-- THE REMOVAL of the directory that `sys_rmdir` has found and opened. -/
theorem Shows.dirRemove (shows : Shows aside s S) (countable : s.vol.Countable) {ref : DirRef}
    (hung : S.up n = some ⟨ref.inodeNo, name, ftDirectory⟩) (closed : s.vol.openInodes n = none)
    (bare : ∀ m g, S.up m = some g → g.parent ≠ n) {o : Int × Volume sb}
    (h : Volume.dirRemove ((s.vol.held ref).held (.opened n)) true ref (.opened n) = .ok o) :
    o.1 = 0 ∧ Shows aside { s with vol := (o.2.dirClose (.opened n)).dirClose ref } (S.cut n) := by
  obtain ⟨hlt, hne, opened, part, like, number⟩ := shows.childOpened hung closed bare
  have absent : n ∉ s.openFiles := by
    intro hmem
    obtain ⟨g, hg, kind⟩ := shows.files n hmem
    rw [hung] at hg
    cases hg
    exact absurd (show ftDirectory = ftRegular from kind) (by decide)
  unfold Volume.dirRemove at h
  obtain ⟨_, _, h⟩ := bind_eq_ok.mp h
  rw [if_neg (by decide)] at h
  obtain ⟨⟨done, p₁, parent'⟩, hdel, h⟩ := bind_eq_ok.mp h
  obtain ⟨w, hrealse, h⟩ := bind_eq_ok.mp h
  cases h
  rw [show (DirRef.opened n).inodeNo = n from rfl, number] at hdel hrealse
  have same : (((s.vol.held ref).held (.opened n)).put ref.inodeNo p₁ parent').openInodes n = _ :=
    (Volume.put_other hne).trans opened
  obtain ⟨p', victim, likev, hgone, rfl⟩ := Volume.inodeRealse_open
    (fun inode hi => by
      cases same.symm.trans hi
      exact ⟨Nat.one_pos, show 1 < 2 ^ 32 - 1 by decide⟩) hlt hrealse
  rw [Volume.inode_open same] at likev
  rw [part] at hdel
  have books : InOrder s.vol.part (((s.vol.held ref).held (.opened n)).inode ref.inodeNo) := by
    rw [InOrder, (like _).slot]
    exact shows.loaded.fsck.books (shows.loaded.fsck.tree.parent n _ hung).here
  have parentNo : (((s.vol.held ref).held (.opened n)).inode ref.inodeNo).iNo = ref.inodeNo :=
    (like _).iNo.trans (shows.loaded.fsck.numbered _ (shows.loaded.fsck.tree.parent n _ hung).here)
  have moves : Moves (fun _ => True) (· = ref.inodeNo) s.vol.part p₁ :=
    (deleteDirEntry_effect books hdel).moves parentNo fun _ _ => trivial
  have likev' : Alike victim (diskInode p₁ n) := by
    have base := (Volume.held_alike ref n).trans (shows.loaded.alike n)
    rw [moves.inodes n hlt hne]
    exact likev.trans ⟨base.iNo, base.iSize, base.iSectors⟩
  obtain ⟨fsck, like', others⟩ := shows.loaded.fsck.remove hung (like _) bare hdel likev' hgone
  have cnts : parent'.iOpenCnts = ((s.vol.held ref).inode ref.inodeNo).iOpenCnts := by
    rw [deleteDirEntry_cnts hdel]
    unfold Volume.inode
    rw [Volume.held_part, show ((s.vol.held ref).held (.opened n)).openInodes ref.inodeNo = _ from
      Volume.held_other (Ne.symm hne)]
  have closes :
      ((⟨p', (((s.vol.held ref).held (.opened n)).put ref.inodeNo p₁ parent').openInodes⟩ : Volume
        sb).dirClose (.opened n)).dirClose ref =
      s.vol.changed ref.inodeNo p' parent' := by
    have child : (((s.vol.held ref).held (.opened n)).put ref.inodeNo p' parent').dirClose
        (.opened n) = (s.vol.held ref).put ref.inodeNo p' parent' := by
      rw [Volume.dirClose_put (show ref.inodeNo ≠ (DirRef.opened n).inodeNo from Ne.symm hne)
        (by rw [show (DirRef.opened n).inodeNo = n from rfl, opened]; rfl),
        Volume.dirClose_held (countable.held ref)]
    rw [← Volume.dirClose_changed countable shows.rootOpen cnts, ← child]
    rfl
  refine ⟨rfl, ?_⟩
  dsimp only
  rw [closes]
  exact shows.cut hung closed absent fsck like' others

/-- What `sys_rmdir` is promised of the directory that it finds empty. -/
theorem Shows.removes (shows : Shows aside s S) (given : GivenPath path)
    (removable : Removable s.vol path) {before : List Name}
    (split : components path = before ++ [name]) (leads : S.up.Leads 0 before d)
    (has : S.up.Has d name n ftDirectory) (nonzero : n ≠ 0)
    (bare : ∀ m g, S.up m = some g → g.parent ≠ n) :
    S.up n = some ⟨d, name, ftDirectory⟩ ∧ s.vol.openInodes n = none := by
  have leads' : S.up.Leads 0 (components path) n := by
    rw [split]
    exact leads.snoc has
  have notDot : name ≠ dotName := by
    rintro rfl
    refine removable.1 ?_
    rw [split, List.getLast?_append]
    rfl
  exact ⟨has.child notDot nonzero bare,
    removable.2 n (shows.loaded.walk_leads leads' (.inl rfl) given.names)⟩

theorem Shows.sysRmdir (shows : Shows aside s S) (countable : s.vol.Countable)
    (given : GivenPath path) (removable : Removable s.vol path) {ioBuf : Bool} {o : Int × Volume sb}
    (h : s.vol.sysRmdir ioBuf dirE path = .ok o) :
    ∃ S', S.Serves (.rmdir ioBuf dirE path) ⟨o.1, none⟩ S' ∧
      Shows aside { s with vol := o.2 } S' := by
  unfold Volume.sysRmdir at h
  obtain ⟨⟨inodeNo, w⟩, hsearch, h⟩ := bind_eq_ok.mp h
  obtain ⟨hvol, dir, ends⟩ := shows.searched countable given hsearch
  dsimp only at hvol dir ends h
  obtain ⟨_, hroot, h⟩ := bind_eq_ok.mp h
  have nonzero := assertThat_ok hroot
  replace ends := ends.resolve_right fun root => nonzero root.2.1
  rw [hvol] at h
  split at h
  next refused =>
    cases h
    rw [Shows.closes countable]
    refine ⟨S, .refused (.inr fun d name n named => ?_), shows⟩
    obtain ⟨number, kind⟩ := ends.of_named named shows.loaded.fsck
    rcases refused with missing | file
    · rw [number] at missing
      cases missing
    · rw [kind] at file
      exact absurd file (by decide)
  next going =>
  obtain ⟨found, isDir⟩ := not_or.mp going
  obtain ⟨n, before, name, number, split, leads, has⟩ := ends.reaches found isDir
  have hlt := (has.typed shows.loaded.fsck dir).1
  have dirN := has.dir shows.loaded.fsck.tree dir
  have like :
      Alike (((s.vol.held w.record.parentDir).held (.opened n)).inode n) (diskInode s.vol.part n) :=
    ((Volume.held_alike _ n).trans (Volume.held_alike _ n)).trans (shows.loaded.alike n)
  have twice : (((s.vol.held w.record.parentDir).held (.opened n)).dirClose (.opened n)).dirClose
      w.record.parentDir = s.vol := by
    rw [Volume.dirClose_held (countable.held w.record.parentDir), Shows.closes countable]
  rw [number, u32_small hlt,
    Volume.dirOpen_eq (fun inode hi => (countable.held _ n inode hi).2) hlt, ok_bind] at h
  dsimp only at h
  by_cases full :
    dirIsEmpty (((s.vol.held w.record.parentDir).held (.opened n)).inode
      (DirRef.opened n).inodeNo) = false
  · rw [if_pos full] at h
    cases h
    rw [twice]
    refine ⟨S, .refused (.inr fun d name m named => ?_), shows⟩
    obtain ⟨same, -⟩ := ends.of_named named shows.loaded.fsck
    rw [number] at same
    obtain rfl : n = m := Int.ofNat_inj.mp same
    by_contra none
    push Not at none
    exact absurd (full.symm.trans ((shows.loaded.fsck.isEmpty_iff dirN like).mpr none)) (by decide)
  rw [if_neg full] at h
  have bare := (shows.loaded.fsck.isEmpty_iff dirN like).mp (Bool.eq_true_of_not_eq_false full)
  obtain ⟨⟨ret, vol⟩, hremove, h⟩ := bind_eq_ok.mp h
  cases h
  cases ioBuf with
  | false =>
    unfold Volume.dirRemove at hremove
    obtain ⟨_, _, hremove⟩ := bind_eq_ok.mp hremove
    cases hremove
    rw [twice]
    exact ⟨S, .refused (.inl rfl), shows⟩
  | true =>
  obtain ⟨hung, closed⟩ :=
    shows.removes given removable split leads has (fun h0 => nonzero (by rw [number, h0]; rfl)) bare
  obtain ⟨rfl, shows'⟩ := shows.dirRemove countable hung closed bare hremove
  exact ⟨S.cut n, .removed ⟨before, split, leads, hung⟩ bare, shows'⟩

end SeekingOs.Fs
