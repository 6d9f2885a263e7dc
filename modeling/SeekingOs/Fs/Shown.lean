import SeekingOs.Fs.OpenCountsRuns
import SeekingOs.Fs.Store

/-!
# The store that a session shows

A session shows a store if the partition is in order, the inodes in memory are what the disk has,
and `file_table` counts them. It shows the changed store when a directory has changed, when a file
is opened, and when what nobody has open is gone.
-/

namespace SeekingOs.Fs

open Lib Lib.Machine

variable {sb : SuperBlock} {aside : Nat → Prop} {v w : Volume sb} {p p' : Part sb}
  {inode inode' : Inode} {d n m g : Nat} {ref : DirRef}

/-! ## Closing what was opened -/

/-- Who has a directory open sees how it has changed. -/
def Volume.changed (v : Volume sb) (n : Nat) (p : Part sb) (inode : Inode) : Volume sb :=
  ⟨p, Function.update v.openInodes n
    ((v.openInodes n).map fun old => { inode with iOpenCnts := old.iOpenCnts })⟩

theorem Volume.changed_self : (v.changed n p inode).openInodes n = (v.openInodes n).map fun old =>
    { inode with iOpenCnts := old.iOpenCnts } :=
  Function.update_self _ _ _

theorem Volume.changed_other (h : m ≠ n) : (v.changed n p inode).openInodes m = v.openInodes m :=
  Function.update_of_ne h _ _

theorem Volume.changed_openCnts (m : Nat) : (v.changed n p inode).openCnts m = v.openCnts m := by
  unfold Volume.openCnts
  by_cases h : m = n
  · subst h
    rw [Volume.changed_self]
    cases v.openInodes m <;> rfl
  · rw [Volume.changed_other h]

/-- No inode in `open_inodes` is unused, and the counts are far from wrapping. -/
def Volume.Countable (v : Volume sb) : Prop := ∀ n inode, v.openInodes n = some inode →
  0 < inode.iOpenCnts ∧ inode.iOpenCnts < 2 ^ 32 - 3

theorem Volume.Countable.cnts (countable : v.Countable) (n : Nat) (inode : Inode)
    (h : v.openInodes n = some inode) : 0 < inode.iOpenCnts ∧ inode.iOpenCnts < 2 ^ 32 - 1 :=
  ⟨(countable n inode h).1, by have := (countable n inode h).2; omega⟩

theorem Volume.openCnts_lt (countable : v.Countable) (n : Nat) : v.openCnts n < 2 ^ 32 - 3 := by
  unfold Volume.openCnts
  cases h : v.openInodes n with
  | none => exact by decide
  | some inode => exact (countable n inode h).2

theorem Volume.openCnts_eq_zero (countable : v.Countable) :
    v.openCnts n = 0 ↔ v.openInodes n = none := by
  unfold Volume.openCnts
  cases h : v.openInodes n with
  | none => exact iff_of_true rfl rfl
  | some inode => exact iff_of_false (Nat.ne_of_gt (countable n inode h).1) nofun

theorem Volume.held_other (h : n ≠ ref.inodeNo) : (v.held ref).openInodes n = v.openInodes n := by
  cases ref with
  | root => rfl
  | opened m => exact Volume.put_other h

theorem Volume.held_inode_cnts : ((v.held (.opened n)).inode n).iOpenCnts = v.openCnts n + 1 := by
  have opened : (v.held (.opened n)).openInodes n = some _ := Volume.put_self
  rw [Volume.inode_open opened]
  rfl

theorem Volume.held_alike (ref : DirRef) (n : Nat) : Alike ((v.held ref).inode n) (v.inode n) := by
  rw [Volume.held_inode]
  exact ⟨rfl, rfl, fun _ _ => rfl⟩

theorem Volume.Countable.held (countable : v.Countable) (ref : DirRef) (n : Nat) (inode : Inode)
    (h : (v.held ref).openInodes n = some inode) :
    0 < inode.iOpenCnts ∧ inode.iOpenCnts < 2 ^ 32 - 1 := by
  by_cases hn : n = ref.inodeNo
  · cases ref with
    | root => exact countable.cnts n inode h
    | opened m =>
      obtain rfl : n = m := hn
      have hlt := Volume.openCnts_lt countable n
      have self : (v.held (.opened n)).inode n = inode := Volume.inode_open h
      have cnts := Volume.held_inode_cnts (v := v) (n := n)
      rw [self] at cnts
      omega
  · rw [Volume.held_other hn] at h
    exact countable.cnts n inode h

/-- A DIRECTORY IS CLOSED after it has changed. -/
theorem Volume.dirClose_changed (countable : v.Countable) (root : (v.openInodes 0).isSome = true)
    (cnts : inode'.iOpenCnts = ((v.held ref).inode ref.inodeNo).iOpenCnts) :
    ((v.held ref).put ref.inodeNo p inode').dirClose ref = v.changed ref.inodeNo p inode' := by
  cases ref with
  | root =>
    obtain ⟨old, hold⟩ := Option.isSome_iff_exists.mp root
    have same : inode'.iOpenCnts = old.iOpenCnts := by
      rw [cnts]
      exact congrArg Inode.iOpenCnts (Volume.inode_open hold)
    show (⟨p, Function.update v.openInodes 0 (some inode')⟩ : Volume sb) =
      ⟨p, Function.update v.openInodes 0 _⟩
    rw [show v.openInodes DirRef.root.inodeNo = some old from hold, Option.map_some, ← same]
  | opened n =>
    have hlt := Volume.openCnts_lt countable n
    have one : inode'.iOpenCnts = v.openCnts n + 1 := cnts.trans Volume.held_inode_cnts
    have back : u32 ((inode'.iOpenCnts : Int) - 1) = v.openCnts n := by
      rw [one]
      unfold u32
      omega
    show (⟨p, _⟩ : Volume sb) = ⟨p, _⟩
    congr 1
    show Function.update (Function.update (v.held (.opened n)).openInodes n (some inode')) n _ = _
    have self : ((v.held (.opened n)).put n p inode').inode n = inode' :=
      Volume.inode_open Volume.put_self
    rw [show ((v.held (.opened n)).put (DirRef.opened n).inodeNo p inode').inode n = inode' from
      self, back, Function.update_idem]
    show Function.update (Function.update v.openInodes n _) n _ = _
    rw [Function.update_idem]
    congr 1
    by_cases h0 : v.openCnts n = 0
    · rw [if_pos h0, show (DirRef.opened n).inodeNo = n from rfl,
        (Volume.openCnts_eq_zero countable).mp h0]
      rfl
    · rw [if_neg h0]
      unfold Volume.openCnts at h0 ⊢
      show _ = (v.openInodes n).map _
      cases hopen : v.openInodes n with
      | none =>
        rw [hopen] at h0
        exact absurd rfl h0
      | some old => rfl

/-- Closing a directory has nothing to do with another inode. -/
theorem Volume.dirClose_put (h : n ≠ ref.inodeNo)
    (opened : (w.openInodes ref.inodeNo).isSome = true) :
    (w.put n p inode).dirClose ref = (w.dirClose ref).put n p inode := by
  cases ref with
  | root => rfl
  | opened m =>
    obtain ⟨old, hold⟩ := Option.isSome_iff_exists.mp opened
    have before : w.inode m = old := Volume.inode_open hold
    have after : (w.put n p inode).inode m = old :=
      Volume.inode_open ((Volume.put_other (Ne.symm h)).trans hold)
    unfold Volume.dirClose
    dsimp only
    rw [before, after]
    unfold Volume.put Volume.inodeClose
    exact congrArg (Volume.mk p) (Function.update_comm h _ _ _)

/-- `inode_realse` gives up the inode, and leaves `open_inodes` as it is. -/
theorem Volume.inodeRealse_open (hcnt : ∀ inode, v.openInodes n = some inode → 0 < inode.iOpenCnts ∧
      inode.iOpenCnts < 2 ^ 32 - 1) (hn : n < 4096) (h : v.inodeRealse n = .ok w) :
    ∃ p victim, Alike victim (v.inode n) ∧ Fs.inodeRealse v.part victim n = .ok p ∧
      w = ⟨p, v.openInodes⟩ := by
  unfold Volume.inodeRealse at h
  rw [Volume.inodeOpen_eq (fun inode h => (hcnt inode h).2) hn, ok_bind] at h
  obtain ⟨p, hrealse, h⟩ := bind_eq_ok.mp h
  cases h
  refine ⟨p, _, ?_, hrealse, ?_⟩
  · exact ⟨rfl, rfl, fun _ _ => rfl⟩
  · have back := congrArg Volume.openInodes (Volume.inodeClose_put hcnt)
    unfold Volume.held Volume.put Volume.inodeClose at back
    dsimp only at back
    rw [Function.update_idem] at back
    unfold Volume.inodeClose
    exact congrArg (Volume.mk p) back

/-! ## The store that a session shows -/

/-- WHICH STORE A SESSION SHOWS. The partition and the open inodes are in order; a file is in
`open_inodes` as often as it is in `file_table`, and what is in it are the bytes on the disk. -/
structure Shows (aside : Nat → Prop) (s : Session sb) (S : Store) : Prop where
  loaded : Loaded aside s.vol S.up
  rootOpen : (s.vol.openInodes 0).isSome = true
  plain : ∀ n h, S.up n = some h → Plain h.name
  data : ∀ n h, S.up n = some h → h.kind = ftRegular →
    S.data n = contents s.vol.part (diskInode s.vol.part n)
  users : ∀ n h, S.up n = some h → h.kind = ftRegular → s.vol.openCnts n = s.openFiles.count n
  files : ∀ n ∈ s.openFiles, ∃ h, S.up n = some h ∧ h.kind = ftRegular
  offsets : ∀ g < 32, ∀ n, (s.file g).fdInode = some n → (s.file g).fdPos ≤ (S.data n).length
  descriptors : Descriptors s.file s.fdTable S.fds

variable {s s' : Session sb} {S S' : Store} {up' : FileTree} {data' : Nat → List Byte}
  {name : Name} {t : Nat}

theorem mem_openFiles : n ∈ s.openFiles ↔ ∃ g < 32, (s.file g).fdInode = some n := by
  unfold Session.openFiles maxFilesOpen
  rw [List.mem_filterMap]
  simp only [List.mem_range]

/-- Nobody has what is not there open. -/
theorem Shows.closed (shows : Shows aside s S) (hn0 : n ≠ 0) (free : S.up n = none) :
    s.vol.openInodes n = none := by
  cases h : s.vol.openInodes n with
  | none => rfl
  | some inode => exact absurd free ((shows.loaded.opened n inode h).1.resolve_left hn0)

/-- A directory has changed, and with it the tree. -/
theorem Shows.changed (shows : Shows aside s S) (fsck : Fsck aside p' up')
    (like : Alike inode' (diskInode p' d)) (stays : ∀ m inode, s.vol.openInodes m = some inode →
      up'.Here m ∧ (m ≠ d → diskInode p' m = diskInode s.vol.part m))
    (plain : ∀ n h, up' n = some h → Plain h.name) (old : ∀ n h, S.up n = some h → up' n = some h →
      h.kind = ftRegular → data' n = S.data n ∧ contents p' (diskInode p' n) = contents s.vol.part
      (diskInode s.vol.part n)) (new : ∀ n h, up' n = some h → S.up n = some h ∨ n ≠ 0 ∧
      S.up n = none ∧ (h.kind = ftRegular → data' n = contents p' (diskInode p' n)))
    (kept : ∀ n ∈ s.openFiles, up' n = S.up n) :
    Shows aside { s with vol := s.vol.changed d p' inode' } ⟨up', data', S.fds⟩ where
  loaded := by
    refine ⟨fsck, fun m inode hm => ?_⟩
    by_cases hmd : m = d
    · subst hmd
      rw [Volume.changed_self, Option.map_eq_some_iff] at hm
      obtain ⟨before, hbefore, rfl⟩ := hm
      exact ⟨(stays m before hbefore).1, ⟨like.iNo, like.iSize, like.iSectors⟩,
        (shows.loaded.opened m before hbefore).2.2⟩
    · rw [Volume.changed_other hmd] at hm
      obtain ⟨here, same⟩ := stays m inode hm
      refine ⟨here, ?_, (shows.loaded.opened m inode hm).2.2⟩
      show Alike inode (diskInode p' m)
      rw [same hmd]
      exact (shows.loaded.opened m inode hm).2.1
  rootOpen := by
    by_cases h0 : 0 = d
    · subst h0
      rw [Volume.changed_self, Option.isSome_map]
      exact shows.rootOpen
    · rw [Volume.changed_other h0]
      exact shows.rootOpen
  plain := plain
  data n h hn kind := by
    rcases new n h hn with hold | ⟨-, -, hnew⟩
    · obtain ⟨same, content⟩ := old n h hold hn kind
      exact (same.trans (shows.data n h hold kind)).trans content.symm
    · exact hnew kind
  users n h hn kind := by
    show (s.vol.changed d p' inode').openCnts n = s.openFiles.count n
    rw [Volume.changed_openCnts]
    rcases new n h hn with hold | ⟨hn0, free, -⟩
    · exact shows.users n h hold kind
    · have absent : n ∉ s.openFiles := by
        intro hmem
        obtain ⟨g, hg, -⟩ := shows.files n hmem
        rw [free] at hg
        cases hg
      unfold Volume.openCnts
      rw [shows.closed hn0 free, List.count_eq_zero_of_not_mem absent]
      rfl
  files n hmem := by
    obtain ⟨h, hn, kind⟩ := shows.files n hmem
    exact ⟨h, (kept n hmem).trans hn, kind⟩
  offsets g hg n hfile := by
    have hmem : n ∈ s.openFiles := mem_openFiles.mpr ⟨g, hg, hfile⟩
    obtain ⟨h, hn, kind⟩ := shows.files n hmem
    show (s.file g).fdPos ≤ (data' n).length
    rw [(old n h hn ((kept n hmem).trans hn) kind).1]
    exact shows.offsets g hg n hfile
  descriptors := shows.descriptors

/-- Something new is in the tree. -/
theorem Shows.hung (shows : Shows aside s S) (enters : Enters S.up n ⟨d, name, t⟩)
    (plain : Plain name) (fsck : Fsck aside p' (hang S.up n ⟨d, name, t⟩))
    (like : Alike inode' (diskInode p' d)) (others : Others S.up d s.vol.part p')
    (same : ∀ m, m ≠ n → data' m = S.data m)
    (empty : t = ftRegular → data' n = contents p' (diskInode p' n)) :
    Shows aside { s with vol := s.vol.changed d p' inode' }
      ⟨hang S.up n ⟨d, name, t⟩, data', S.fds⟩ := by
  have cases_hang {m : Nat} {h : Hang Nat Name Nat} (hm : hang S.up n ⟨d, name, t⟩ m = some h) :
      m = n ∧ h = ⟨d, name, t⟩ ∨ m ≠ n ∧ S.up m = some h := by
    by_cases e : m = n
    · subst e
      rw [hang_self, Option.some.injEq] at hm
      exact .inl ⟨rfl, hm.symm⟩
    · rw [hang_other e] at hm
      exact .inr ⟨e, hm⟩
  refine shows.changed fsck like (fun m inode hm => ?_) (fun m h hm => ?_)
    (fun m h hold _ kind => ?_) (fun m h hm => ?_) (fun m hmem => ?_)
  · obtain ⟨here, -, -⟩ := shows.loaded.opened m inode hm
    exact ⟨here_hang.mpr (.inl here), others.inode m here⟩
  · rcases cases_hang hm with ⟨-, rfl⟩ | ⟨-, hold⟩
    · exact plain
    · exact shows.plain m h hold
  · have hmn : m ≠ n := by
      rintro rfl
      rw [enters.free] at hold
      cases hold
    have hmd : m ≠ d := by
      rintro rfl
      exact shows.loaded.fsck.not_dir hold kind enters.dir
    exact ⟨same m hmn, others.data m h hold kind hmd⟩
  · rcases cases_hang hm with ⟨rfl, rfl⟩ | ⟨-, hold⟩
    · exact .inr ⟨enters.nonzero, enters.free, empty⟩
    · exact .inl hold
  · obtain ⟨h, hm, -⟩ := shows.files m hmem
    refine hang_other ?_
    rintro rfl
    rw [enters.free] at hm
    cases hm

/-- Something that nobody has open is gone from the tree. -/
theorem Shows.cut (shows : Shows aside s S) {h : Hang Nat Name Nat} (hung : S.up n = some h)
    (closed : s.vol.openInodes n = none) (absent : n ∉ s.openFiles)
    (fsck : Fsck aside p' (cut S.up n)) (like : Alike inode' (diskInode p' h.parent))
    (others : Others (cut S.up n) h.parent s.vol.part p') :
    Shows aside { s with vol := s.vol.changed h.parent p' inode' } (S.cut n) := by
  have hn0 := shows.loaded.fsck.tree.ne_root hung
  refine shows.changed fsck like (fun m inode hm => ?_) (fun m g hm => ?_)
    (fun m g hold hm kind => ⟨rfl, ?_⟩) (fun m g hm => ?_) (fun m hmem => ?_)
  · have hmn : m ≠ n := by
      rintro rfl
      rw [closed] at hm
      cases hm
    have here := (here_cut hn0).mpr ⟨(shows.loaded.opened m inode hm).1, hmn⟩
    exact ⟨here, others.inode m here⟩
  · exact shows.plain m g (cut_eq_some.mp hm).2
  · have hmp : m ≠ h.parent := by
      rintro rfl
      exact shows.loaded.fsck.not_dir hold kind (shows.loaded.fsck.tree.parent n h hung)
    exact others.data m g hm kind hmp
  · exact .inl (cut_eq_some.mp hm).2
  · refine cut_other ?_
    rintro rfl
    exact absent hmem

/-! ## The counts -/

/-- Whoever has an inode open, what is done to its blocks does not count. -/
theorem syncDirEntry_cnts {pDe ioBuf : Buf} {done : Bool}
    (h : syncDirEntry p inode pDe ioBuf = .ok (done, p', inode')) :
    inode'.iOpenCnts = inode.iOpenCnts := by
  obtain rfl := syncDirEntry_true h
  unfold syncDirEntry at h
  obtain ⟨_, _, h⟩ := bind_eq_ok.mp h
  rw [List.range_eq_range'] at h
  obtain ⟨k, buf, _, _, _, hend⟩ := syncBlocks_ok h
  rcases hend with ⟨-, hnew⟩ | ⟨-, i, -, rfl, -⟩
  · unfold syncNewBlock at hnew
    obtain ⟨_, halloc, hnew⟩ := bind_eq_ok.mp hnew
    obtain ⟨b, p₁, rfl, -⟩ := dirBlockAlloc_ok halloc
    dsimp only at hnew
    split at hnew
    · cases hnew
      rfl
    split at hnew
    · unfold syncNewTable at hnew
      obtain ⟨_, halloc, hnew⟩ := bind_eq_ok.mp hnew
      obtain ⟨b₂, p₂, rfl, -⟩ := dirBlockAlloc_ok halloc
      cases hnew
      rfl
    · cases hnew
      rfl
  · rfl

theorem deleteDirEntry_cnts {done : Bool} (h : deleteDirEntry p inode n = .ok (done, p', inode')) :
    inode'.iOpenCnts = inode.iOpenCnts := by
  unfold deleteDirEntry at h
  cases done with
  | false => rw [(deleteBlocks_false h).2]
  | true =>
  obtain ⟨k, -, -, s, found, -, -, h⟩ := deleteBlocks_ok h
  unfold deleteFound at h
  obtain ⟨_, _, h⟩ := bind_eq_ok.mp h
  obtain ⟨⟨p₁, inode₁⟩, hclear, h⟩ := bind_eq_ok.mp h
  obtain ⟨_, _, h⟩ := bind_eq_ok.mp h
  obtain ⟨p₂, _, h⟩ := bind_eq_ok.mp h
  cases h
  show inode₁.iOpenCnts = inode.iOpenCnts
  unfold clearEntry at hclear
  split at hclear
  · unfold dropBlock at hclear
    obtain ⟨_, _, hclear⟩ := bind_eq_ok.mp hclear
    split at hclear
    · cases hclear
      rfl
    · obtain ⟨_, _, hclear⟩ := bind_eq_ok.mp hclear
      dsimp only at hclear
      split at hclear
      · cases hclear
        rfl
      · cases hclear
        rfl
  · cases hclear
    rfl

theorem firstBlock_cnts {r : Option (Part sb × Inode)} (h : firstBlock p inode = .ok r) :
    ∃ p₁ inode₁, r = some (p₁, inode₁) ∧ inode₁.iOpenCnts = inode.iOpenCnts := by
  unfold firstBlock at h
  split at h
  · obtain ⟨_, halloc, h⟩ := bind_eq_ok.mp h
    obtain ⟨b, p₁, rfl, -⟩ := blockBitmapAlloc_ok halloc
    obtain ⟨_, _, h⟩ := bind_eq_ok.mp h
    cases h
    exact ⟨_, _, rfl, rfl⟩
  · cases h
    exact ⟨_, _, rfl, rfl⟩

theorem collectForWrite_cnts {has will : Nat} {r : Bool × Growth sb}
    (h : collectForWrite p inode has will = .ok r) : r.2.inode.iOpenCnts = inode.iOpenCnts := by
  have grown {g : Growth sb} {q : Bool × Growth sb}
      (h : growBlocks g (newBlocks has will) = .ok q) :
      q.2.inode.iOpenCnts = g.inode.iOpenCnts := by
    obtain ⟨-, new, grew⟩ := growBlocks_ok nodup_newBlocks h
    rw [grew.inode]
    rfl
  unfold collectForWrite at h
  split at h
  · unfold lastBlock at h
    split at h
    · cases h
      rfl
    · obtain ⟨_, _, h⟩ := bind_eq_ok.mp h
      cases h
      rfl
  split at h
  · unfold growDirect at h
    obtain ⟨_, _, h⟩ := bind_eq_ok.mp h
    obtain ⟨_, _, h⟩ := bind_eq_ok.mp h
    exact grown h
  split at h
  · unfold growAcross at h
    obtain ⟨_, halloc, h⟩ := bind_eq_ok.mp h
    obtain ⟨t, p₁, rfl, -⟩ := blockBitmapAlloc_ok halloc
    obtain ⟨_, _, h⟩ := bind_eq_ok.mp h
    obtain ⟨_, hgrow, h⟩ := bind_eq_ok.mp h
    cases h
    rw [storeTable_inode]
    exact grown hgrow
  · unfold growIndirect at h
    obtain ⟨_, _, h⟩ := bind_eq_ok.mp h
    obtain ⟨_, hgrow, h⟩ := bind_eq_ok.mp h
    cases h
    rw [storeTable_inode]
    exact grown hgrow

theorem fileWrite_cnts {heap : Bool} {fdPos count : Nat} {src : Buf} {r : FileResult sb Nat}
    (h : fileWrite heap p inode fdPos src count = .ok r) : r.inode.iOpenCnts = inode.iOpenCnts := by
  unfold fileWrite at h
  split at h
  · cases h
    rfl
  split at h
  · cases h
    rfl
  obtain ⟨_, hfirst, h⟩ := bind_eq_ok.mp h
  obtain ⟨p₁, inode₁, rfl, first⟩ := firstBlock_cnts hfirst
  dsimp only at h
  unfold writeGrown at h
  dsimp only at h
  obtain ⟨_, _, h⟩ := bind_eq_ok.mp h
  obtain ⟨⟨b, g⟩, hcollect, h⟩ := bind_eq_ok.mp h
  obtain rfl := (collectForWrite_rest hcollect).1
  have collect := collectForWrite_cnts hcollect
  dsimp only at h
  obtain ⟨s, _, h⟩ := bind_eq_ok.mp h
  obtain ⟨p₂, _, h⟩ := bind_eq_ok.mp h
  cases h
  exact collect.trans first

/-! ## `file_table` -/

section Slots

variable {f : File}

theorem openFiles_filled (hg : g < 32) (free : (s.file g).fdInode = none)
    (file : s'.file = Function.update s.file g f) (hf : f.fdInode = some n) :
    s'.openFiles.Perm (n :: s.openFiles) := by
  have slots : (fun fileIdx => (s'.file fileIdx).fdInode) =
      Function.update (fun fileIdx => (s.file fileIdx).fdInode) g (some n) := by
    rw [file, ← hf]
    exact Function.comp_update File.fdInode s.file g f
  unfold Session.openFiles
  rw [slots]
  exact Cached.filterMap_update (List.mem_range.mpr hg) List.nodup_range free

theorem openFiles_emptied (hg : g < 32) (used : (s.file g).fdInode = some n)
    (file : s'.file = Function.update s.file g f) (hf : f.fdInode = none) :
    s.openFiles.Perm (n :: s'.openFiles) :=
  openFiles_filled hg (by rw [file, Function.update_self]; exact hf)
    (by rw [file, Function.update_idem, Function.update_eq_self]) used

theorem openFiles_same (file : s'.file = Function.update s.file g f)
    (hf : f.fdInode = (s.file g).fdInode) : s'.openFiles = s.openFiles := by
  have slots : (fun fileIdx => (s'.file fileIdx).fdInode) = fun fileIdx =>
      (s.file fileIdx).fdInode := by
    funext k
    rw [file]
    by_cases h : k = g
    · rw [h, Function.update_self, hf]
    · rw [Function.update_of_ne h]
  unfold Session.openFiles
  rw [slots]

end Slots

/-- What `get_free_slot_in_global` finds. -/
theorem freeSlot_some (h : s.getFreeSlotInGlobal = some g) :
    3 ≤ g ∧ g < 32 ∧ (s.file g).fdInode = none := by
  have range := List.mem_range'_1.mp (List.mem_of_find?_eq_some h)
  exact ⟨range.1, range.2, by simpa using List.find?_some h⟩

/-- Another inode in `open_inodes` is what it was. -/
theorem Loaded.put (loaded : Loaded aside v S.up) (here : S.up.Here n)
    (like : Alike inode (diskInode v.part n)) (cnts : 0 < inode.iOpenCnts) :
    Loaded aside (v.put n v.part inode) S.up where
  fsck := loaded.fsck
  opened m i hm := by
    by_cases h : m = n
    · subst h
      rw [Volume.put_self] at hm
      cases hm
      exact ⟨here, like, cnts⟩
    · rw [Volume.put_other h] at hm
      exact loaded.opened m i hm

theorem Volume.put_openCnts (m : Nat) :
    (v.put n p inode).openCnts m = if m = n then inode.iOpenCnts else v.openCnts m := by
  unfold Volume.openCnts
  by_cases h : m = n
  · subst h
    rw [Volume.put_self, if_pos rfl]
    rfl
  · rw [Volume.put_other h, if_neg h]

/-- A FILE IS OPENED: it is in `open_inodes` once more, and in a slot that was free. -/
theorem Shows.filled (shows : Shows aside s S) {h : Hang Nat Name Nat} (hn : S.up n = some h)
    (kind : h.kind = ftRegular) (slot : s.getFreeSlotInGlobal = some g)
    (like : Alike inode (s.vol.inode n)) (cnts : inode.iOpenCnts = s.vol.openCnts n + 1)
    (flag : Nat) :
    Shows aside
      { s with vol := s.vol.put n s.vol.part inode,
               file := Function.update s.file g ⟨0, flag, some n⟩ } S := by
  obtain ⟨hg, hg', free⟩ := freeSlot_some slot
  have perm :
      Session.openFiles
        { s with vol := s.vol.put n s.vol.part inode,
                 file := Function.update s.file g ⟨0, flag, some n⟩ } |>.Perm
      (n :: s.openFiles) := openFiles_filled (f := ⟨0, flag, some n⟩) hg' free rfl rfl
  exact {
    loaded := shows.loaded.put (here_of hn) (like.trans (shows.loaded.alike n)) (by omega)
    rootOpen := by
      by_cases h0 : 0 = n
      · subst h0
        rw [Volume.put_self]
        rfl
      · rw [Volume.put_other h0]
        exact shows.rootOpen
    plain := shows.plain
    data := shows.data
    users m k hm kind := by
      rw [perm.count_eq, List.count_cons, Volume.put_openCnts]
      have before := shows.users m k hm kind
      by_cases e : m = n
      · subst e
        rw [if_pos rfl, cnts, before]
        simp
      · rw [if_neg e, before]
        simp [Ne.symm e]
    files m hm := by
      rcases List.mem_cons.mp (perm.mem_iff.mp hm) with rfl | hm
      · exact ⟨h, hn, kind⟩
      · exact shows.files m hm
    offsets k hk m hm := by
      by_cases e : k = g
      · subst e
        show (Function.update s.file k _ k).fdPos ≤ _
        rw [Function.update_self]
        exact Nat.zero_le _
      · change (Function.update s.file g _ k).fdInode = some m at hm
        show (Function.update s.file g _ k).fdPos ≤ _
        rw [Function.update_of_ne e] at hm ⊢
        exact shows.offsets k hk m hm
    descriptors := shows.descriptors.fill free hg }

/-- THE DESCRIPTOR that `pcb_fd_install` finds. -/
theorem Shows.installed (shows : Shows aside s S) {h : Hang Nat Name Nat} (hn : S.up n = some h)
    (kind : h.kind = ftRegular) (slot : s.getFreeSlotInGlobal = some g)
    (like : Alike inode (s.vol.inode n)) (cnts : inode.iOpenCnts = s.vol.openCnts n + 1)
    {flag : Nat} {o : Int × Session sb}
    (hinstall : Session.pcbFdInstall
      { s with
        vol := s.vol.put n s.vol.part inode,
        file := Function.update s.file g ⟨0, flag, some n⟩ } g = o) :
    (∃ fd : Nat, S.FreeFd fd ∧ o.1 = fd ∧ Shows aside o.2 (S.setFd fd (some ⟨n, 0, flag⟩))) ∨
      (∀ fd, ¬ S.FreeFd fd) ∧ o.1 = -1 ∧ Shows aside o.2 S := by
  obtain ⟨hg, hg', free⟩ := freeSlot_some slot
  have filled := shows.filled hn kind slot like cnts flag
  have desc := shows.descriptors
  unfold Session.pcbFdInstall at hinstall
  split at hinstall
  next fd hfd =>
    have range := List.mem_range'_1.mp (List.mem_of_find?_eq_some hfd)
    have unused : s.fdTable fd = -1 := by simpa using List.find?_some hfd
    have none : S.fds fd = none := by
      cases hopen : S.fds fd with
      | none => rfl
      | some o =>
        obtain ⟨k, -, hk, -⟩ := desc.opened fd o hopen
        rw [unused] at hk
        omega
    subst hinstall
    refine .inl ⟨fd, ⟨range.1, range.2, none⟩, rfl, ?_⟩
    exact {
      loaded := filled.loaded
      rootOpen := filled.rootOpen
      plain := filled.plain
      data := filled.data
      users := filled.users
      files := filled.files
      offsets := filled.offsets
      descriptors := desc.install free hg hg' range.1 range.2 ⟨n, 0, flag⟩ }
  next hnone =>
    subst hinstall
    refine .inr ⟨fun fd hfd => ?_, rfl, filled⟩
    have full := List.find?_eq_none.mp hnone fd (List.mem_range'_1.mpr ⟨hfd.1, hfd.2.1⟩)
    exact full (by simpa using desc.closed fd hfd.1 hfd.2.1 hfd.2.2)

end SeekingOs.Fs
