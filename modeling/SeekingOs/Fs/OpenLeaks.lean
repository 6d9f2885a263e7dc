import SeekingOs.Fs.DirRuns
import SeekingOs.Fs.InodeCache

/-!
# What a failed `sys_open` leaves behind

`sys_open` acquires a directory, a slot of `file_table`, an inode and the right to write before it
knows that it will succeed. Most of its failures give back what they have. `file_open` does not: a
second writer keeps the slot and the inode, and so does an open without a free descriptor, after
`file_open` as after `file_create`; and the parent directory of a file that exists is not closed at
all.
-/

namespace SeekingOs.Fs

open Lib

variable {sb : SuperBlock}

def oCreate : Nat := 4

/-- `file_table`, the inodes in memory and the `fd_table` of the caller. -/
structure OpenState (sb : SuperBlock) where
  cache : Cache sb
  file : Nat → File
  fdTable : Nat → Int

/-- What `sys_malloc` answers: to `search_dir_entry`, by the length of the searched path, and twice
to `file_create`. -/
structure OpenHeap where
  search : Nat → Bool
  ioBuf : Bool
  newFileInode : Bool

namespace OpenState

variable (s : OpenState sb)

/-- `get_free_slot_in_global` -/
def getFreeSlotInGlobal : Option Nat :=
  (List.range' 3 29).find? fun fdIdx => (s.file fdIdx).fdInode == none

/-- The loop of `pcb_fd_install`: the first free entry from 3 on. -/
def freeLocalFd : Option Nat := (List.range' 3 5).find? fun localFdIdx => s.fdTable localFdIdx == -1

/-- `pcb_fd_install` -/
def pcbFdInstall (globalFdIdx : Nat) : Int × OpenState sb :=
  match s.freeLocalFd with
  | some localFdIdx =>
    (localFdIdx, { s with fdTable := Function.update s.fdTable localFdIdx globalFdIdx })
  | none => (-1, s)

def setPart (p : Part sb) : OpenState sb := { s with cache := { s.cache with part := p } }

/-- `dir_close` -/
def dirClose (dir : DirHandle) : OpenState sb := { s with cache := s.cache.dirClose dir }

/-- `file_create` -/
def fileCreate (heap : OpenHeap) (parentDir : DirHandle) (name : Name) (flag : Nat) :
    Except Fault (Int × OpenState sb) :=
  if heap.ioBuf = false then .ok (-1, s)
  else do
    match ← inodeBitmapAlloc s.cache.part with
    | none => return (-1, s)
    | some (inodeNo, p) =>
      if heap.newFileInode = false then return (-1, s.setPart (p.setInode inodeNo false))
      else
        match s.getFreeSlotInGlobal with
        | none => return (-1, s.setPart (p.setInode inodeNo false))
        | some fdIdx => do
          let newFileInode := s.cache.next
          let file := Function.update s.file fdIdx ⟨0, flag, some newFileInode⟩
          let newDirEntry ← createDirEntry name inodeNo ftRegular zeros
          let parent := s.cache.dirInode parentDir
          match ← syncDirEntry p (s.cache.inode parent) newDirEntry zeros with
          | (false, p, parentInode) =>
            let cache := s.cache.setInode parent parentInode
            return (-1, { s with
              cache := { cache with part := p.setInode inodeNo false }, file :=
                Function.update file fdIdx ⟨0, 0, none⟩ })
          | (true, p, parentInode) => do
            let p ← inodeSync p parentInode zeros
            let p ← inodeSync p (inodeInit inodeNo) zeros
            let cache :=
              { s.cache.setInode parent parentInode with part := inodeBitmapSync p inodeNo }
            return { s with cache := cache.push (inodeInit inodeNo), file }.pcbFdInstall fdIdx

/-- `file_open` -/
def fileOpen (inodeNo flag : Nat) : Except Fault (Int × OpenState sb) :=
  match s.getFreeSlotInGlobal with
  | none => .ok (-1, s)
  | some fdIdx => do
    let (cache, a) ← s.cache.inodeOpen inodeNo
    let s := { s with cache, file := Function.update s.file fdIdx ⟨0, flag, some a⟩ }
    if Writing flag then
      if (cache.inode a).writenDeny then return (-1, s)
      else
        return { s with
          cache := cache.setInode a { cache.inode a with writenDeny := true } }.pcbFdInstall fdIdx
    else return s.pcbFdInstall fdIdx

/-- What comes after the last `/`. -/
def baseName (searchedPath : List Byte) : Name :=
  (searchedPath.reverse.takeWhile (· != slash)).reverse

/-- `sys_open`; `dirE` is what the stack holds where the `dir_e` of `search_file` will be. -/
def sysOpen (heap : OpenHeap) (dirE : DirEntry) (pathName : List Byte) (flags : Nat) :
    Except Fault (Int × OpenState sb) :=
  match pathName.getLast? with
  | none => .error (.outOfBounds "sys_open")
  | some last =>
    if last = slash then .ok (-1, s)
    else do
      assertThat false (flags ≤ 7) "sys_open" "flags <= 7"
      let pathNameDepth ← pathDepthCnt pathName
      let (inodeNo, w) ← s.cache.searchFile heap.search dirE pathName
      let s := { s with cache := w.cache }
      if w.fileType = ftDirectory then return (-1, s.dirClose w.parentDir)
      else
        let pathSearchedDepth ← pathDepthCnt w.searchedPath
        if pathNameDepth ≠ pathSearchedDepth then return (-1, s.dirClose w.parentDir)
        else if inodeNo = -1 ∧ flags &&& oCreate = 0 then return (-1, s.dirClose w.parentDir)
        else if inodeNo ≠ -1 ∧ flags &&& oCreate ≠ 0 then return (-1, s.dirClose w.parentDir)
        else if flags &&& oCreate ≠ 0 then
          let (fd, s) ← s.fileCreate heap w.parentDir (baseName w.searchedPath) flags
          return (fd, s.dirClose w.parentDir)
        else s.fileOpen (u32 inodeNo) flags

end OpenState

/-! ## The claim and its condition -/

/-- `fd_table`, `file_table`, and the open inodes with their `i_open_cnts` and `writen_deny`, are as
before. -/
structure LeaksNothing (s s' : OpenState sb) : Prop where
  fdTable : s'.fdTable = s.fdTable
  file : s'.file = s.file
  users : s'.cache.users = s.cache.users

/-- `writen_deny` of the inode that `inode_open` answers. -/
def Cache.denies (c : Cache sb) (inodeNo : Nat) : Bool :=
  match c.openInodes.find? fun a => (c.inode a).iNo == inodeNo with
  | some a => (c.inode a).writenDeny
  | none => (diskInode c.part inodeNo).writenDeny

/-- The path leads through all of its directories, and to no directory. -/
structure Reaches (s : OpenState sb) (heap : OpenHeap) (dirE : DirEntry) (pathName : List Byte)
    (inodeNo : Int) (w : Walk sb) :
    Prop where
  noSlash : pathName.getLast? ≠ some slash
  searched : s.cache.searchFile heap.search dirE pathName = .ok (inodeNo, w)
  noDirectory : w.fileType ≠ ftDirectory
  sameDepth : pathDepthCnt w.searchedPath = pathDepthCnt pathName

/-- `sys_open` can give back what it has acquired. A file that exists and is opened lies in the root
if there is no free slot; and if there is one, there is a free descriptor too and nobody writes the
file whom the caller would write it with. A file that is created finds a free descriptor, if it
comes that far. -/
def OpensCleanly (s : OpenState sb) (heap : OpenHeap) (dirE : DirEntry) (pathName : List Byte)
    (flags : Nat) : Prop :=
  ∀ inodeNo w, Reaches s heap dirE pathName inodeNo w →
    (inodeNo ≠ -1 → flags &&& oCreate = 0 →
      (s.getFreeSlotInGlobal = none → w.parentDir = .root) ∧
      (s.getFreeSlotInGlobal ≠ none → s.freeLocalFd ≠ none ∧
        ¬ (Writing flags ∧ w.cache.denies (u32 inodeNo) = true))) ∧
    (inodeNo = -1 → flags &&& oCreate ≠ 0 → heap.ioBuf = true → heap.newFileInode = true →
      s.getFreeSlotInGlobal ≠ none →
      s.freeLocalFd ≠ none)

variable {s s' : OpenState sb} {heap : OpenHeap} {dirE : DirEntry} {pathName : List Byte}
  {flags g : Nat} {ret : Int}
  {w : Walk sb}

theorem freeSlot_free (h : s.getFreeSlotInGlobal = some g) : (s.file g).fdInode = none := by
  have hfree := List.find?_some h
  rwa [beq_iff_eq] at hfree

/-- A filled slot is not as it was. -/
theorem slot_filled {file : File} (h : s.getFreeSlotInGlobal = some g)
    (hfile : s'.file = Function.update s.file g file) (hused : file.fdInode ≠ none) :
    ¬ LeaksNothing s s' := by
  intro same
  have heq := congrFun (same.file.symm.trans hfile) g
  rw [Function.update_self] at heq
  rw [← heq] at hused
  exact hused (freeSlot_free h)

/-- What `pcb_fd_install` answers. -/
theorem pcbFdInstall_ret (h : s.pcbFdInstall g = (ret, s')) :
    (ret = -1 ↔ s.freeLocalFd = none) ∧ s'.file = s.file := by
  unfold OpenState.pcbFdInstall at h
  cases hfd : s.freeLocalFd with
  | none =>
    rw [hfd] at h
    cases h
    simp
  | some fd =>
    rw [hfd] at h
    cases h
    refine ⟨?_, rfl⟩
    constructor
    · intro heq
      omega
    · intro hno
      cases hno

/-- WHAT `file_create` DOES: it stops before the slot, and nothing but the bitmap has changed; or it
fills the slot, and answers what `pcb_fd_install` answers. -/
inductive Creates (s : OpenState sb) (heap : OpenHeap) (ret : Int) (s' : OpenState sb) : Prop
  | stopped (ret_eq : ret = -1)
      (early : ¬ (heap.ioBuf = true ∧ heap.newFileInode = true ∧ s.getFreeSlotInGlobal ≠ none))
      (p : Part sb) (state : s' = s.setPart p)
  | filled (g : Nat) (slot : s.getFreeSlotInGlobal = some g) (file : File)
      (used : file.fdInode ≠ none)
      (file_eq : s'.file = Function.update s.file g file) (ret_iff : ret = -1 ↔
        s.freeLocalFd = none)
      (came : heap.ioBuf = true ∧ heap.newFileInode = true)

theorem fileCreate_creates {parentDir : DirHandle} {name : Name}
    (h : s.fileCreate heap parentDir name flags = .ok (ret, s')) : Creates s heap ret s' := by
  unfold OpenState.fileCreate at h
  split at h
  next hio =>
    cases h
    apply Creates.stopped rfl _ s.cache.part rfl
    rw [hio]
    simp
  next hio =>
    obtain ⟨r, halloc, h⟩ := bind_eq_ok.mp h
    unfold inodeBitmapAlloc at halloc
    obtain ⟨_, hscan, halloc⟩ := bind_eq_ok.mp halloc
    obtain ⟨n, rfl, -⟩ := bitmapScan_one hscan
    cases halloc
    dsimp only [Option.map_some] at h
    split at h
    next hnew =>
      cases h
      apply Creates.stopped rfl _ _ rfl
      rw [hnew]
      simp
    next hnew =>
      split at h
      next hslot =>
        cases h
        apply Creates.stopped rfl _ _ rfl
        simp [hslot]
      next g hslot =>
        obtain ⟨_, _, h⟩ := bind_eq_ok.mp h
        obtain ⟨⟨done, p', inode'⟩, hsync, h⟩ := bind_eq_ok.mp h
        obtain rfl := syncDirEntry_true hsync
        obtain ⟨_, _, h⟩ := bind_eq_ok.mp h
        obtain ⟨_, _, h⟩ := bind_eq_ok.mp h
        obtain ⟨hiff, hfile⟩ := pcbFdInstall_ret (Except.ok.inj h)
        apply Creates.filled g hslot _ _ hfile hiff
        · exact ⟨by simpa using hio, by simpa using hnew⟩
        · exact Option.some_ne_none _

/-- WHAT `file_open` DOES: without a slot nothing, else it fills one. -/
inductive Opens (s : OpenState sb) (inodeNo flag : Nat) (ret : Int) (s' : OpenState sb) : Prop
  | stopped (ret_eq : ret = -1) (noSlot : s.getFreeSlotInGlobal = none) (state : s' = s)
  | filled (g : Nat) (slot : s.getFreeSlotInGlobal = some g) (file : File)
      (used : file.fdInode ≠ none)
      (file_eq : s'.file = Function.update s.file g file)
      (ret_iff : ret = -1 ↔ s.freeLocalFd = none ∨ Writing flag ∧ s.cache.denies inodeNo = true)

theorem inodeOpen_deny {c c' : Cache sb} {n a : Nat} (h : c.inodeOpen n = .ok (c', a)) :
    (c'.inode a).writenDeny = c.denies n := by
  unfold Cache.inodeOpen at h
  unfold Cache.denies
  cases hfind : c.openInodes.find? fun b => (c.inode b).iNo == n with
  | some b =>
    rw [hfind] at h
    cases h
    show (Function.update c.inode a _ a).writenDeny = _
    rw [Function.update_self]
  | none =>
    rw [hfind] at h
    obtain ⟨_, _, h⟩ := bind_eq_ok.mp h
    cases h
    show (Function.update c.inode c.next _ c.next).writenDeny = _
    rw [Function.update_self]

theorem fileOpen_opens {inodeNo : Nat} (h : s.fileOpen inodeNo flags = .ok (ret, s')) :
    Opens s inodeNo flags ret s' := by
  unfold OpenState.fileOpen at h
  split at h
  next hslot =>
    cases h
    exact .stopped rfl hslot rfl
  next g hslot =>
    obtain ⟨⟨cache, a⟩, hopen, h⟩ := bind_eq_ok.mp h
    have hdeny := inodeOpen_deny hopen
    dsimp only at h
    rw [hdeny] at h
    have used : (⟨0, flags, some a⟩ : File).fdInode ≠ none := Option.some_ne_none _
    split at h
    next hw =>
      split at h
      next hd =>
        cases h
        apply Opens.filled g hslot _ used rfl
        simp [hw, hd]
      next hd =>
        obtain ⟨hiff, hfile⟩ := pcbFdInstall_ret (Except.ok.inj h)
        apply Opens.filled g hslot _ used hfile
        rw [hiff]
        simp [hd]
        rfl
    next hw =>
      obtain ⟨hiff, hfile⟩ := pcbFdInstall_ret (Except.ok.inj h)
      apply Opens.filled g hslot _ used hfile
      rw [hiff]
      simp [hw]
      rfl

/-! ## `sys_open` -/

/-- The directory that the search holds is closed. -/
theorem LeaksNothing.closed (sound : s.cache.Sound) (listed : w.cache.Listed)
    (held : Held s.cache w.cache w.parentDir) :
    LeaksNothing s ({ s with cache := w.cache }.dirClose w.parentDir) where
  fdTable := rfl
  file := rfl
  users := (held.dirClose sound listed).2

/-- Which part of the partition is in memory makes no difference to who has an inode open. -/
theorem dirClose_setPart (c : Cache sb) (d : DirHandle) (p : Part sb) :
    (Cache.dirClose { c with part := p } d).users = (c.dirClose d).users := by
  cases d with
  | root => rfl
  | opened a =>
    unfold Cache.dirClose Cache.inodeClose
    dsimp only [Cache.setInode]
    split <;> rfl

/-- The condition, where the search has come to an end. -/
theorem opensCleanly_iff {inodeNo : Int} (reach : Reaches s heap dirE pathName inodeNo w) :
    OpensCleanly s heap dirE pathName flags ↔
      (inodeNo ≠ -1 → flags &&& oCreate = 0 →
        (s.getFreeSlotInGlobal = none → w.parentDir = .root) ∧
        (s.getFreeSlotInGlobal ≠ none → s.freeLocalFd ≠ none ∧
        ¬ (Writing flags ∧ w.cache.denies (u32 inodeNo) = true))) ∧
      (inodeNo = -1 → flags &&& oCreate ≠ 0 → heap.ioBuf = true → heap.newFileInode = true →
        s.getFreeSlotInGlobal ≠ none →
        s.freeLocalFd ≠ none) := by
  constructor
  · intro clean
    exact clean inodeNo w reach
  · intro clean m w' reach'
    have heq := reach.searched.symm.trans reach'.searched
    cases heq
    exact clean

/-- A search that does not come through leaves nothing to be said. -/
theorem opensCleanly_of_not (h : ∀ inodeNo w, ¬ Reaches s heap dirE pathName inodeNo w) :
    OpensCleanly s heap dirE pathName flags := fun inodeNo w reach => absurd reach (h inodeNo w)

/-- After `file_create`. -/
theorem fileCreate_leaks (sound : s.cache.Sound) (listed : w.cache.Listed)
    (held : Held s.cache w.cache w.parentDir) {s₁ : OpenState sb}
    (h : Creates { s with cache := w.cache } heap ret s₁) :
    (ret = -1 → LeaksNothing s (s₁.dirClose w.parentDir)) ↔
      (heap.ioBuf = true → heap.newFileInode = true → s.getFreeSlotInGlobal ≠ none →
        s.freeLocalFd ≠ none) := by
  cases h with
  | stopped ret_eq early p state =>
    apply iff_of_true
    · intro _
      have closed := LeaksNothing.closed sound listed held
      rw [state]
      exact ⟨rfl, rfl, (dirClose_setPart w.cache w.parentDir p).trans closed.users⟩
    · intro hio hnew hslot
      exact absurd ⟨hio, hnew, hslot⟩ early
  | filled g slot file used file_eq ret_iff came =>
    have slot : s.getFreeSlotInGlobal = some g := slot
    have file_eq : (s₁.dirClose w.parentDir).file = Function.update s.file g file := file_eq
    constructor
    · intro keeps _ _ _ hfd
      exact slot_filled slot file_eq used (keeps (ret_iff.mpr hfd))
    · intro clean hret
      have hfd := clean came.1 came.2 (by rw [slot]; exact Option.some_ne_none g)
      exact absurd (ret_iff.mp hret) hfd

/-- After `file_open`. -/
theorem fileOpen_leaks (sound : s.cache.Sound) (held : Held s.cache w.cache w.parentDir) {n : Nat}
    (h : Opens { s with cache := w.cache } n flags ret s') :
    (ret = -1 → LeaksNothing s s') ↔
      (s.getFreeSlotInGlobal = none → w.parentDir = .root) ∧
      (s.getFreeSlotInGlobal ≠ none → s.freeLocalFd ≠ none ∧
        ¬ (Writing flags ∧ w.cache.denies n = true)) := by
  cases h with
  | stopped ret_eq noSlot state =>
    have noSlot : s.getFreeSlotInGlobal = none := noSlot
    subst state
    constructor
    · intro keeps
      refine ⟨fun _ => ?_, fun hslot => absurd noSlot hslot⟩
      have same := (keeps ret_eq).users
      cases hd : w.parentDir with
      | root => rfl
      | opened a =>
        rw [hd] at held
        exact absurd same (held.users_ne sound)
    · intro clean _
      have root := clean.1 noSlot
      rw [root] at held
      cases held with
      | root same => exact ⟨rfl, rfl, same⟩
  | filled g slot file used file_eq ret_iff =>
    have slot : s.getFreeSlotInGlobal = some g := slot
    constructor
    · intro keeps
      refine ⟨fun hno => ?_, fun _ => ?_⟩
      · rw [slot] at hno
        cases hno
      · rw [← not_or]
        intro hfail
        exact slot_filled slot file_eq used (keeps (ret_iff.mpr hfail))
    · intro clean hret
      have hok := clean.2 (by rw [slot]; exact Option.some_ne_none g)
      rw [← not_or] at hok
      exact absurd (ret_iff.mp hret) hok

/-- A FAILED `sys_open` LEAKS NOTHING exactly if it can give back what it has acquired. -/
theorem failed_open_leaks_nothing (sound : s.cache.Sound)
    (h : s.sysOpen heap dirE pathName flags = .ok (ret, s')) :
    (ret = -1 → LeaksNothing s s') ↔ OpensCleanly s heap dirE pathName flags := by
  unfold OpenState.sysOpen at h
  split at h
  next => cases h
  next last hlast =>
    split at h
    next hslash =>
      cases h
      apply iff_of_true
      · intro _
        exact ⟨rfl, rfl, rfl⟩
      · apply opensCleanly_of_not
        intro _ _ reach
        exact reach.noSlash (hlast.trans (congrArg some hslash))
    next hslash =>
      obtain ⟨_, _, h⟩ := bind_eq_ok.mp h
      obtain ⟨depth, hdepth, h⟩ := bind_eq_ok.mp h
      obtain ⟨⟨inodeNo, w⟩, hsearch, h⟩ := bind_eq_ok.mp h
      obtain ⟨listed, held⟩ := searchFile_held sound hsearch
      have closed := LeaksNothing.closed sound listed held
      dsimp only at h
      split at h
      next hdir =>
        cases h
        apply iff_of_true (fun _ => closed)
        apply opensCleanly_of_not
        intro m w' reach
        have heq := hsearch.symm.trans reach.searched
        cases heq
        exact reach.noDirectory hdir
      next hdir =>
        obtain ⟨searched, hsearched, h⟩ := bind_eq_ok.mp h
        split at h
        next hne =>
          cases h
          apply iff_of_true (fun _ => closed)
          apply opensCleanly_of_not
          intro m w' reach
          have heq := hsearch.symm.trans reach.searched
          cases heq
          have hsame := reach.sameDepth
          rw [hsearched, hdepth] at hsame
          exact hne (Except.ok.inj hsame).symm
        next hsame =>
          have hsame : depth = searched := not_not.mp hsame
          have reach : Reaches s heap dirE pathName inodeNo w := by
            refine ⟨?_, hsearch, hdir, ?_⟩
            · rw [hlast]
              exact fun heq => hslash (Option.some.inj heq)
            · rw [hsearched, hdepth, hsame]
          rw [opensCleanly_iff reach]
          split at h
          next hnone =>
            cases h
            apply iff_of_true (fun _ => closed)
            exact ⟨fun hfound => absurd hnone.1 hfound, fun _ hcreate => absurd hnone.2 hcreate⟩
          next hnone =>
            split at h
            next hexists =>
              cases h
              apply iff_of_true (fun _ => closed)
              exact ⟨fun _ hopen => absurd hopen hexists.2, fun hno => absurd hno hexists.1⟩
            next hexists =>
              split at h
              next hcreate =>
                have hno : inodeNo = -1 := not_not.mp fun hfound => hexists ⟨hfound, hcreate⟩
                obtain ⟨⟨fd, s₁⟩, hmade, h⟩ := bind_eq_ok.mp h
                cases h
                rw [fileCreate_leaks sound listed held (fileCreate_creates hmade)]
                constructor
                · intro clean
                  exact ⟨fun hfound => absurd hno hfound, fun _ _ => clean⟩
                · intro clean
                  exact clean.2 hno hcreate
              next hopen =>
                have hopen : flags &&& oCreate = 0 := not_not.mp hopen
                have hfound : inodeNo ≠ -1 := fun hno => hnone ⟨hno, hopen⟩
                rw [fileOpen_leaks sound held (fileOpen_opens h)]
                constructor
                · intro clean
                  exact ⟨fun _ _ => clean, fun hno => absurd hno hfound⟩
                · intro clean
                  exact clean.1 hfound hopen

/-! ### A creation without a free descriptor -/

theorem fileCreate_total {parentDir : DirHandle} {name : Name}
    (hinode : ∃ i < 4096, s.cache.part.inodeBitmap.test i = false)
    (hfree : 2 ≤ freeCount s.cache.part) (hname : name.length ≤ 16)
    (books : InOrder s.cache.part (s.cache.inode (s.cache.dirInode parentDir)))
    (hparent : (s.cache.inode (s.cache.dirInode parentDir)).iNo < 4096)
    (hsize : (s.cache.inode (s.cache.dirInode parentDir)).iSize % dirEntrySize = 0) :
    ∃ r, s.fileCreate heap parentDir name flags = .ok r := by
  unfold OpenState.fileCreate
  split
  · exact ⟨_, rfl⟩
  obtain ⟨n, hn, halloc⟩ := inodeBitmapAlloc_total hinode
  rw [halloc, ok_bind]
  dsimp only
  split
  · exact ⟨_, rfl⟩
  split
  · exact ⟨_, rfl⟩
  rw [createDirEntry_eq _ _ hname, ok_bind]
  have books₀ :
      InOrder (s.cache.part.setInode n true) (s.cache.inode (s.cache.dirInode parentDir)) := books
  obtain ⟨p₁, parent', hsync⟩ :=
    syncDirEntry_total (p := s.cache.part.setInode n true) hsize hfree
      (entryBuf name n ftRegular) zeros
  have hno := (syncDirEntry_effect books₀ hsync).iNo
  obtain ⟨p₂, hsync₂, -⟩ :=
    inodeReplace_ok "inode_sync" p₁ (n := parent'.iNo) (by rwa [hno]) (inodeBytes parent') zeros
  obtain ⟨p₃, hsync₃, -⟩ :=
    inodeReplace_ok "inode_sync" p₂ (n := (inodeInit n).iNo) hn (inodeBytes (inodeInit n)) zeros
  rw [hsync, ok_bind]
  dsimp only
  unfold inodeSync
  rw [hsync₂, ok_bind, hsync₃]
  exact ⟨_, rfl⟩

/-- The small disk with its root open, nothing else, and a process whose descriptors are all used.
-/
def fullFds : OpenState smallDisk where
  cache := ⟨formattedPart, [0], fun _ => formattedRoot, 0, 1⟩
  file _ := ⟨0, 0, none⟩
  fdTable _ := 0

def allAnswer : OpenHeap := ⟨fun _ => true, true, true⟩

theorem fullFds_sound : fullFds.cache.Sound where
  nodup := List.nodup_singleton 0
  fresh a ha := by
    rw [List.mem_singleton.mp ha]
    decide
  counts a k deny h := by
    obtain ⟨-, rfl, -⟩ := users_some h
    exact ⟨Nat.one_pos, show 1 < 2 ^ 32 by decide⟩

/-- Nothing is in the root of the small disk. -/
theorem formattedRoot_empty {name : Name} (hname : ValidName name) :
    searchDirEntry true formattedPart formattedRoot name = none := by
  have hentry (c : Cell) : entries formattedPart formattedRoot c = emptyEntry := by
    obtain ⟨k, i⟩ := c
    unfold entries
    split
    · exact dirEntryAt_congr fun j _ => rfl
    · rfl
  have zeroed : Zeroed formattedPart formattedRoot := by
    intro c _
    rw [hentry, emptyEntry_name]
  cases h : searchDirEntry true formattedPart formattedRoot name with
  | none => rfl
  | some e =>
    obtain ⟨c, hc⟩ := searchDirEntry_some hname zeroed h
    unfold cells at hc
    rw [hentry] at hc
    cases hc

/-- The path `/a`. -/
def pathA : List Byte := [47, 97]

theorem pathA_parsed : pathParse pathA = .ok ([97], none) :=
  pathParse_ok.mpr ⟨by decide, by decide, by decide⟩

theorem pathA_depth : pathDepthCnt pathA = .ok 1 := by
  unfold pathDepthCnt
  rw [pathA_parsed, ok_bind]
  dsimp only
  unfold depthLoop
  rw [dif_neg (by decide)]
  simp only [nextName]
  unfold depthLoop
  rfl

/-- The search for `/a` ends in the root. -/
theorem pathA_searched (dirE : DirEntry) :
    fullFds.cache.searchFile allAnswer.search dirE pathA =
      .ok (-1, ⟨fullFds.cache, pathA, .root, ftUnkown, 0, dirE⟩) := by
  have happend : appendName [] [97] = .ok pathA := rfl
  have hnone : fullFds.cache.searchDirEntry true .root [97] = none :=
    formattedRoot_empty (by decide)
  unfold Cache.searchFile
  rw [if_neg (by decide), assertThat_of (by decide), ok_bind, pathA_parsed, ok_bind]
  dsimp only
  unfold walkLoop
  rw [dif_neg (by decide), happend]
  dsimp only
  rw [show allAnswer.search pathA.length = true from rfl, hnone]

/-- `sys_open` answers −1, and the slot stays filled. -/
theorem pathA_leaks (dirE : DirEntry) :
    ∃ s', fullFds.sysOpen allAnswer dirE pathA 4 = .ok (-1, s') ∧ ¬ LeaksNothing fullFds s' := by
  obtain ⟨⟨fd, s₁⟩, hmade⟩ : ∃ r, fullFds.fileCreate allAnswer .root [97] 4 = .ok r := by
    apply fileCreate_total
    · exact ⟨2, by decide, by decide +kernel⟩
    · exact Nat.le_trans (by decide) formatted_freeCount
    · decide
    · exact formattedRoot_books
    · exact Nat.zero_lt_succ 4095
    · rfl
  have hopen : fullFds.sysOpen allAnswer dirE pathA 4 = .ok (fd, s₁.dirClose .root) := by
    unfold OpenState.sysOpen
    rw [show pathA.getLast? = some 97 from rfl]
    dsimp only
    rw [if_neg (by decide), assertThat_of (by decide), ok_bind, pathA_depth, ok_bind,
      pathA_searched, ok_bind]
    dsimp only
    rw [if_neg (by decide), pathA_depth, ok_bind, if_neg (by decide), if_neg (by decide),
      if_neg (by decide), if_pos (by decide)]
    show (fullFds.fileCreate allAnswer .root [97] 4 >>= _) = _
    rw [hmade]
    rfl
  have leaks : ¬ (fd = -1 → LeaksNothing fullFds (s₁.dirClose .root)) := by
    have created :=
      fileCreate_leaks (w := ⟨fullFds.cache, pathA, .root, ftUnkown, 0, dirE⟩) fullFds_sound
        fullFds_sound.toListed
      (.root rfl) (fileCreate_creates hmade)
    rw [created]
    intro clean
    exact clean rfl rfl (by decide) (by decide)
  obtain ⟨rfl, changed⟩ := Classical.not_imp.mp leaks
  exact ⟨_, hopen, changed⟩

/-- The theorem at this call. -/
theorem failed_open_leaks_nothing_formatted :
    ∃ s', fullFds.sysOpen allAnswer emptyEntry pathA 4 = .ok (-1, s') ∧
    (((-1 : Int) = -1 → LeaksNothing fullFds s') ↔
      OpensCleanly fullFds allAnswer emptyEntry pathA 4) := by
  obtain ⟨s', h, -⟩ := pathA_leaks emptyEntry
  exact ⟨s', h, failed_open_leaks_nothing fullFds_sound h⟩

/-- CREATING `/a` WITHOUT A FREE DESCRIPTOR: −1 is answered, and the slot and the inode stay. -/
theorem full_fd_table_leaks :
    ¬ ∀ (s s' : OpenState smallDisk) (heap : OpenHeap) (dirE : DirEntry) (pathName : List Byte)
      (flags : Nat),
    s.cache.Sound → s.sysOpen heap dirE pathName flags = .ok (-1, s') → LeaksNothing s s' := by
  intro claim
  obtain ⟨s', h, leaks⟩ := pathA_leaks emptyEntry
  exact leaks (claim _ _ _ _ _ _ fullFds_sound h)

end SeekingOs.Fs
