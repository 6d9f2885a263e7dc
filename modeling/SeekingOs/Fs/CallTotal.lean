import SeekingOs.Fs.CallRuns

/-!
# The calls come to an end

An assertion that fails stops the kernel, and so does an allocation that finds nothing. From a
session that shows a store, and with what it needs on the partition, a call runs into neither.
-/

namespace SeekingOs.Fs

open Lib Lib.Machine

variable {sb : SuperBlock} {aside : Nat → Prop} {p p₁ : Part sb} {up : FileTree} {n : Nat}
  {h : Hang Nat Name Nat} {parent parent' : Inode}

/-! ## Deleting an entry -/

/-- The scan of a sector where one entry at most leads to the inode. -/
theorem scanEntries_total {b : Nat} (buf : Buf) {s : EntryScan} {ks : List Nat}
    (hks : ∀ j ∈ ks, j < dirEntrysPerSec) (nodup : ks.Nodup)
    (once : ∀ i < dirEntrysPerSec, ∀ j < dirEntrysPerSec, (entryOf p b i).Counted →
      (entryOf p b i).iNo = n → (entryOf p b j).Counted → (entryOf p b j).iNo = n → i = j)
    (fresh : ∀ j ∈ ks, (entryOf p b j).Counted → (entryOf p b j).iNo = n → s.dirEntryFound = none) :
    ∃ s', scanEntries (ideRead p b buf 1) n s ks = .ok s' := by
  induction ks generalizing s with
  | nil => exact ⟨s, rfl⟩
  | cons i ks ih =>
    obtain ⟨hi, hrest⟩ := List.forall_mem_cons.mp hks
    obtain ⟨new, nodup⟩ := List.nodup_cons.mp nodup
    have later (j : Nat) (hj : j ∈ ks) := fresh j (List.mem_cons_of_mem _ hj)
    unfold scanEntries
    rw [ideRead_entry buf hi]
    split
    next => exact ih hrest nodup later
    next used =>
    split
    next => exact ih hrest nodup later
    next dot =>
    split
    next => exact ih hrest nodup later
    next dotDot =>
    have counted : (entryOf p b i).Counted := by
      rw [strSame_iff (n := 16) (by decide) (by decide), ideRead_cStr buf hi] at dot dotDot
      exact ⟨used, dot, dotDot⟩
    dsimp only
    split
    next hno =>
      rw [assertThat_of (fresh i List.mem_cons_self counted hno), ok_bind]
      refine ih hrest nodup fun j hj counted' hno' => absurd hj ?_
      rw [← once i hi j (hrest j hj) counted hno counted' hno']
      exact new
    next => exact ih hrest nodup later

/-- What `delete_dir_entry` relies on. -/
structure Deletable (p : Part sb) (inode : Inode) (n : Nat) : Prop where
  iNo : inode.iNo < 4096
  noTable : inode.iSectors 12 = 0
  size : dirEntrySize ≤ inode.iSize
  once : ∀ c c', (entries p inode c).Counted → (entries p inode c).iNo = n →
    (entries p inode c').Counted → (entries p inode c').iNo = n → c = c'
  bits : ∀ k, slot p inode k ≠ 0 → blockBit sb (slot p inode k) ≥ 1 ∨
    ∃ i, (entries p inode (k, i)).fType ≠ 0 ∧ (entries p inode (k, i)).name = dotName

/-- The block of the entry is given back, or written. -/
theorem Deletable.clear {inode : Inode} (can : Deletable p inode n) {k : Nat} (hk : k < 140)
    (hne : slot p inode k ≠ 0) {s : EntryScan}
    (scanned : Scanned p (slot p inode k) n ⟨false, 0, none⟩ (List.range dirEntrysPerSec) s)
    (buf : Buf) (found : Nat) :
    ∃ p' inode', clearEntry p inode (collectBlocks p inode) k buf s found = .ok (p', inode') ∧
      inode'.iSize = inode.iSize ∧ inode'.iNo = inode.iNo := by
  unfold clearEntry
  split
  next alone =>
    have direct : k < 12 := by
      by_contra hge
      exact hne (by rw [slot_noTable can.noTable, if_neg hge])
    have bit : blockBit sb (collectBlocks p inode k) ≥ 1 := by
      rw [← slot_lt hk]
      refine (can.bits k hne).resolve_right fun ⟨i, hused, hdot⟩ => ?_
      obtain ⟨-, hi, -⟩ := entries_place hused
      rw [entries_used hk hi hne] at hused hdot
      have first := scanned.first.mpr (.inr ⟨i, List.mem_range.mpr hi, hused, hdot⟩)
      rw [alone.2] at first
      cases first
    unfold dropBlock
    rw [assertThat_of bit, ok_bind]
    dsimp only
    rw [if_pos direct]
    exact ⟨_, _, rfl, rfl, rfl⟩
  next => exact ⟨_, _, rfl, rfl, rfl⟩

theorem Deletable.total {inode : Inode} (can : Deletable p inode n) :
    ∃ o, deleteDirEntry p inode n = .ok o := by
  have go {ks : List Nat} (hks : ∀ k ∈ ks, k < 140) :
      ∃ o, deleteBlocks p inode (collectBlocks p inode) n ks = .ok o := by
    induction ks with
    | nil => exact ⟨_, rfl⟩
    | cons k ks ih =>
      obtain ⟨hk, hrest⟩ := List.forall_mem_cons.mp hks
      unfold deleteBlocks
      split
      next => exact ih hrest
      next hne =>
      rw [← slot_lt hk] at hne ⊢
      have entry {i : Nat} (hi : i < dirEntrysPerSec) :
          entries p inode (k, i) = entryOf p (slot p inode k) i := entries_used hk hi hne
      obtain ⟨s, hscan⟩ : ∃ s, scanEntries (ideRead p (slot p inode k) zeros 1) n ⟨false, 0, none⟩
        (List.range dirEntrysPerSec) = .ok s := by
        refine scanEntries_total zeros (fun _ => List.mem_range.mp) List.nodup_range
          (fun i hi j hj ci hni cj hnj => ?_) fun _ _ _ _ => rfl
        rw [← entry hi] at ci hni
        rw [← entry hj] at cj hnj
        exact (Prod.mk.inj (can.once _ _ ci hni cj hnj)).2
      dsimp only
      rw [hscan, ok_bind]
      have scanned := scanEntries_ok zeros (fun _ => List.mem_range.mp) hscan
      split
      next => exact ih hrest
      next found hfound =>
      obtain ⟨i, hi, -, counted, -⟩ := scanned.found.resolve_left fun h0 => by
        rw [hfound] at h0
        cases h0
      have some : s.dirEntryCnt ≥ 1 := by
        rw [scanned.count, Nat.zero_add]
        exact List.length_pos_of_mem (List.mem_filter.mpr ⟨hi, by simpa using counted⟩)
      obtain ⟨p', inode', hclear, size, number⟩ :=
        can.clear hk hne scanned (ideRead p (slot p inode k) zeros 1) found
      obtain ⟨p'', hsync, -⟩ :=
        inodeReplace_ok "inode_sync" p' (n := inode'.shrink.iNo) (number ▸ can.iNo)
          (inodeBytes inode'.shrink) zeros
      unfold deleteFound
      rw [assertThat_of some, ok_bind, hclear, ok_bind]
      dsimp only
      rw [assertThat_of (size ▸ can.size), ok_bind]
      unfold inodeSync
      rw [hsync]
      exact ⟨_, rfl⟩
  exact go fun _ => List.mem_range.mp

/-- A block that is neither the first of the root nor free has a bit that is not 0. -/
theorem blockBit_pos {b : Nat} (taken : Taken p b) (hne : b ≠ sb.dataStartLba) :
    blockBit sb b > 0 := by
  rw [blockBit_eq taken]
  have := taken.1
  omega

/-- THE ENTRY of what hangs in a directory can be deleted. -/
theorem Fsck.deletable (fsck : Fsck aside p up) (hung : up n = some h)
    (like : Alike parent (diskInode p h.parent)) : Deletable p parent n := by
  have here := FileTree.Dir.here (fsck.tree.parent n h hung)
  obtain ⟨map, c, lists, acc, -, counted, -⟩ := fsck.entry hung like
  have accounts := acc.accounts
  -- a name that leads to the inode is the one under which it hangs
  have name {c : Cell} (counted : (entries p parent c).Counted)
      (hno : (entries p parent c).iNo = n) :
      cells p parent c = some (h.name, n, (entries p parent c).fType) := by
    have cell :
        cells p parent c = some ((entries p parent c).name, n, (entries p parent c).fType) :=
      binding_some.mpr ⟨counted.1, rfl, hno, rfl⟩
    have hangs := (lists.proper _ _ _ counted.2).mp (acc.good.represents.sound _ _ _ cell)
    rw [hung, Option.some.injEq] at hangs
    rw [cell, hangs]
  refine ⟨?_, accounts.noTable, ?_, fun c c' counted hno counted' hno' => ?_, fun k hne => ?_⟩
  · rw [like.iNo, fsck.numbered _ here]
    exact fsck.lt here
  · rw [accounts.size]
    exact Nat.le_mul_of_pos_right _ (Finset.card_pos.mpr ⟨c, mem_live.mpr counted.1⟩)
  · exact acc.good.represents.once _ _ _ _ _ (name counted hno) (name counted' hno')
  · by_cases first : slot p parent k = sb.dataStartLba
    · -- the first block of the root, and `.` is in it
      rw [like.slot] at first hne
      have root : h.parent = 0 := by
        by_contra h0
        refine fsck.ledger.apart h.parent 0 here (.inl rfl) h0 _ ⟨hne, k, rfl⟩ ?_
        rw [first]
        exact ⟨sb.dataStart_pos.ne', 0, fsck.root⟩
      have zero : k = 0 := by
        refine (fsck.books here).inj k 0 hne (first.trans ?_)
        rw [root]
        exact fsck.root.symm
      obtain ⟨v, hdot⟩ := accounts.dot
      obtain ⟨used, hname, -⟩ := binding_some.mp hdot
      exact .inr ⟨0, zero ▸ used, zero ▸ hname⟩
    · exact .inl (blockBit_pos (acc.good.books.taken k hne) first)

/-! ## Releasing an inode -/

theorem freeBlocks_total {allBlocks : Blocks} {ks : List Nat}
    (bits : ∀ k ∈ ks, allBlocks k ≠ 0 → blockBit sb (allBlocks k) > 0) :
    ∃ p', freeBlocks p allBlocks ks = .ok p' := by
  induction ks generalizing p with
  | nil => exact ⟨p, rfl⟩
  | cons k ks ih =>
    obtain ⟨hk, hrest⟩ := List.forall_mem_cons.mp bits
    unfold freeBlocks
    split
    next hne =>
      rw [assertThat_of (hk hne), ok_bind]
      exact ih hrest
    next => exact ih hrest

/-- An inode that does not have the first block of the root can be released. -/
theorem inodeRealse_total {victim : Inode} (books : InOrder p victim) (hno : victim.iNo = n)
    (hn : n < 4096) (other : ∀ b, Holds (slot p victim) b → b ≠ sb.dataStartLba) :
    ∃ p', inodeRealse p victim n = .ok p' := by
  have bit (k : Nat) (hne : slot p victim k ≠ 0) : blockBit sb (slot p victim k) > 0 :=
    blockBit_pos (books.taken k hne) (other _ ⟨hne, k, rfl⟩)
  have collected (k : Nat) (hk : k < 140) (hne : collectBlocks p victim k ≠ 0) :
      blockBit sb (collectBlocks p victim k) > 0 := by
    rw [← slot_lt hk] at hne ⊢
    exact bit k hne
  obtain ⟨p₁, hblocks⟩ : ∃ p₁, realseBlocks p victim = .ok p₁ := by
    unfold realseBlocks
    dsimp only
    split
    next ht =>
      have table := bit 140
      rw [slot_table] at table
      rw [assertThat_of (table ht), ok_bind]
      exact freeBlocks_total fun k hk => collected k (List.mem_range.mp hk)
    next =>
      exact freeBlocks_total fun k hk =>
        collected k (Nat.lt_trans (List.mem_range.mp hk) (by decide))
  obtain ⟨p', hreplace, -⟩ :=
    inodeReplace_ok "inode_delete" (inodeBitmapSync (p₁.setInode n false) n) hn zeros zeros
  unfold inodeRealse
  rw [assertThat_of hno, ok_bind, hblocks, ok_bind]
  exact ⟨p', hreplace⟩

/-- THE INODE whose entry is deleted can be released. -/
theorem Fsck.realsable (fsck : Fsck aside p up) (hung : up n = some h)
    (bare : ∀ m g, up m = some g → g.parent ≠ n) (un : Unlisted aside p up h p₁ parent')
    {victim : Inode} (like : Alike victim (diskInode p₁ n)) :
    ∃ p', inodeRealse p₁ victim n = .ok p' := by
  have here := here_of hung
  have hn0 := fsck.tree.ne_root hung
  refine inodeRealse_total ?_ ?_ (fsck.lt here) fun b holds first => ?_
  · rw [InOrder, like.slot]
    exact un.ledger.books n here
  · rw [like.iNo, (un.others n here (Ne.symm (bare n h hung))).1]
    exact fsck.numbered n here
  · rw [like.slot] at holds
    refine un.ledger.apart n 0 here (.inl rfl) hn0 b holds ?_
    rw [first]
    exact ⟨sb.dataStart_pos.ne', 0, un.root⟩

/-! ## What a call needs -/

variable {s s' : Session sb} {S S' : Store} {path : List Byte} {names : List Name} {ret : Int}
  {record : PathSearchRecord}

/-- An inode is free. -/
def FreeInode (p : Part sb) : Prop := ∃ i < 4096, p.inodeBitmap.test i = false

/-- WHAT A CALL NEEDS to come to its end. There are an inode and blocks for what is made or grows;
the path of what is removed does not lead to the root; a descriptor is open; and no read comes near
the end of the largest file. -/
def Provided (s : Session sb) (S : Store) : SysCall → Prop
  | .open _ _ _ flags => flags ≤ 7 ∧
      (flags &&& oCreate ≠ 0 → FreeInode s.vol.part ∧ 2 ≤ freeCount s.vol.part)
  | .close fd => fd ≤ 2 ∨ S.fds fd.toNat ≠ none
  | .write heap fd _ count => fd < 0 ∨ fd = 1 ∧ count ≤ 1024 ∨
      ∃ n pos flag length, S.At fd n pos flag length ∧
      (Writing flag → heap = false ∨ 140 * sectorSize < length + count ∧ length + count < 2 ^ 32 ∨
        length + count < 140 * sectorSize ∧
        neededBlocks (s.vol.inode n) count ≤ freeCount s.vol.part)
  | .read heap fd _ count => fd = 1 ∨ fd = 2 ∨ fd < 0 ∨
      ∃ n pos flag length, S.At fd n pos flag length ∧
      (heap = false ∨ pos + count < 2 ^ 32 ∧
        (min (pos + count) length < 139 * sectorSize ∨ 0 < count ∧ pos = length))
  | .lseek fd _ whence => fd < 0 ∨ (0 < whence ∧ whence < 4) ∧ S.fds fd.toNat ≠ none
  | .mkdir heap _ _ => heap = false ∨ FreeInode s.vol.part ∧ 3 ≤ freeCount s.vol.part
  | .rmdir _ _ path => ¬ S.up.Leads 0 (components path) 0
  | .unlink _ _ path => ¬ S.up.Leads 0 (components path) 0

/-! ## Searching -/

theorem Shows.search_total (shows : Shows aside s S) (countable : s.vol.Countable)
    (given : GivenPath path) (dirE : DirEntry) : ∃ o, searchFile s.vol dirE path = .ok o := by
  by_cases other : path ∈ rootNames
  · unfold searchFile
    rw [if_pos other]
    exact ⟨_, rfl⟩
  · have tree := shows.loaded.tree shows.rootOpen fun n inode h => by
      have := (countable n inode h).2
      omega
    exact ⟨_, searchFile_eq tree given.toValidPath dirE other⟩

/-- The names that have been searched can be counted. -/
theorem SearchEnds.depth (ends : SearchEnds S.up (components path) ret record)
    (given : GivenPath path) : ∃ k, pathDepthCnt record.searchedPath = .ok k := by
  cases ends with
  | missing split => exact ⟨_, given.depth_searched split⟩
  | file split => exact ⟨_, given.depth_searched split⟩
  | dir => exact ⟨_, given.depth_joined fun _ h => h⟩

/-- Only a path that leads to the root is answered with 0. -/
theorem SearchEnds.root (ends : SearchEnds S.up names ret record) (fsck : Fsck aside p S.up)
    (h0 : ret = 0) : S.up.Leads 0 names 0 := by
  cases ends with
  | missing => cases h0
  | file _ _ hn => exact absurd (Int.ofNat_eq_zero.mp h0) (fsck.tree.ne_root hn)
  | dir split leads has =>
    rw [split]
    rw [Int.ofNat_eq_zero.mp h0] at has
    exact leads.snoc has

/-- The names of the root lead to it. -/
theorem rootNames_leads (fsck : Fsck aside p S.up) (root : path ∈ rootNames) :
    S.up.Leads 0 (components path) 0 := by
  have up : S.up.above 0 = 0 := by
    unfold FileTree.above
    rw [fsck.tree.top]
    rfl
  rcases rootNames_components root with none | dot | dotDot
  · rw [none]
    exact .here 0
  · rw [dot]
    exact .into .dot (.here 0)
  · rw [dotDot]
    have has : S.up.Has 0 dotDotName (S.up.above 0) ftDirectory := .dotDot
    rw [up] at has
    exact .into has (.here 0)

/-! ## The calls that take a path -/

/-- A directory that is held open is as long as it should be. -/
theorem Shows.held_dir (shows : Shows aside s S) {ref : DirRef} (dir : S.up.Dir ref.inodeNo) :
    InOrder s.vol.part ((s.vol.held ref).inode ref.inodeNo) ∧
    ((s.vol.held ref).inode ref.inodeNo).iNo < 4096 ∧
      ((s.vol.held ref).inode ref.inodeNo).iSize % dirEntrySize = 0 := by
  have like := shows.held_alike ref
  obtain ⟨map, acc, -⟩ := shows.loaded.fsck.dirs _ dir
  refine ⟨?_, ?_, ?_⟩
  · rw [InOrder, like.slot]
    exact shows.loaded.fsck.books dir.here
  · rw [like.iNo, shows.loaded.fsck.numbered _ dir.here]
    exact shows.loaded.fsck.lt dir.here
  · rw [like.iSize, acc.accounts.size]
    exact Nat.mul_mod_right _ _

theorem Shows.mkdir_total (shows : Shows aside s S) (countable : s.vol.Countable)
    (given : GivenPath path) (dirE : DirEntry) {heap : Bool}
    (room : heap = false ∨ FreeInode s.vol.part ∧ 3 ≤ freeCount s.vol.part) :
    ∃ o, s.vol.sysMkdir heap dirE path = .ok o := by
  unfold Volume.sysMkdir
  split
  next => exact ⟨_, rfl⟩
  next hheap =>
  obtain ⟨⟨inodeNo, w⟩, hsearch⟩ := shows.search_total countable given dirE
  obtain ⟨hvol, dir, ends⟩ := shows.searched countable given hsearch
  rw [hsearch, ok_bind]
  dsimp only at hvol dir ends ⊢
  rw [hvol]
  split
  next => exact ⟨_, rfl⟩
  next missing =>
  obtain rfl : inodeNo = -1 := by simpa using missing
  replace ends := ends.resolve_right fun root => absurd root.2.1 (by decide)
  obtain ⟨depth, hdepth⟩ := ends.depth given
  rw [pathDepthCnt_ok given.names, ok_bind, hdepth, ok_bind]
  split
  next => exact ⟨_, rfl⟩
  next whole =>
  obtain rfl := Classical.not_not.mp whole
  obtain ⟨name, -, base, mem⟩ := ends.vacant given (hdepth.trans (pathDepthCnt_ok given.names).symm)
  obtain ⟨books, number, size⟩ := shows.held_dir dir
  have fsck := shows.loaded.fsck
  obtain ⟨inode, free⟩ := room.resolve_left hheap
  obtain ⟨p', parent', new, hmake⟩ := sysMkdir_total (root_taken fsck.ledger fsck.root) inode free
    (Nat.le_succ_of_le (given.names name mem).2.1) number books size
  rw [base, show (s.vol.held w.record.parentDir).part = s.vol.part from Volume.held_part _, hmake]
  exact ⟨_, rfl⟩

/-- What is opened is released if what it is like can be. -/
theorem Volume.inodeRealse_total {v : Volume sb} (bound : ∀ inode, v.openInodes n = some inode →
      inode.iOpenCnts < 2 ^ 32 - 1) (hn : n < 4096)
    (realsable : ∀ victim, Alike victim (v.inode n) →
      ∃ p', Fs.inodeRealse v.part victim n = .ok p') : ∃ w, v.inodeRealse n = .ok w := by
  unfold Volume.inodeRealse
  rw [Volume.inodeOpen_eq bound hn, ok_bind]
  obtain ⟨p', hrealse⟩ :=
    realsable { v.inode n with iOpenCnts := ((v.openInodes n).elim 0 (·.iOpenCnts)) + 1 }
      ⟨rfl, rfl, fun _ _ => rfl⟩
  rw [hrealse]
  exact ⟨_, rfl⟩

theorem Shows.unlink_total (shows : Shows aside s S) (countable : s.vol.Countable)
    (given : GivenPath path) (dirE : DirEntry) (ioBuf : Bool)
    (other : ¬ S.up.Leads 0 (components path) 0) :
    ∃ o, Fs.sysUnlink s.openFiles ioBuf s.vol dirE path = .ok o := by
  have fsck := shows.loaded.fsck
  obtain ⟨⟨inodeNo, w⟩, hsearch⟩ := shows.search_total countable given dirE
  obtain ⟨hvol, dir, ends⟩ := shows.searched countable given hsearch
  replace ends := ends.resolve_right fun root => other (rootNames_leads fsck root.1)
  have short : path.length ≤ maxPathLen := Nat.le_of_lt given.length
  unfold Fs.sysUnlink
  rw [assertThat_of short, ok_bind, hsearch, ok_bind]
  dsimp only at hvol dir ends ⊢
  have nonzero : inodeNo ≠ 0 := fun h0 => other (ends.root fsck h0)
  rw [assertThat_of nonzero, ok_bind, hvol]
  split
  next => exact ⟨_, rfl⟩
  next going =>
  simp only [not_or] at going
  obtain ⟨hfound, hfile, hopen, -⟩ := going
  obtain ⟨n, name, rfl, meets⟩ := ends.meets hfound hfile
  have hn := meets.choose_spec.choose_spec.2.2
  have hlt := fsck.lt (here_of hn)
  rw [u32_small hlt] at hopen ⊢
  have closed := shows.unused countable hn rfl hopen
  have hne : n ≠ w.record.parentDir.inodeNo := by
    rintro rfl
    exact fsck.not_dir hn rfl dir
  have bare (m : Nat) (g : Hang Nat Name Nat) (hm : S.up m = some g) (hp : g.parent = n) : False :=
    fsck.not_dir hn rfl (hp ▸ fsck.tree.parent m g hm)
  have like := shows.held_alike w.record.parentDir
  obtain ⟨⟨done, p₁, parent'⟩, hdel⟩ := (fsck.deletable hn like).total
  have un := fsck.unlist hn like hdel
  have still :
      ((s.vol.held w.record.parentDir).put w.record.parentDir.inodeNo p₁ parent').openInodes n =
        none :=
    (Volume.put_other hne).trans ((Volume.held_other hne).trans closed)
  obtain ⟨v, hrealse⟩ :=
    Volume.inodeRealse_total (fun inode hi => absurd (still.symm.trans hi) nofun) hlt
      fun victim likev =>
    fsck.realsable hn (fun m g hm hp => bare m g hm hp) un
      (by rwa [Volume.inode_closed still] at likev)
  rw [show (s.vol.held w.record.parentDir).part = s.vol.part from Volume.held_part _, hdel, ok_bind]
  dsimp only
  rw [hrealse]
  exact ⟨_, rfl⟩

theorem Shows.dirRemove_total (shows : Shows aside s S) {ref : DirRef} {name : Name}
    (hung : S.up n = some ⟨ref.inodeNo, name, ftDirectory⟩) (closed : s.vol.openInodes n = none)
    (bare : ∀ m g, S.up m = some g → g.parent ≠ n) (ioBuf : Bool) :
    ∃ o, Volume.dirRemove ((s.vol.held ref).held (.opened n)) ioBuf ref (.opened n) = .ok o := by
  obtain ⟨hlt, hne, opened, part, like, number⟩ := shows.childOpened hung closed bare
  have fsck := shows.loaded.fsck
  have dirN : S.up.Dir n := .inr ⟨_, hung, rfl⟩
  have empty := (fsck.isEmpty_iff dirN (like n)).mpr bare
  obtain ⟨map, acc, -⟩ := fsck.dirs n dirN
  have one (k : Nat) (hk : k ∈ List.range' 1 12) :
      (((s.vol.held ref).held (.opened n)).inode n).iSectors k = 0 := by
    obtain ⟨low, high⟩ := List.mem_range'_1.mp hk
    exact ((like n).accounted acc).accounts.one_block empty low (by omega)
  unfold Volume.dirRemove
  dsimp only
  rw [show (DirRef.opened n).inodeNo = n from rfl, assertThat_of one, ok_bind, number, part]
  split
  next => exact ⟨_, rfl⟩
  next =>
  obtain ⟨⟨done, p₁, parent'⟩, hdel⟩ := (fsck.deletable hung (like ref.inodeNo)).total
  have un := fsck.unlist hung (like ref.inodeNo) hdel
  have still : (((s.vol.held ref).held (.opened n)).put ref.inodeNo p₁ parent').openInodes n = _ :=
    (Volume.put_other hne).trans opened
  have base := (Volume.held_alike ref n).trans (shows.loaded.alike n)
  obtain ⟨v, hrealse⟩ := Volume.inodeRealse_total (fun inode hi => by
      cases still.symm.trans hi
      exact show 1 < 2 ^ 32 - 1 by decide) hlt fun victim likev => by
    rw [Volume.inode_open still] at likev
    refine fsck.realsable hung bare un ?_
    rw [(un.others n (here_of hung) hne).1]
    exact likev.trans ⟨base.iNo, base.iSize, base.iSectors⟩
  rw [hdel, ok_bind]
  dsimp only
  rw [hrealse]
  exact ⟨_, rfl⟩

theorem Shows.rmdir_total (shows : Shows aside s S) (countable : s.vol.Countable)
    (given : GivenPath path) (removable : Removable s.vol path) (dirE : DirEntry) (ioBuf : Bool)
    (other : ¬ S.up.Leads 0 (components path) 0) : ∃ o, s.vol.sysRmdir ioBuf dirE path = .ok o := by
  have fsck := shows.loaded.fsck
  obtain ⟨⟨inodeNo, w⟩, hsearch⟩ := shows.search_total countable given dirE
  obtain ⟨hvol, dir, ends⟩ := shows.searched countable given hsearch
  replace ends := ends.resolve_right fun root => other (rootNames_leads fsck root.1)
  unfold Volume.sysRmdir
  rw [hsearch, ok_bind]
  dsimp only at hvol dir ends ⊢
  have nonzero : inodeNo ≠ 0 := fun h0 => other (ends.root fsck h0)
  rw [assertThat_of nonzero, ok_bind, hvol]
  split
  next => exact ⟨_, rfl⟩
  next going =>
  obtain ⟨found, isDir⟩ := not_or.mp going
  obtain ⟨n, before, name, rfl, split, leads, has⟩ := ends.reaches found isDir
  have hlt := (has.typed fsck dir).1
  have like :
      Alike (((s.vol.held w.record.parentDir).held (.opened n)).inode n) (diskInode s.vol.part n) :=
    ((Volume.held_alike _ n).trans (Volume.held_alike _ n)).trans (shows.loaded.alike n)
  rw [u32_small hlt, Volume.dirOpen_eq (fun inode hi => (countable.held _ n inode hi).2) hlt,
    ok_bind]
  dsimp only
  by_cases full :
    dirIsEmpty (((s.vol.held w.record.parentDir).held (.opened n)).inode
      (DirRef.opened n).inodeNo) = false
  · rw [if_pos full]
    exact ⟨_, rfl⟩
  have bare :=
    (fsck.isEmpty_iff (has.dir fsck.tree dir) like).mp (Bool.eq_true_of_not_eq_false full)
  obtain ⟨hung, closed⟩ :=
    shows.removes given removable split leads has (fun h0 => nonzero (by rw [h0]; rfl)) bare
  obtain ⟨o, hremove⟩ := shows.dirRemove_total hung closed bare ioBuf
  rw [if_neg full, hremove]
  exact ⟨_, rfl⟩

/-! ## The calls that take a descriptor -/

/-- A descriptor that is open leads to a slot. -/
theorem Shows.slot (shows : Shows aside s S) {fd pos flag : Nat}
    (hopen : S.fds fd = some ⟨n, pos, flag⟩) :
    ∃ g < 32, s.fdLocal2global fd = .ok g ∧ s.file g = ⟨pos, flag, some n⟩ := by
  obtain ⟨g, hg, hfd, slot⟩ := shows.descriptors.opened fd _ hopen
  have range : s.fdTable fd ≥ 0 ∧ s.fdTable fd ≤ maxFilesOpen := by
    unfold maxFilesOpen
    omega
  refine ⟨g, hg, ?_, slot⟩
  unfold Session.fdLocal2global
  dsimp only
  rw [assertThat_of range, ok_bind, hfd]
  rfl

/-- What a slot leads to is a file. -/
theorem Shows.slot_file (shows : Shows aside s S) {g pos flag : Nat} (hg : g < 32)
    (slot : s.file g = ⟨pos, flag, some n⟩) :
    IsFile s.vol.part (s.vol.inode n) ∧ (S.data n).length = (s.vol.inode n).iSize ∧
    pos ≤ (S.data n).length := by
  obtain ⟨hang, hn, kind⟩ := shows.files n (mem_openFiles.mpr ⟨g, hg, by rw [slot]⟩)
  obtain ⟨isFile, length, -⟩ := shows.sized hn kind
  have within := shows.offsets g hg n (by rw [slot])
  rw [slot] at within
  exact ⟨isFile, length, within⟩

theorem Shows.close_total (shows : Shows aside s S) {fd : Int}
    (known : fd ≤ 2 ∨ S.fds fd.toNat ≠ none) : ∃ o, s.sysClose fd = .ok o := by
  unfold Session.sysClose
  split
  next big =>
    obtain ⟨⟨n, pos, flag⟩, hopen⟩ := Option.ne_none_iff_exists'.mp (known.resolve_left (by omega))
    obtain ⟨g, -, hglobal, slot⟩ := shows.slot hopen
    rw [hglobal, ok_bind]
    unfold Session.fileClose
    rw [slot]
    exact ⟨_, rfl⟩
  next => exact ⟨_, rfl⟩

/-- A write that is refused comes to its end. -/
theorem fileWrite_refused {heap : Bool} {inode : Inode} {pos count : Nat} {src : Buf}
    (h : heap = false ∨ u32 (inode.iSize + count) > 140 * sectorSize) :
    ∃ r, fileWrite heap p inode pos src count = .ok r := by
  unfold fileWrite
  split
  next => exact ⟨_, rfl⟩
  next small =>
  rw [if_pos (h.resolve_right small)]
  exact ⟨_, rfl⟩

theorem Shows.write_total (shows : Shows aside s S) {heap : Bool} {fd : Int} (buf : Buf)
    {count : Nat} (known : fd < 0 ∨ fd = 1 ∧ count ≤ 1024 ∨
      ∃ n pos flag length, S.At fd n pos flag length ∧
      (Writing flag → heap = false ∨ 140 * sectorSize < length + count ∧ length + count < 2 ^ 32 ∨
      length + count < 140 * sectorSize ∧
      neededBlocks (s.vol.inode n) count ≤ freeCount s.vol.part)) :
    ∃ o, s.sysWrite heap fd buf count = .ok o := by
  unfold Session.sysWrite
  split
  next => exact ⟨_, rfl⟩
  next nonneg =>
  split
  next std =>
    have small : count ≤ 1024 := by
      rcases known with neg | ⟨-, small⟩ | ⟨n, pos, flag, length, ⟨hopen, -⟩, -⟩
      · exact absurd neg nonneg
      · exact small
      · have := (shows.descriptors.range fd.toNat (by rw [hopen]; exact Option.some_ne_none _)).1
        omega
    rw [if_pos small]
    exact ⟨_, rfl⟩
  next file =>
  obtain ⟨n, pos, flag, length, ⟨hopen, hlength⟩, fits⟩ :=
    (known.resolve_left nonneg).resolve_left fun std => file std.1
  obtain ⟨g, hg, hglobal, slot⟩ := shows.slot hopen
  obtain ⟨isFile, size, -⟩ := shows.slot_file hg slot
  rw [hlength] at size
  rw [hglobal, ok_bind]
  dsimp only
  rw [slot]
  dsimp only
  split
  next writes =>
    obtain ⟨r, hwrite⟩ :
      ∃ r, Fs.fileWrite heap s.vol.part (s.vol.inode n) pos buf count = .ok r := by
      rcases fits writes with none | ⟨big, nowrap⟩ | ⟨small, blocks⟩
      · exact fileWrite_refused (.inl none)
      · refine fileWrite_refused (.inr ?_)
        rw [← size]
        unfold u32
        omega
      · cases heap with
        | false => exact fileWrite_refused (.inl rfl)
        | true =>
          obtain ⟨r, hwrite, -⟩ := isFile.write_total pos buf (size ▸ small) blocks
          exact ⟨r, hwrite⟩
    rw [hwrite]
    exact ⟨_, rfl⟩
  next => exact ⟨_, rfl⟩

/-- For want of memory a read comes to its end. -/
theorem fileRead_noHeap {inode : Inode} {pos count : Nat} {buf : Buf} :
    ∃ r, fileRead false p inode pos buf count = .ok r := by
  unfold fileRead readSized
  dsimp only
  split
  · split
    · exact ⟨_, rfl⟩
    · exact ⟨_, rfl⟩
  · exact ⟨_, rfl⟩

theorem Shows.read_total (shows : Shows aside s S) {heap : Bool} {fd : Int} (buf : Buf)
    {count : Nat} (known : fd = 1 ∨ fd = 2 ∨ fd < 0 ∨
      ∃ n pos flag length, S.At fd n pos flag length ∧
      (heap = false ∨ pos + count < 2 ^ 32 ∧
      (min (pos + count) length < 139 * sectorSize ∨ 0 < count ∧ pos = length))) :
    ∃ o, s.sysRead heap fd buf count = .ok o := by
  unfold Session.sysRead
  split
  next => exact ⟨_, rfl⟩
  next file =>
  obtain ⟨n, pos, flag, length, ⟨hopen, hlength⟩, fits⟩ :=
    ((known.resolve_left (by omega)).resolve_left (by omega)).resolve_left (by omega)
  obtain ⟨g, hg, hglobal, slot⟩ := shows.slot hopen
  obtain ⟨isFile, size, within⟩ := shows.slot_file hg slot
  rw [hlength] at size within
  have small := isFile.small
  unfold sectorSize at small
  obtain ⟨r, hread⟩ : ∃ r, fileRead heap s.vol.part (s.vol.inode n) pos buf count = .ok r := by
    cases heap with
    | false => exact fileRead_noHeap
    | true =>
      obtain ⟨nowrap, fits⟩ := fits.resolve_left nofun
      have well : ReadsWell true (s.vol.inode n) pos count := by
        rcases fits with fits | atEnd
        · exact .inr ⟨rfl, nowrap, by rw [← size]; exact fits⟩
        · exact .inl ⟨⟨atEnd.1, atEnd.2.trans size⟩, .inr nowrap⟩
      obtain ⟨r, hread, -⟩ := fileRead_total isFile.table (size ▸ within) (by omega) well
      exact ⟨r, hread⟩
  rw [hglobal, ok_bind]
  dsimp only
  rw [slot]
  dsimp only
  rw [hread]
  exact ⟨_, rfl⟩

theorem Shows.lseek_total (shows : Shows aside s S) {fd : Int} (offset : Int) {whence : Nat}
    (known : fd < 0 ∨ (0 < whence ∧ whence < 4) ∧ S.fds fd.toNat ≠ none) :
    ∃ o, s.sysLseek fd offset whence = .ok o := by
  unfold Session.sysLseek
  split
  next => exact ⟨_, rfl⟩
  next nonneg =>
  obtain ⟨range, hfd⟩ := known.resolve_left nonneg
  obtain ⟨⟨n, pos, flag⟩, hopen⟩ := Option.ne_none_iff_exists'.mp hfd
  obtain ⟨g, -, hglobal, slot⟩ := shows.slot hopen
  have valid : whence > 0 ∧ whence < 4 := range
  obtain ⟨⟨pos', ret⟩, hseek⟩ : ∃ r, Fs.sysLseek (s.vol.inode n) pos offset whence = .ok r := by
    unfold Fs.sysLseek
    rw [assertThat_of valid, ok_bind]
    dsimp only
    generalize (if whence = seekSet then offset
      else if whence = seekCur then toSigned 32 (toSigned 32 pos + offset)
      else toSigned 32 (toSigned 32 (s.vol.inode n).iSize + offset)) = newPos
    split
    · exact ⟨_, rfl⟩
    · exact ⟨_, rfl⟩
  rw [assertThat_of valid, ok_bind, hglobal, ok_bind]
  dsimp only
  rw [slot]
  dsimp only
  rw [hseek]
  exact ⟨_, rfl⟩

/-! ## `sys_open` -/

/-- A NEW FILE can be made. -/
theorem Shows.create_total (shows : Shows aside s S) {ref : DirRef} (dir : S.up.Dir ref.inodeNo)
    {name : Name} (valid : ValidName name) (inode : FreeInode s.vol.part)
    (blocks : 2 ≤ freeCount s.vol.part) (heap : CreateHeap) (flag : Nat) :
    ∃ o, Session.fileCreate { s with vol := s.vol.held ref } heap ref name flag = .ok o := by
  obtain ⟨books, number, size⟩ := shows.held_dir dir
  unfold Session.fileCreate
  split
  next => exact ⟨_, rfl⟩
  next =>
  obtain ⟨n, hn, halloc⟩ := inodeBitmapAlloc_total inode
  dsimp only
  rw [show (s.vol.held ref).part = s.vol.part from Volume.held_part _, halloc, ok_bind]
  dsimp only
  split
  next => exact ⟨_, rfl⟩
  next =>
  split
  next => exact ⟨_, rfl⟩
  next g slot =>
  have books' : InOrder (s.vol.part.setInode n true) ((s.vol.held ref).inode ref.inodeNo) := books
  obtain ⟨p₁, parent', hsync⟩ :=
    syncDirEntry_total (p := s.vol.part.setInode n true) size blocks
      (entryBuf name n ftRegular) zeros
  have hno := (syncDirEntry_effect books' hsync).iNo
  obtain ⟨p₂, hsync₂, -⟩ :=
    inodeReplace_ok "inode_sync" p₁ (n := parent'.iNo) (by rwa [hno]) (inodeBytes parent') zeros
  obtain ⟨p₃, hsync₃, -⟩ :=
    inodeReplace_ok "inode_sync" p₂ (n := (inodeInit n).iNo) hn (inodeBytes (inodeInit n)) zeros
  rw [createDirEntry_eq _ _ (Nat.le_succ_of_le valid.2.1), ok_bind, hsync, ok_bind]
  dsimp only
  unfold inodeSync
  rw [hsync₂, ok_bind, hsync₃]
  exact ⟨_, rfl⟩

theorem Session.fileOpen_total (hn : n < 4096) (bound : ∀ inode, s.vol.openInodes n = some inode →
      inode.iOpenCnts < 2 ^ 32 - 1) {flag : Nat} : ∃ o, s.fileOpen n flag = .ok o := by
  unfold Session.fileOpen
  split
  next => exact ⟨_, rfl⟩
  next =>
  rw [Volume.inodeOpen_eq bound hn, ok_bind]
  dsimp only
  split_ifs <;> exact ⟨_, rfl⟩

theorem Shows.open_total (shows : Shows aside s S) (countable : s.vol.Countable)
    (given : GivenPath path) (heap : CreateHeap) (dirE : DirEntry) {flags : Nat} (small : flags ≤ 7)
    (room : flags &&& oCreate ≠ 0 → FreeInode s.vol.part ∧ 2 ≤ freeCount s.vol.part) :
    ∃ o, s.sysOpen heap dirE path flags = .ok o := by
  obtain ⟨⟨inodeNo, w⟩, hsearch⟩ := shows.search_total countable given dirE
  obtain ⟨hvol, dir, ends⟩ := shows.searched countable given hsearch
  dsimp only at hvol dir ends
  unfold Session.sysOpen
  split
  next none =>
    obtain ⟨tail, hpath⟩ := given.absolute
    rw [hpath, List.getLast?_cons] at none
    cases none
  next =>
  split
  next => exact ⟨_, rfl⟩
  next =>
  rw [assertThat_of small, ok_bind, pathDepthCnt_ok given.names, ok_bind, hsearch, ok_bind]
  dsimp only
  rw [hvol]
  split
  next => exact ⟨_, rfl⟩
  next hfile =>
  replace ends := ends.resolve_right fun root => hfile root.2.2
  obtain ⟨depth, hdepth⟩ := ends.depth given
  rw [hdepth, ok_bind]
  split
  next => exact ⟨_, rfl⟩
  next whole =>
  obtain rfl := Classical.not_not.mp whole
  have same := hdepth.trans (pathDepthCnt_ok given.names).symm
  split
  next => exact ⟨_, rfl⟩
  next wanted =>
  split
  next => exact ⟨_, rfl⟩
  next unwanted =>
  split
  next create =>
    have missing : inodeNo = -1 := Classical.not_not.mp fun found => unwanted ⟨found, create⟩
    rw [missing] at ends
    obtain ⟨name, -, base, mem⟩ := ends.vacant given same
    obtain ⟨inode, blocks⟩ := room create
    obtain ⟨o, hcreate⟩ := shows.create_total dir (given.names name mem) inode blocks heap flags
    rw [base, hcreate]
    exact ⟨_, rfl⟩
  next create =>
    have found : inodeNo ≠ -1 := fun missing => wanted ⟨missing, Classical.not_not.mp create⟩
    obtain ⟨n, name, rfl, named⟩ := ends.namedFile given found hfile same
    have hlt := shows.loaded.fsck.lt (here_of named.choose_spec.2.2)
    rw [u32_small hlt]
    exact Session.fileOpen_total hlt fun inode hi => (countable.held _ n inode hi).2

/-! ## The system -/

/-- EVERY CALL that has what it needs comes to its end. -/
theorem Shows.total (shows : Shows aside s S) {call : SysCall} (promised : Promised s call)
    (provided : Provided s S call) : ∃ s' reply, s.call call = .ok (s', reply) := by
  unfold Session.call
  cases call with
  | «open» heap dirE path flags =>
    obtain ⟨o, ho⟩ := shows.open_total promised.1 promised.2.1 heap dirE provided.1 provided.2
    exact ⟨_, _, map_eq_ok.mpr ⟨o, ho, rfl⟩⟩
  | close fd =>
    obtain ⟨o, ho⟩ := shows.close_total provided
    exact ⟨_, _, map_eq_ok.mpr ⟨o, ho, rfl⟩⟩
  | write heap fd buf count =>
    obtain ⟨o, ho⟩ := shows.write_total buf provided
    exact ⟨_, _, map_eq_ok.mpr ⟨o, ho, rfl⟩⟩
  | read heap fd buf count =>
    obtain ⟨o, ho⟩ := shows.read_total buf provided
    exact ⟨_, _, map_eq_ok.mpr ⟨o, ho, rfl⟩⟩
  | lseek fd offset whence =>
    obtain ⟨o, ho⟩ := shows.lseek_total offset provided
    exact ⟨_, _, map_eq_ok.mpr ⟨o, ho, rfl⟩⟩
  | mkdir heap dirE path =>
    obtain ⟨o, ho⟩ := shows.mkdir_total promised.1 promised.2.1 dirE provided
    exact ⟨_, _, map_eq_ok.mpr ⟨o, ho, rfl⟩⟩
  | rmdir ioBuf dirE path =>
    obtain ⟨o, ho⟩ := shows.rmdir_total promised.1 promised.2.1 promised.2.2 dirE ioBuf provided
    exact ⟨_, _, map_eq_ok.mpr ⟨o, ho, rfl⟩⟩
  | unlink ioBuf dirE path =>
    obtain ⟨o, ho⟩ := shows.unlink_total promised.1 promised.2 dirE ioBuf provided
    refine ⟨_, _, map_eq_ok.mpr ⟨(o.1, { s with vol := o.2 }), ?_, rfl⟩⟩
    unfold Session.sysUnlink
    rw [ho]
    rfl

end SeekingOs.Fs
