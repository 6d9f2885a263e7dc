import SeekingOs.Fs.Fsck

/-!
# Removing keeps a file system in order

The entry of a file, or of a directory that nothing hangs below, is deleted; then its inode is
released.
-/

namespace SeekingOs.Fs

open Lib

variable {sb : SuperBlock} {aside : Nat → Prop} {p p' p₁ : Part sb} {up : FileTree} {n : Nat}
  {h : Hang Nat Name Nat} {parent parent' : Inode}

/-! ## The entry -/

/-- The scan of a sector does not miss an entry. -/
theorem scanEntries_finds {b i : Nat} (buf : Buf) {s s' : EntryScan} {ks : List Nat}
    (hks : ∀ j ∈ ks, j < dirEntrysPerSec) (h : scanEntries (ideRead p b buf 1) n s ks = .ok s')
    (hi : i ∈ ks) (counted : (entryOf p b i).Counted) (hno : (entryOf p b i).iNo = n) :
    s'.dirEntryFound ≠ none := by
  induction ks generalizing s with
  | nil => exact absurd hi List.not_mem_nil
  | cons j ks ih =>
    obtain ⟨hj, hrest⟩ := List.forall_mem_cons.mp hks
    unfold scanEntries at h
    rw [ideRead_entry buf hj] at h
    by_cases hij : i = j
    · subst hij
      have dot : ¬ strSame (ideRead p b buf 1) (dirEntrySize * i) dotName = true := by
        rw [strSame_iff (n := 16) (by decide) (by decide), ideRead_cStr buf hj]
        exact counted.2.1
      have dotDot : ¬ strSame (ideRead p b buf 1) (dirEntrySize * i) dotDotName = true := by
        rw [strSame_iff (n := 16) (by decide) (by decide), ideRead_cStr buf hj]
        exact counted.2.2
      have used : (entryOf p b i).fType ≠ ftUnkown := counted.1
      rw [if_neg used, if_neg dot, if_neg dotDot] at h
      dsimp only at h
      rw [if_pos hno] at h
      obtain ⟨_, _, h⟩ := bind_eq_ok.mp h
      -- what has been found is not lost
      rcases (scanEntries_ok buf hrest h).found with hf | ⟨k, -, hf, -⟩
      · rw [hf]
        exact Option.some_ne_none i
      · rw [hf]
        exact Option.some_ne_none k
    · have hi := (List.mem_cons.mp hi).resolve_left hij
      dsimp only at h
      split at h
      · exact ih hrest h hi
      split at h
      · exact ih hrest h hi
      split at h
      · exact ih hrest h hi
      split at h
      · obtain ⟨_, _, h⟩ := bind_eq_ok.mp h
        exact ih hrest h hi
      · exact ih hrest h hi

/-- A directory that lists the inode deletes its entry. -/
theorem deleteDirEntry_finds {inode inode' : Inode} {c : Cell}
    (counted : (entries p inode c).Counted) (hno : (entries p inode c).iNo = n) {done : Bool}
    (h : deleteDirEntry p inode n = .ok (done, p', inode')) : done = true := by
  obtain ⟨hk, hi, hne⟩ := entries_place counted.1
  rw [entries_used hk hi hne] at counted hno
  rw [slot_lt hk] at hne counted hno
  unfold deleteDirEntry at h
  have go {ks : List Nat} (hmem : c.1 ∈ ks) (h : deleteBlocks p inode (collectBlocks p inode) n ks =
      .ok (done, p', inode')) :
      done = true := by
    induction ks with
    | nil => exact absurd hmem List.not_mem_nil
    | cons k ks ih =>
      unfold deleteBlocks at h
      have rest (hne' : c.1 ≠ k) := ih ((List.mem_cons.mp hmem).resolve_left hne')
      split at h
      next h0 => exact rest (fun e => hne (e ▸ h0)) h
      obtain ⟨s, hscan, h⟩ := bind_eq_ok.mp h
      split at h
      next hnone =>
        refine rest (fun e => ?_) h
        subst e
        exact scanEntries_finds zeros (fun _ => List.mem_range.mp) hscan (List.mem_range.mpr hi)
          counted hno hnone
      next =>
        unfold deleteFound at h
        obtain ⟨_, _, h⟩ := bind_eq_ok.mp h
        obtain ⟨_, _, h⟩ := bind_eq_ok.mp h
        obtain ⟨_, _, h⟩ := bind_eq_ok.mp h
        obtain ⟨_, _, h⟩ := bind_eq_ok.mp h
        cases h
        rfl
  exact go (List.mem_range.mpr hk) h

/-- A deletion leaves the first block where it is: `.` is in it. -/
theorem Accounts.first_stays {inode inode' : Inode} (acc : Accounts p inode)
    (deleted : Deleted p inode n p' inode') : slot p' inode' 0 = slot p inode 0 := by
  cases deleted with
  | cleared k i j _ _ _ _ _ slots => rw [slots]
  | dropped k i hk counted hno alone drop =>
    rw [drop.slots 0 (by decide), if_neg]
    rintro rfl
    obtain ⟨v, hdot⟩ := acc.dot
    obtain ⟨hused, hname, -⟩ := binding_some.mp hdot
    rcases alone 0 hused with rfl | hdd
    · exact counted.2.1 hname
    · rw [hname] at hdd
      exact absurd hdd (by decide)

/-- WHAT IS LEFT when an entry is deleted and its inode is not yet released. -/
structure Unlisted (aside : Nat → Prop) (p : Part sb) (up : FileTree) (h : Hang Nat Name Nat)
    (p₁ : Part sb) (parent' : Inode) : Prop where
  listed : ∃ map, up.Lists h.parent map ∧ Accounted ⟨p₁, parent', Function.update map h.name none⟩
  like : Alike parent' (diskInode p₁ h.parent)
  inodeBitmap : p₁.inodeBitmap = p.inodeBitmap
  others : ∀ m, up.Here m → m ≠ h.parent → diskInode p₁ m = diskInode p m ∧
    Kept p (diskInode p m) p₁
  ledger : Ledger up.Here (Taken p₁) aside fun m => slot p₁ (diskInode p₁ m)
  root : slot p₁ (diskInode p₁ 0) 0 = sb.dataStartLba
  onDisk : OnDisk p₁ p.inodeBitmap
  iNo : parent'.iNo = h.parent

/-- The entry of what hangs in a directory. -/
theorem Fsck.entry (fsck : Fsck aside p up) (hung : up n = some h)
    (like : Alike parent (diskInode p h.parent)) :
    ∃ map c, up.Lists h.parent map ∧ Accounted ⟨p, parent, map⟩ ∧ map h.name = some (n, h.kind) ∧
      (entries p parent c).Counted ∧
      (entries p parent c).iNo = n := by
  have proper := (fsck.hung n h hung).2.2.1
  obtain ⟨map, acc, lists⟩ := fsck.dirs _ (fsck.tree.parent n h hung)
  replace acc := like.accounted acc
  have hmap : map h.name = some (n, h.kind) := (lists.proper _ _ _ proper).mpr hung
  obtain ⟨c, hc⟩ := acc.good.represents.complete _ _ hmap
  obtain ⟨used, hname, hno, -⟩ := binding_some.mp hc
  exact ⟨map, c, lists, acc, hmap,
    ⟨used, by rw [hname]; exact proper.1, by rw [hname]; exact proper.2⟩, hno⟩

/-- THE DELETION of the entry. -/
theorem Fsck.unlist (fsck : Fsck aside p up) (hung : up n = some h)
    (like : Alike parent (diskInode p h.parent)) {done : Bool}
    (hdel : deleteDirEntry p parent n = .ok (done, p₁, parent')) :
    Unlisted aside p up h p₁ parent' := by
  have dir := fsck.tree.parent n h hung
  have here := FileTree.Dir.here dir
  have hparentNo : parent.iNo = h.parent := like.iNo.trans (fsck.numbered _ here)
  obtain ⟨map, c, lists, acc, hmap, counted, hno⟩ := fsck.entry hung like
  have books : InOrder p parent := acc.good.books
  obtain rfl := deleteDirEntry_finds counted hno hdel
  have call : (⟨p, parent, map⟩ : Directory sb).call (.deleteDirEntry n) =
      .ok (⟨p₁, parent', Function.update map h.name none⟩, true) := by
    rw [← acc.good.without_eq (fsck.hung n h hung).2.2.1 hmap]
    unfold Directory.call
    dsimp only
    rw [hdel]
    rfl
  have acc₁ := acc.step (e := .deleteDirEntry n) trivial call trivial
  have effect := deleteDirEntry_effect books hdel
  have orderly := deleteDirEntry_orderly books acc.accounts.noTable hdel
  have hparentNo' : parent'.iNo = h.parent := effect.iNo.trans hparentNo
  have like₁ : Alike parent' (diskInode p₁ h.parent) := by
    have hsize : parent.iSize < 2 ^ 32 :=
      Nat.lt_of_le_of_lt (Nat.le_add_right _ _) acc.accounts.small
    have synced := deleteDirEntry_synced books (hparentNo ▸ fsck.lt here) hsize hdel
    rw [← hparentNo', synced]
    exact (Inode.alike_pure _).symm
  have moves₁ : Moves (Spare p up h.parent) (· = h.parent) p p₁ := by
    refine effect.moves hparentNo fun b hb => ?_
    rw [like.slot] at hb
    exact fsck.spare here hb
  have others₁ (m : Nat) (hm : up.Here m) (hmd : m ≠ h.parent) : diskInode p₁ m = diskInode p m ∧
      Kept p (diskInode p m) p₁ :=
    fsck.others moves₁ hm hmd hmd
  refine ⟨⟨map, lists, acc₁⟩, like₁, effect.inodeBitmap, others₁, ?_, ?_,
    orderly.onDisk fsck.onDisk, hparentNo'⟩
  · refine fsck.ledger.regrant here ?_ ?_ fun m hm hmd => ?_
    · rw [← like.slot, ← like₁.slot]
      exact effect.regrants
    · rw [← like.slot, ← like₁.slot]
      exact orderly.settles
    · rw [(others₁ m hm hmd).1, (others₁ m hm hmd).2.slot]
  · by_cases h0 : h.parent = 0
    · have stays := acc.accounts.first_stays (deleteDirEntry_deleted books hdel)
      rw [h0] at like₁ like
      rw [← like₁.slot, stays, like.slot]
      exact fsck.root
    · obtain ⟨e, kept⟩ := others₁ 0 (.inl rfl) (Ne.symm h0)
      rw [e, kept.slot]
      exact fsck.root

/-! ## The inode -/

/-- THE REMOVAL. The entry of a file, or of a directory that nothing hangs below, is deleted and the
inode released. -/
theorem Fsck.remove (fsck : Fsck aside p up) (hung : up n = some h)
    (like : Alike parent (diskInode p h.parent)) (bare : ∀ m g, up m = some g → g.parent ≠ n)
    {done : Bool} (hdel : deleteDirEntry p parent n = .ok (done, p₁, parent')) {victim : Inode}
    (likev : Alike victim (diskInode p₁ n)) (hrealse : inodeRealse p₁ victim n = .ok p') :
    Fsck aside p' (cut up n) ∧ Alike parent' (diskInode p' h.parent) ∧
    Others (cut up n) h.parent p p' := by
  have dir := fsck.tree.parent n h hung
  have here := FileTree.Dir.here dir
  have hereN := here_of hung
  have hn0 := fsck.tree.ne_root hung
  have hne : h.parent ≠ n := bare n h hung
  have un := fsck.unlist hung like hdel
  obtain ⟨map, lists, acc₁⟩ := un.listed
  have booksv : InOrder p₁ victim := by
    rw [InOrder, likev.slot]
    exact un.ledger.books n hereN
  obtain ⟨hvno, hn, realsed⟩ := inodeRealse_ok booksv hrealse
  have others₂ {m : Nat} (hm : up.Here m) (hmn : m ≠ n) : diskInode p' m = diskInode p₁ m ∧
      Kept p₁ (diskInode p₁ m) p' := by
    have moves₂ : Moves (fun b => Holds (slot p₁ victim) b ∨ ¬ Taken p₁ b) (· = n) p₁ p' :=
      realsed.moves hvno fun _ => id
    refine ⟨moves₂.inodes m (fsck.lt hm) hmn, moves₂.kept (un.ledger.books m hm) fun b hb own => ?_⟩
    rw [likev.slot] at own
    rcases own with own | free
    · exact un.ledger.apart m n hm hereN hmn b hb own
    · obtain ⟨hb0, k, rfl⟩ := hb
      exact free ((un.ledger.books m hm).taken k hb0)
  obtain ⟨edisk, kept₂⟩ := others₂ here hne
  have like' : Alike parent' (diskInode p' h.parent) := by
    rw [edisk]
    exact un.like
  have ledger : Ledger (FileTree.Here (cut up n)) (Taken p') aside fun m =>
      slot p' (diskInode p' m) := by
    refine un.ledger.retire hereN (fun m => here_cut hn0) (fun b => ?_) fun m hm => ?_
    · rw [← likev.slot]
      exact realsed.taken b
    · obtain ⟨hm, hmn⟩ := (here_cut hn0).mp hm
      rw [(others₂ hm hmn).1, (others₂ hm hmn).2.slot]
  have others {m : Nat} (hm : up.Here m) (hmd : m ≠ h.parent) (hmn : m ≠ n) :
      diskInode p' m = diskInode p m ∧ Kept p (diskInode p m) p' := by
    obtain ⟨e₁, k₁⟩ := un.others m hm hmd
    obtain ⟨e₂, k₂⟩ := others₂ hm hmn
    rw [e₁] at e₂ k₂
    exact ⟨e₂, k₁.trans k₂⟩
  have files {m : Nat} {g : Hang Nat Name Nat} (hm : cut up n m = some g)
      (hg : g.kind = ftRegular) :
      up m = some g ∧ diskInode p' m = diskInode p m ∧ Kept p (diskInode p m) p' := by
    obtain ⟨hmn, hm⟩ := cut_eq_some.mp hm
    exact ⟨hm, others (here_of hm) (fun e => fsck.not_dir hm hg (e ▸ dir)) hmn⟩
  have hroot : slot p' (diskInode p' 0) 0 = sb.dataStartLba := by
    obtain ⟨e, kept⟩ := others₂ (.inl rfl) hn0.symm
    rw [e, kept.slot]
    exact un.root
  have rootTaken := root_taken ledger hroot
  refine ⟨⟨fsck.tree.cut hn0 bare, fun m g hm => fsck.hung m g (cut_eq_some.mp hm).2, fun m => ?_,
    fun m hm => ?_, ledger, fun m hm => ?_,
    fun m g hm hg => ?_, hroot, un.onDisk.realse booksv hrealse⟩, like',
    fun m hm hmd => (others ((here_cut hn0).mp hm).1 hmd ((here_cut hn0).mp hm).2).1,
    fun m g hm hg _ => ?_⟩
  · rw [realsed.inodeBitmap, un.inodeBitmap, hvno, test_bitmapSet (by rw [p.inodeSize]; exact hn),
      here_cut hn0, ← fsck.allocated]
    by_cases hmn : m = n
    · rw [if_pos hmn]
      exact ⟨fun e => absurd e (by decide), fun h => absurd hmn h.2⟩
    · rw [if_neg hmn]
      exact ⟨fun h => ⟨h, hmn⟩, And.left⟩
  · obtain ⟨hm, hmn⟩ := (here_cut hn0).mp hm
    by_cases hmd : m = h.parent
    · rw [hmd, ← like'.iNo]
      exact un.iNo
    · rw [(others hm hmd hmn).1]
      exact fsck.numbered m hm
  · have hcut : up.Dir m ∧ m ≠ n := by
      rcases hm with rfl | ⟨g, hg, hkind⟩
      · exact ⟨.inl rfl, hn0.symm⟩
      · obtain ⟨hmn, hg⟩ := cut_eq_some.mp hg
        exact ⟨.inr ⟨g, hg, hkind⟩, hmn⟩
    by_cases hmd : m = h.parent
    · subst hmd
      rw [edisk]
      exact ⟨_, kept₂.accounted (un.like.symm.accounted acc₁),
        lists.cut_parent fsck.tree hne hung (fsck.hung n h hung).2.2.1⟩
    · obtain ⟨map', acc', lists'⟩ := fsck.dirs m hcut.1
      obtain ⟨e, kept⟩ := others hcut.1.here hmd hcut.2
      rw [e]
      exact ⟨map', kept.accounted acc', lists'.cut_other hcut.2 hung (Ne.symm hmd)⟩
  · obtain ⟨hm, e, kept⟩ := files hm hg
    obtain ⟨file, snug⟩ := fsck.files m g hm hg
    rw [e]
    exact ⟨kept.isFile file rootTaken, snug.congr kept.slot rfl⟩
  · obtain ⟨hm, e, kept⟩ := files hm hg
    rw [e]
    exact kept.contents (fsck.files m g hm hg).1

end SeekingOs.Fs
