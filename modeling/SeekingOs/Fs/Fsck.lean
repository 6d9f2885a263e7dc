import SeekingOs.Fs.DirRuns
import SeekingOs.Fs.Kept
import SeekingOs.Fs.Unlink
import SeekingOs.Lib.Rooted

/-!
# A file system in order

What a check of the whole partition would look for. The directories make a tree below the root, with
`.` and `..` where they lead; the inodes that are allocated are those of the tree; each has the
shape of what it is; and a block is taken exactly if it is in one slot of one of them, or was set
aside by formatting. All of it is said of the disk: a partition in order is in order when it is
mounted again.

Making a file or a directory and writing to a file keep a partition in order.
-/

namespace SeekingOs.Fs

open Lib

/-! ## The tree -/

/-- Where each file and directory hangs, by inode number; the root is 0. -/
abbrev FileTree := Nat → Option (Hang Nat Name Nat)

namespace FileTree

variable (up : FileTree)

/-- The file or directory is there. -/
def Here (n : Nat) : Prop := n = 0 ∨ up n ≠ none

/-- The directory is there. -/
abbrev Dir (d : Nat) : Prop := Inner 0 (· = ftDirectory) up d

/-- `..` -/
def above (d : Nat) : Nat := (up d).elim 0 (·.parent)

/-- What directory `d` should list. -/
structure Lists (d : Nat) (map : Name → Option (Nat × Nat)) : Prop where
  dot : map dotName = some (d, ftDirectory)
  dotDot : map dotDotName = some (up.above d, ftDirectory)
  proper : ∀ name n t, Proper name → (map name = some (n, t) ↔ up n = some ⟨d, name, t⟩)

end FileTree

variable {sb : SuperBlock} {aside : Nat → Prop} {p p' p'' p₁ p₂ : Part sb} {up : FileTree}
  {d n m : Nat} {h g : Hang Nat Name Nat}
  {map : Name → Option (Nat × Nat)} {name : Name} {kind : Nat} {parent parent' new : Inode}

/-- THE CHECK. The blocks that formatting masks in the bitmap are `aside`. -/
structure Fsck (aside : Nat → Prop) (p : Part sb) (up : FileTree) : Prop where
  tree : Rooted 0 (· = ftDirectory) up
  hung : ∀ n h, up n = some h → n < 4096 ∧ ValidName h.name ∧ Proper h.name ∧
    (h.kind = ftRegular ∨ h.kind = ftDirectory)
  allocated : ∀ n, p.inodeBitmap.test n = true ↔ up.Here n
  numbered : ∀ n, up.Here n → (diskInode p n).iNo = n
  ledger : Ledger up.Here (Taken p) aside fun n => slot p (diskInode p n)
  dirs : ∀ d, up.Dir d → ∃ map, Accounted ⟨p, diskInode p d, map⟩ ∧ up.Lists d map
  files : ∀ n h, up n = some h → h.kind = ftRegular → IsFile p (diskInode p n) ∧
    Snug p (diskInode p n)
  root : slot p (diskInode p 0) 0 = sb.dataStartLba
  onDisk : OnDisk p p.inodeBitmap

/-- The other inodes of the tree are what they were, and the other files have what they had. -/
structure Others (up : FileTree) (d : Nat) (p p' : Part sb) : Prop where
  inode : ∀ m, up.Here m → m ≠ d → diskInode p' m = diskInode p m
  data : ∀ m g, up m = some g → g.kind = ftRegular → m ≠ d →
    contents p' (diskInode p' m) = contents p (diskInode p m)

theorem FileTree.Dir.here (dir : up.Dir d) : up.Here d := Inner.here dir

theorem here_of (hm : up m = some g) : up.Here m := .inr (by rw [hm]; exact Option.some_ne_none g)

/-- The root has block 0 of the data. -/
theorem root_taken (ledger : Ledger up.Here (Taken p) aside fun m => slot p (diskInode p m))
    (root : slot p (diskInode p 0) 0 = sb.dataStartLba) : Taken p sb.dataStartLba := by
  have taken := (ledger.books 0 (.inl rfl)).taken 0
  rw [root] at taken
  exact taken sb.dataStart_pos.ne'

theorem here_hang : FileTree.Here (hang up n h) m ↔ up.Here m ∨ m = n := by
  unfold FileTree.Here
  by_cases hmn : m = n
  · subst hmn
    rw [hang_self]
    exact ⟨fun _ => .inr rfl, fun _ => .inr (Option.some_ne_none h)⟩
  · rw [hang_other hmn]
    exact ⟨.inl, fun h => h.resolve_right hmn⟩

theorem here_cut (hroot : n ≠ 0) : FileTree.Here (cut up n) m ↔ up.Here m ∧ m ≠ n := by
  unfold FileTree.Here
  by_cases hmn : m = n
  · subst hmn
    rw [cut_self]
    exact ⟨fun h => absurd rfl (h.resolve_left hroot), fun h => absurd rfl h.2⟩
  · rw [cut_other hmn]
    exact ⟨fun h => ⟨h, hmn⟩, And.left⟩

section Listing

/-- A directory that is not the parent of the new node lists what it did. -/
theorem FileTree.Lists.hang_other (lists : up.Lists d map) (hd : d ≠ n) (hp : h.parent ≠ d)
    (free : up n = none) :
    FileTree.Lists (hang up n h) d map where
  dot := lists.dot
  dotDot := by
    unfold FileTree.above
    rw [Lib.hang_other hd]
    exact lists.dotDot
  proper name k t proper := by
    rw [lists.proper name k t proper]
    by_cases hk : k = n
    · subst hk
      rw [hang_self, free]
      constructor
      · nofun
      · intro e
        rw [Option.some.inj e] at hp
        exact absurd rfl hp
    · rw [Lib.hang_other hk]

/-- The parent lists the new node too. -/
theorem FileTree.Lists.hang_parent (lists : up.Lists h.parent map) (hd : h.parent ≠ n)
    (free : up n = none) (proper : Proper h.name) (unused : map h.name = none) :
    FileTree.Lists (hang up n h) h.parent (Function.update map h.name (some (n, h.kind))) where
  dot := by
    rw [Function.update_of_ne proper.1.symm]
    exact lists.dot
  dotDot := by
    rw [Function.update_of_ne proper.2.symm]
    unfold FileTree.above
    rw [Lib.hang_other hd]
    exact lists.dotDot
  proper other k t hother := by
    by_cases hname : other = h.name
    · subst hname
      rw [Function.update_self]
      by_cases hk : k = n
      · subst hk
        rw [hang_self]
        constructor
        · intro e
          cases e
          rfl
        · intro e
          rw [Option.some.inj e]
      · rw [Lib.hang_other hk, ← lists.proper _ _ _ proper, unused]
        constructor
        · intro e
          cases e
          exact absurd rfl hk
        · nofun
    · rw [Function.update_of_ne hname, lists.proper _ _ _ hother]
      by_cases hk : k = n
      · subst hk
        rw [hang_self, free]
        constructor
        · nofun
        · intro e
          rw [Option.some.inj e] at hname
          exact absurd rfl hname
      · rw [Lib.hang_other hk]

/-- A new directory lists `.` and `..` only. -/
theorem FileTree.Lists.hang_new (bare : ∀ m g, up m = some g → g.parent ≠ n) (hd : h.parent ≠ n)
    (dot : map dotName = some (n, ftDirectory))
    (dotDot : map dotDotName = some (h.parent, ftDirectory))
    (none : ∀ name, Proper name → map name = none) :
    FileTree.Lists (hang up n h) n map where
  dot := dot
  dotDot := by
    unfold FileTree.above
    rw [hang_self]
    exact dotDot
  proper name k t proper := by
    rw [none name proper]
    constructor
    · nofun
    · intro e
      by_cases hk : k = n
      · subst hk
        rw [hang_self] at e
        rw [Option.some.inj e] at hd
        exact absurd rfl hd
      · rw [Lib.hang_other hk] at e
        exact absurd rfl (bare k _ e)

/-- A directory that is not the parent of what is cut off lists what it did. -/
theorem FileTree.Lists.cut_other (lists : up.Lists d map) (hd : d ≠ n) (hn : up n = some h)
    (hp : h.parent ≠ d) :
    FileTree.Lists (cut up n) d map where
  dot := lists.dot
  dotDot := by
    unfold FileTree.above
    rw [Lib.cut_other hd]
    exact lists.dotDot
  proper name k t proper := by
    rw [lists.proper name k t proper, cut_eq_some]
    refine ⟨fun e => ⟨?_, e⟩, And.right⟩
    rintro rfl
    rw [hn] at e
    rw [Option.some.inj e] at hp
    exact hp rfl

/-- The parent does not list it any more. -/
theorem FileTree.Lists.cut_parent (tree : Rooted 0 (· = ftDirectory) up)
    (lists : up.Lists h.parent map) (hd : h.parent ≠ n) (hn : up n = some h)
    (proper : Proper h.name) :
    FileTree.Lists (cut up n) h.parent (Function.update map h.name none) where
  dot := by
    rw [Function.update_of_ne proper.1.symm]
    exact lists.dot
  dotDot := by
    rw [Function.update_of_ne proper.2.symm]
    unfold FileTree.above
    rw [Lib.cut_other hd]
    exact lists.dotDot
  proper other k t hother := by
    rw [cut_eq_some]
    by_cases hname : other = h.name
    · subst hname
      rw [Function.update_self]
      constructor
      · nofun
      · rintro ⟨hk, e⟩
        exact absurd (tree.once k n _ _ e hn rfl rfl) hk
    · rw [Function.update_of_ne hname, lists.proper _ _ _ hother]
      refine ⟨fun e => ⟨?_, e⟩, And.right⟩
      rintro rfl
      rw [hn] at e
      rw [Option.some.inj e] at hname
      exact hname rfl

end Listing

/-! ## What the check says -/

section Facts

variable (fsck : Fsck aside p up)

include fsck

theorem Fsck.lt (here : up.Here n) : n < 4096 := by
  rcases here with rfl | here
  · decide
  · obtain ⟨h, hn⟩ := Option.ne_none_iff_exists'.mp here
    exact (fsck.hung n h hn).1

theorem Fsck.books (here : up.Here n) : InOrder p (diskInode p n) := fsck.ledger.books n here

theorem Fsck.rootTaken : Taken p sb.dataStartLba := root_taken fsck.ledger fsck.root

theorem Fsck.unallocated (free : p.inodeBitmap.test n = false) : n ≠ 0 ∧ up n = none := by
  have hno : ¬ up.Here n := fun here => by
    rw [(fsck.allocated n).mpr here] at free
    cases free
  unfold FileTree.Here at hno
  rw [not_or, not_not] at hno
  exact hno

/-- Nothing hangs below what is not there. -/
theorem Fsck.bare (hn0 : n ≠ 0) (free : up n = none) (m : Nat) (g : Hang Nat Name Nat)
    (hm : up m = some g) : g.parent ≠ n := by
  rintro rfl
  have here := FileTree.Dir.here (fsck.tree.parent m g hm)
  exact here.elim hn0 (· free)

/-- A file is no directory. -/
theorem Fsck.not_dir (hm : up m = some g) (hg : g.kind = ftRegular) : ¬ up.Dir m := by
  rintro (h0 | ⟨g', hg', hkind⟩)
  · exact fsck.tree.ne_root hm h0
  · rw [hm] at hg'
    cases hg'
    rw [hg] at hkind
    exact absurd hkind (by decide)

end Facts

/-- No inode but `d` holds the block. -/
def Spare (p : Part sb) (up : FileTree) (d b : Nat) : Prop :=
  ∀ m, up.Here m → m ≠ d → ¬ Holds (slot p (diskInode p m)) b

theorem Fsck.spare_free (fsck : Fsck aside p up) {b : Nat} (free : ¬ Taken p b) :
    Spare p up d b := by
  intro m hm _ hb
  obtain ⟨hne, k, rfl⟩ := hb
  exact free ((fsck.books hm).taken k hne)

theorem Fsck.spare (fsck : Fsck aside p up) (here : up.Here d) {b : Nat}
    (own : Holds (slot p (diskInode p d)) b ∨ ¬ Taken p b) : Spare p up d b := by
  rcases own with own | free
  · exact fun m hm hne hb => fsck.ledger.apart d m here hm hne.symm b own hb
  · exact fsck.spare_free free

/-- THE OTHER INODES are what they were, and so are their blocks. -/
theorem Fsck.others (fsck : Fsck aside p up) {S : Nat → Prop} (moves : Moves (Spare p up d) S p p')
    (here : up.Here m) (hne : m ≠ d) (hS : ¬ S m) :
    diskInode p' m = diskInode p m ∧ Kept p (diskInode p m) p' :=
  ⟨moves.inodes m (fsck.lt here) hS, moves.kept (fsck.books here) fun _ hb own => own m here hne hb⟩

/-! ## Making a file or a directory -/

/-- A new inode, with its blocks, before it has an entry. -/
structure Prepared (p : Part sb) (new : Inode) (p₁ : Part sb) : Prop where
  inodeBitmap : p₁.inodeBitmap = bitmapSet p.inodeBitmap new.iNo true
  taken : ∀ b, Taken p₁ b ↔ Taken p b ∨ Holds (slot p₁ new) b
  fresh : ∀ b, Holds (slot p₁ new) b → ¬ Taken p b
  books : InOrder p₁ new
  moves : ∀ {own S : Nat → Prop}, (∀ b, ¬ Taken p b → own b) → Moves own S p p₁
  onDisk : ∀ {bits}, OnDisk p bits → OnDisk p₁ bits
  noTable : new.iSectors 12 = 0
  fits : new.Fits

/-- The inodes of the parent and of the new one are synced, and then the bitmap. -/
structure Filed (p : Part sb) (parent new : Inode) (p' : Part sb) : Prop where
  parentNo : parent.iNo < 4096
  moves : ∀ {own S : Nat → Prop}, S parent.iNo → S new.iNo → Moves own S p p'
  parent : parent.iNo ≠ new.iNo → parent.iSize < 2 ^ 32 → (∀ k < 13, parent.iSectors k < 2 ^ 32) →
    diskInode p' parent.iNo = parent.pure
  new : new.Fits → diskInode p' new.iNo = new.pure
  blockBitmap : p'.blockBitmap = p.blockBitmap
  inodeBitmap : p'.inodeBitmap = p.inodeBitmap
  onDisk : ∀ {bits}, OnDisk p bits → OnDisk p' p'.inodeBitmap

theorem filed {p₃ p₄ : Part sb} (hparent : inodeSync p parent zeros = .ok p₃)
    (hnew : inodeSync p₃ new zeros = .ok p₄) : Filed p parent new (inodeBitmapSync p₄ new.iNo) := by
  obtain ⟨hparentNo, rparent⟩ := inodeReplace_inv hparent
  obtain ⟨hnewNo, rnew⟩ := inodeReplace_inv hnew
  have synced : Moves (fun _ => False) (fun _ => False) p₄ (inodeBitmapSync p₄ new.iNo) :=
    moves_inodeSync hnewNo
  have disk (m : Nat) (hm : m < 4096) : diskInode (inodeBitmapSync p₄ new.iNo) m = diskInode p₄ m :=
    synced.inodes m hm id
  refine ⟨hparentNo, fun h₁ h₂ => ((rparent.moves h₁).trans (rnew.moves h₂)).trans
    (moves_inodeSync hnewNo), fun hne hsize hfit => ?_,
    fun fits => ?_, rnew.blockBitmap.trans rparent.blockBitmap,
    rnew.inodeBitmap.trans rparent.inodeBitmap, fun on => ?_⟩
  · rw [disk _ hparentNo, rnew.diskInode_other hne, rparent.diskInode_self ⟨hparentNo, hsize, hfit⟩]
  · rw [disk _ hnewNo, rnew.diskInode_self fits]
  · exact ((on.replaced rparent).replaced rnew).inodeSync hnewNo

/-- The room of a directory is in its blocks. -/
theorem Kept.room {inode : Inode} (kept : Kept p inode p') (room : DirectRoom p inode) :
    DirectRoom p' inode := by
  obtain ⟨k, hk, h⟩ := room
  by_cases h0 : inode.iSectors k = 0
  · exact ⟨k, hk, .inl h0⟩
  obtain ⟨i, hi, free⟩ := h.resolve_left h0
  refine ⟨k, hk, .inr ⟨i, hi, ?_⟩⟩
  have hslot : Fs.slot p inode k = inode.iSectors k := slot_direct hk
  have same : entryOf p' (inode.iSectors k) i = entryOf p (inode.iSectors k) i := by
    refine dirEntryAt_congr fun j hj => ?_
    have content := kept.content k (by rwa [hslot]) (dirEntrySize * i + j)
    rw [hslot] at content
    unfold dirEntrysPerSec at hi
    exact content (by unfold dirEntrySize; omega)
  rw [same]
  exact free

/-- What makes a new name fit into the tree. -/
structure Enters (up : FileTree) (n : Nat) (h : Hang Nat Name Nat) : Prop where
  nonzero : n ≠ 0
  free : up n = none
  lt : n < 4096
  dir : up.Dir h.parent
  valid : ValidName h.name
  proper : Proper h.name
  unused : ∀ m g, up m = some g → g.parent = h.parent → g.name ≠ h.name
  kind : h.kind = ftRegular ∨ h.kind = ftDirectory

theorem Enters.parent_ne (enters : Enters up n h) : h.parent ≠ n := by
  intro e
  have here := FileTree.Dir.here enters.dir
  rw [e] at here
  exact here.elim enters.nonzero (· enters.free)

/-- The new entry is fresh in the map of its directory. -/
theorem Enters.fresh (enters : Enters up n h) (fsck : Fsck aside p up)
    (lists : up.Lists h.parent map) {q : Part sb} {inode : Inode} :
    (⟨q, inode, map⟩ : Directory sb).Fresh h.name n h.kind := by
  refine ⟨enters.valid, ?_, fun other v hv => ?_, enters.nonzero,
    Nat.lt_trans enters.lt (by decide), enters.kind⟩
  · cases hmap : map h.name with
    | none => exact hmap
    | some v =>
      exact (enters.unused v.1 ⟨h.parent, h.name, v.2⟩
        ((lists.proper h.name v.1 v.2 enters.proper).mp hmap) rfl rfl).elim
  · rintro rfl
    replace hv : map other = some v := hv
    by_cases hdot : other = dotName
    · rw [hdot, lists.dot] at hv
      rw [← Option.some.inj hv] at enters
      exact enters.parent_ne rfl
    by_cases hdd : other = dotDotName
    · rw [hdd, lists.dotDot] at hv
      have hv := Option.some.inj hv
      -- `..` leads to a directory that is there
      have here : up.Here v.1 := by
        rw [← hv]
        unfold FileTree.above
        cases hup : up h.parent with
        | none => exact .inl rfl
        | some g => exact FileTree.Dir.here (fsck.tree.parent _ g hup)
      exact here.elim enters.nonzero (· enters.free)
    · have := (lists.proper other v.1 v.2 ⟨hdot, hdd⟩).mp hv
      rw [enters.free] at this
      cases this

/-- WHAT IS ON THE DISK when a new inode has its entry in the parent. -/
structure Entered (aside : Nat → Prop) (p : Part sb) (up : FileTree) (new : Inode)
    (h : Hang Nat Name Nat) (parent' : Inode) (p' : Part sb) :
    Prop where
  parentNo : parent'.iNo = h.parent
  like : Alike parent' (diskInode p' h.parent)
  made : diskInode p' new.iNo = new.pure
  others : ∀ m, up.Here m → m ≠ h.parent → diskInode p' m = diskInode p m ∧
    Kept p (diskInode p m) p'
  entry : ∃ map, up.Lists h.parent map ∧ map h.name = none ∧
    Accounted ⟨p', diskInode p' h.parent, Function.update map h.name (some (new.iNo, h.kind))⟩
  inodeBitmap : p'.inodeBitmap = bitmapSet p.inodeBitmap new.iNo true
  ledger : Ledger (FileTree.Here (hang up new.iNo h)) (Taken p') aside fun m =>
    slot p' (diskInode p' m)
  root : slot p' (diskInode p' 0) 0 = sb.dataStartLba
  onDisk : OnDisk p' p'.inodeBitmap

/-- The new inode is prepared, the parent gets the entry, and both are filed. -/
theorem Fsck.entered (fsck : Fsck aside p up) (enters : Enters up new.iNo h)
    (like : Alike parent (diskInode p h.parent)) (room : DirectRoom p parent)
    (prep : Prepared p new p₁) {pDe : Buf}
    (hde : createDirEntry h.name new.iNo h.kind zeros = .ok pDe)
    (hsync : syncDirEntry p₁ parent pDe zeros = .ok (true, p₂, parent'))
    (filed : Filed p₂ parent' new p') : Entered aside p up new h parent' p' := by
  have here := FileTree.Dir.here enters.dir
  have hne := enters.parent_ne
  have hno : ¬ up.Here new.iNo := fun here => here.elim enters.nonzero (· enters.free)
  have hparentNo : parent.iNo = h.parent := like.iNo.trans (fsck.numbered _ here)
  -- the parent, before and after
  have books : InOrder p parent := by
    rw [InOrder, like.slot]
    exact fsck.books here
  have prepared : Moves (fun b => ¬ Taken p b) (fun _ => False) p p₁ := prep.moves fun _ => id
  have kept₁ : Kept p parent p₁ := prepared.kept books fun b hb free => by
    obtain ⟨hb0, k, rfl⟩ := hb
    exact free (books.taken k hb0)
  have books₁ := kept₁.books books
  have room₁ := kept₁.room room
  have slots₁ : slot p (diskInode p h.parent) = slot p₁ parent := by rw [kept₁.slot, like.slot]
  obtain ⟨orderly, stay⟩ := syncDirEntry_orderly books₁ room₁ hsync
  have effect := syncDirEntry_effect books₁ hsync
  have books₂ : InOrder p₂ parent' := effect.books
  have hparentNo' : parent'.iNo = h.parent := effect.iNo.trans hparentNo
  have moves₂ : Moves (fun _ => False) (fun _ => True) p₂ p' := filed.moves trivial trivial
  have kept₂ : Kept p₂ parent' p' := moves₂.kept books₂ fun _ _ => id
  -- its entries
  obtain ⟨map, acc, lists⟩ := fsck.dirs _ enters.dir
  have acc₁ : Accounted ⟨p₁, parent, map⟩ := kept₁.accounted (like.accounted acc)
  have call : (⟨p₁, parent, map⟩ : Directory sb).call (.syncDirEntry h.name new.iNo h.kind zeros) =
      .ok (⟨p₂, parent', Function.update map h.name (some (new.iNo, h.kind))⟩, true) := by
    unfold Directory.call
    dsimp only
    rw [hde]
    show (syncDirEntry p₁ parent pDe zeros >>= _) = _
    rw [hsync]
    rfl
  have fresh : (dirMachine sb).enabled ⟨p₁, parent, map⟩
      (.syncDirEntry h.name new.iNo h.kind zeros) := enters.fresh fsck lists
  have acc₂ := acc₁.step fresh call room₁
  have hsize : parent'.iSize < 2 ^ 32 :=
    Nat.lt_of_le_of_lt (Nat.le_add_right _ _) acc₂.accounts.small
  have parentDisk : diskInode p' h.parent = parent'.pure := by
    rw [← hparentNo']
    exact filed.parent (hparentNo' ▸ hne) hsize fun k hk => books₂.sector_lt hk
  have like' : Alike parent' (diskInode p' h.parent) := by
    rw [parentDisk]
    exact (Inode.alike_pure _).symm
  have newDisk := filed.new prep.fits
  -- the other inodes
  have moves : Moves (Spare p up h.parent) (fun m => m = h.parent ∨ m = new.iNo) p p' := by
    refine (prep.moves fun _ => fsck.spare_free).trans
      ((effect.moves (.inl hparentNo) fun b hb => ?_).trans
      (filed.moves (.inl hparentNo') (.inr rfl)))
    rw [← slots₁] at hb
    exact fsck.spare here (hb.imp_right fun free ht => free ((prep.taken b).mpr (.inl ht)))
  have others {m : Nat} (hm : up.Here m) (hmd : m ≠ h.parent) : diskInode p' m = diskInode p m ∧
      Kept p (diskInode p m) p' := by
    refine fsck.others moves hm hmd ?_
    rintro (rfl | rfl)
    · exact hmd rfl
    · exact hno hm
  have away {m : Nat} (hm : up.Here m) : m ≠ new.iNo := fun e => hno (e ▸ hm)
  have taken' : Taken p' = Taken p₂ := funext fun b => propext (taken_congr filed.blockBitmap b)
  have slots₂ : slot p' (diskInode p' h.parent) = slot p₂ parent' := by
    rw [← like'.slot, kept₂.slot]
  have slotsNew : slot p' (diskInode p' new.iNo) = slot p₁ new := by
    rw [newDisk, new.alike_pure.slot]
    ext k
    rw [slot_noTable prep.noTable, slot_noTable prep.noTable]
  -- the blocks: the new inode joins, and then the parent regrants
  have joined : Ledger (FileTree.Here (hang up new.iNo h)) (Taken p₁) aside
      fun m => if m = new.iNo then slot p₁ new else slot p (diskInode p m) := by
    refine fsck.ledger.join hno (fun m => here_hang) ?_ (fun b => ?_) (fun b => ?_) fun m hm =>
      if_neg (away hm)
    · rw [if_pos rfl]
      exact prep.books
    · rw [if_pos rfl]
      exact prep.taken b
    · rw [if_pos rfl]
      exact prep.fresh b
  have ledger : Ledger (FileTree.Here (hang up new.iNo h)) (Taken p') aside fun m =>
      slot p' (diskInode p' m) := by
    rw [taken']
    refine joined.regrant (here_hang.mpr (.inl here)) ?_ ?_ fun m hm hmd => ?_
    · rw [if_neg hne, slots₁, slots₂]
      exact effect.regrants
    · rw [if_neg hne, slots₁, slots₂]
      exact orderly.settles
    · by_cases hmn : m = new.iNo
      · rw [hmn, if_pos rfl, slotsNew]
      · rw [if_neg hmn]
        have hm := (here_hang.mp hm).resolve_right hmn
        rw [(others hm hmd).1, (others hm hmd).2.slot]
  refine ⟨hparentNo', like', newDisk, fun m hm hmd => others hm hmd,
    ⟨map, lists, fresh.2.1, like'.symm.accounted (kept₂.accounted acc₂)⟩, ?_,
    ledger, ?_, filed.onDisk (orderly.onDisk (prep.onDisk fsck.onDisk))⟩
  · rw [filed.inodeBitmap, effect.inodeBitmap, prep.inodeBitmap]
  · by_cases h0 : h.parent = 0
    · rw [h0] at slots₁ slots₂
      have hroot := fsck.root
      rw [slots₁] at hroot
      rw [slots₂, stay 0 (hroot ▸ sb.dataStart_pos.ne'), hroot]
    · obtain ⟨e, kept⟩ := others (.inl rfl) (Ne.symm h0)
      rw [e, kept.slot]
      exact fsck.root

/-- THE TREE WITH THE NEW NAME passes the check. -/
theorem Entered.fsck (entered : Entered aside p up new h parent' p') (fsck : Fsck aside p up)
    (enters : Enters up new.iNo h)
    (newDir : h.kind = ftDirectory → ∃ map, Accounted ⟨p', diskInode p' new.iNo, map⟩ ∧
      map dotName = some (new.iNo, ftDirectory) ∧ map dotDotName = some (h.parent, ftDirectory) ∧
      ∀ name, Proper name → map name = none)
    (newFile : h.kind = ftRegular → Taken p' sb.dataStartLba → IsFile p' (diskInode p' new.iNo) ∧
      Snug p' (diskInode p' new.iNo)) : Fsck aside p' (hang up new.iNo h) := by
  have hne := enters.parent_ne
  have rootTaken := root_taken entered.ledger entered.root
  refine ⟨fsck.tree.hang enters.free enters.nonzero enters.dir enters.unused, fun m g hm => ?_,
    fun m => ?_, fun m hm => ?_, entered.ledger,
    fun m hm => ?_, fun m g hm hg => ?_, entered.root, entered.onDisk⟩
  · by_cases hmn : m = new.iNo
    · subst hmn
      rw [hang_self] at hm
      cases hm
      exact ⟨enters.lt, enters.valid, enters.proper, enters.kind⟩
    · rw [hang_other hmn] at hm
      exact fsck.hung m g hm
  · rw [entered.inodeBitmap, test_bitmapSet (by rw [p.inodeSize]; exact enters.lt), here_hang]
    by_cases hmn : m = new.iNo
    · rw [if_pos hmn]
      exact ⟨fun _ => .inr hmn, fun _ => rfl⟩
    · rw [if_neg hmn, fsck.allocated]
      exact ⟨.inl, fun h => h.resolve_right hmn⟩
  · by_cases hmn : m = new.iNo
    · rw [hmn, entered.made]
      rfl
    by_cases hmd : m = h.parent
    · rw [hmd, ← entered.like.iNo, entered.parentNo]
    · have hm := (here_hang.mp hm).resolve_right hmn
      rw [(entered.others m hm hmd).1]
      exact fsck.numbered m hm
  · by_cases hmn : m = new.iNo
    · subst hmn
      obtain ⟨g, hg, hkind⟩ := hm.resolve_left enters.nonzero
      rw [hang_self] at hg
      cases hg
      obtain ⟨map', acc', hdot, hdd, none⟩ := newDir hkind
      exact ⟨map', acc', .hang_new (fsck.bare enters.nonzero enters.free) hne hdot hdd none⟩
    by_cases hmd : m = h.parent
    · subst hmd
      obtain ⟨map, lists, unused, acc⟩ := entered.entry
      exact ⟨_, acc, lists.hang_parent hne enters.free enters.proper unused⟩
    · have dir : up.Dir m := by
        refine hm.imp_right ?_
        rintro ⟨g, hg, hkind⟩
        rw [hang_other hmn] at hg
        exact ⟨g, hg, hkind⟩
      obtain ⟨map', acc', lists'⟩ := fsck.dirs m dir
      obtain ⟨e, kept⟩ := entered.others m dir.here hmd
      rw [e]
      exact ⟨map', kept.accounted acc', lists'.hang_other hmn (Ne.symm hmd) enters.free⟩
  · by_cases hmn : m = new.iNo
    · subst hmn
      rw [hang_self] at hm
      cases hm
      exact newFile hg rootTaken
    · rw [hang_other hmn] at hm
      obtain ⟨e, kept⟩ := entered.others m (here_of hm) fun e => fsck.not_dir hm hg (e ▸ enters.dir)
      obtain ⟨file, snug⟩ := fsck.files m g hm hg
      rw [e]
      exact ⟨kept.isFile file rootTaken, snug.congr kept.slot rfl⟩

/-- THE NEW NODE. A prepared inode gets an entry in a directory with room, and is synced with it. -/
theorem Fsck.enter (fsck : Fsck aside p up) (enters : Enters up new.iNo h)
    (like : Alike parent (diskInode p h.parent)) (room : DirectRoom p parent)
    (prep : Prepared p new p₁) {pDe : Buf}
    (hde : createDirEntry h.name new.iNo h.kind zeros = .ok pDe)
    (hsync : syncDirEntry p₁ parent pDe zeros = .ok (true, p₂, parent'))
    (filed : Filed p₂ parent' new p')
    (newDir : h.kind = ftDirectory → ∃ map, Accounted ⟨p', diskInode p' new.iNo, map⟩ ∧
      map dotName = some (new.iNo, ftDirectory) ∧ map dotDotName = some (h.parent, ftDirectory) ∧
      ∀ name, Proper name → map name = none)
    (newFile : h.kind = ftRegular → Taken p' sb.dataStartLba → IsFile p' (diskInode p' new.iNo) ∧
      Snug p' (diskInode p' new.iNo)) :
    Fsck aside p' (hang up new.iNo h) ∧ Alike parent' (diskInode p' h.parent) ∧
    Others up h.parent p p' := by
  have entered := fsck.entered enters like room prep hde hsync filed
  refine ⟨entered.fsck fsck enters newDir newFile, entered.like, fun m hm hmd =>
    (entered.others m hm hmd).1, fun m g hm hg _ => ?_⟩
  obtain ⟨e, kept⟩ := entered.others m (here_of hm) fun e => fsck.not_dir hm hg (e ▸ enters.dir)
  rw [e]
  exact kept.contents (fsck.files m g hm hg).1

/-- What was made lists `.` and `..`, and nothing else. -/
theorem Made.listed {m : Nat} (made : Made p new m) (disk : diskInode p new.iNo = new.pure)
    (hm : m < 4096) :
    ∃ map, Accounted ⟨p, diskInode p new.iNo, map⟩ ∧ map dotName = some (new.iNo, ftDirectory) ∧
      map dotDotName = some (m, ftDirectory) ∧
      ∀ name, Proper name → map name = none := by
  have acc := made.accounted disk (Nat.lt_trans hm (by decide))
  have hno : (openedDir p new.iNo).inode.iNo = new.iNo := by
    show (diskInode p new.iNo).iNo = new.iNo
    rw [disk]
    rfl
  have hcells :=
    (made.twoDots disk).cells_eq (by rw [hno]; exact Nat.lt_trans made.iNo (by decide))
      (Nat.lt_trans hm (by decide))
  refine ⟨_,
    (⟨rfl, rfl, fun _ _ => rfl⟩ : Alike (diskInode _ new.iNo) (openedDir _ new.iNo).inode).accounted
      acc, ?_, ?_, fun other hother => ?_⟩
  · exact (acc.good.represents.sound (0, 0) dotName (new.iNo, ftDirectory))
      (by rw [hcells, if_pos rfl, hno])
  · exact (acc.good.represents.sound (0, 1) dotDotName (m, ftDirectory))
      (by rw [hcells, if_neg (by decide), if_pos rfl])
  · cases hmap : (openedDir p new.iNo).map other with
    | none => exact hmap
    | some v =>
      obtain ⟨c, hc⟩ := acc.good.represents.complete other v hmap
      rw [hcells] at hc
      split_ifs at hc
      · exact absurd (Prod.mk.inj (Option.some.inj hc)).1.symm hother.1
      · exact absurd (Prod.mk.inj (Option.some.inj hc)).1.symm hother.2

/-- A NEW DIRECTORY. -/
theorem Fsck.sysMkdir (fsck : Fsck aside p up) (dir : up.Dir d)
    (like : Alike parent (diskInode p d)) (room : DirectRoom p parent) (valid : ValidName name)
    (proper : Proper name) (unused : ∀ m g, up m = some g → g.parent = d → g.name ≠ name)
    (h : sysMkdir p parent name = .ok (some (p', parent', new))) :
    Enters up new.iNo ⟨d, name, ftDirectory⟩ ∧
    Fsck aside p' (hang up new.iNo ⟨d, name, ftDirectory⟩) ∧
      Alike parent' (diskInode p' d) ∧ Others up d p p' := by
  have hparentNo : parent.iNo = d := like.iNo.trans (fsck.numbered _ dir.here)
  have books : InOrder p parent := by
    rw [InOrder, like.slot]
    exact fsck.books dir.here
  obtain ⟨made, disk, hd⟩ := sysMkdir_made books h
  have listed := made.listed disk hd
  rw [hparentNo] at listed
  unfold Fs.sysMkdir at h
  obtain ⟨r, halloc, h⟩ := bind_eq_ok.mp h
  unfold inodeBitmapAlloc at halloc
  obtain ⟨_, hscan, halloc⟩ := bind_eq_ok.mp halloc
  obtain ⟨n, rfl, hn, hfree, -⟩ := bitmapScan_one hscan
  cases halloc
  rw [p.inodeSize] at hn
  dsimp only [Option.map_some] at h
  obtain ⟨_, halloc, h⟩ := bind_eq_ok.mp h
  obtain ⟨b, p₁, rfl, alloc⟩ := blockBitmapAlloc_ok halloc
  dsimp only at h
  obtain ⟨_, _, h⟩ := bind_eq_ok.mp h
  obtain ⟨pDe, hde, h⟩ := bind_eq_ok.mp h
  obtain ⟨⟨done, p₃, parent₃⟩, hsync, h⟩ := bind_eq_ok.mp h
  obtain rfl := syncDirEntry_true hsync
  obtain ⟨p₄, hp₄, h⟩ := bind_eq_ok.mp h
  obtain ⟨p₅, hp₅, h⟩ := bind_eq_ok.mp h
  cases h
  obtain ⟨nonzero, free⟩ := fsck.unallocated hfree
  have enters : Enters up n ⟨d, name, ftDirectory⟩ :=
    ⟨nonzero, free, hn, dir, valid, proper, unused, .inr rfl⟩
  have sectors (k : Nat) :
      ({ (inodeInit n).setSector 0 b with iSize := 2 * dirEntrySize } : Inode).iSectors k =
      if k = 0 then b else 0 := Function.update_apply _ _ _ _
  have slots {q : Part sb} (k : Nat) :
      slot q { (inodeInit n).setSector 0 b with iSize := 2 * dirEntrySize } k = if k = 0 then
        b else 0 := by
    rw [slot_noTable (by rw [sectors]; rfl), sectors]
    split_ifs <;> first | rfl | omega
  have holds {q : Part sb} (c : Nat) :
      Holds (slot q { (inodeInit n).setSector 0 b with iSize := 2 * dirEntrySize }) c ↔ c = b := by
    constructor
    · rintro ⟨hc, k, rfl⟩
      rw [slots] at hc ⊢
      exact if_pos (by_contra fun hk => hc (if_neg hk))
    · rintro rfl
      exact ⟨alloc.ne_zero, 0, slots 0⟩
  have prep : Prepared p { (inodeInit n).setSector 0 b with iSize := 2 * dirEntrySize }
      (ideWrite (blockBitmapSync p₁ (blockBit sb b)) b (dotEntries n parent.iNo) 1) := by
    refine ⟨alloc.inodeBitmap, fun c => ?_, fun c hc => ?_, ⟨fun i j hi hij => ?_, fun i hi => ?_⟩,
      fun hown => ?_, fun on => ?_, ?_,
      ⟨hn, show 2 * dirEntrySize < 2 ^ 32 by decide, fun k _ => ?_⟩⟩
    · rw [holds, or_comm]
      exact alloc.taken c
    · rw [(holds c).mp hc]
      exact alloc.free
    · rw [slots] at hi
      have hi : i = 0 := by_contra fun h0 => hi (if_neg h0)
      rw [slots, slots, if_pos hi] at hij
      exact hi.trans (by_contra fun hj => alloc.ne_zero (hij.trans (if_neg (Ne.symm hj))))
    · rw [slots] at hi ⊢
      rw [if_pos (by_contra fun h0 => hi (if_neg h0))]
      exact alloc.self
    · exact (moves_setInode.trans alloc.moves).trans
        (moves_ideWrite (hown b alloc.free) alloc.start _)
    · exact ((on.setInode n true).alloc halloc _ _ rfl).ideWrite _ (.inr alloc.start)
    · rw [sectors]
      rfl
    · rw [sectors]
      split
      · exact alloc.self.lt_u32
      · decide
  exact ⟨enters, fsck.enter enters like room prep hde hsync (filed hp₄ hp₅) (fun _ => listed)
    fun e => absurd e (show ftDirectory ≠ ftRegular by decide)⟩

/-- `file_create` from `inode_bitmap_alloc` on, but for what it does to `file_table` and
`open_inodes`: the partition, the parent's inode and the new one. -/
def createFile (p : Part sb) (parentDir : Inode) (name : Name) :
    Except Fault (Option (Part sb × Inode × Inode)) := do
  match ← inodeBitmapAlloc p with
  | none => return none
  | some (inodeNo, p) =>
    let newDirEntry ← createDirEntry name inodeNo ftRegular zeros
    match ← syncDirEntry p parentDir newDirEntry zeros with
    | (false, _, _) => return none
    | (true, p, parentDir) =>
      let p ← inodeSync p parentDir zeros
      let p ← inodeSync p (inodeInit inodeNo) zeros
      return some (inodeBitmapSync p inodeNo, parentDir, inodeInit inodeNo)

/-- A NEW FILE. -/
theorem Fsck.createFile (fsck : Fsck aside p up) (dir : up.Dir d)
    (like : Alike parent (diskInode p d)) (room : DirectRoom p parent) (valid : ValidName name)
    (proper : Proper name) (unused : ∀ m g, up m = some g → g.parent = d → g.name ≠ name)
    (h : createFile p parent name = .ok (some (p', parent', new))) :
    Enters up new.iNo ⟨d, name, ftRegular⟩ ∧ new = inodeInit new.iNo ∧
    Fsck aside p' (hang up new.iNo ⟨d, name, ftRegular⟩) ∧
      Alike parent' (diskInode p' d) ∧ Others up d p p' ∧ diskInode p' new.iNo = new.pure := by
  unfold Fs.createFile at h
  obtain ⟨r, halloc, h⟩ := bind_eq_ok.mp h
  unfold inodeBitmapAlloc at halloc
  obtain ⟨_, hscan, halloc⟩ := bind_eq_ok.mp halloc
  obtain ⟨n, rfl, hn, hfree, -⟩ := bitmapScan_one hscan
  cases halloc
  rw [p.inodeSize] at hn
  dsimp only [Option.map_some] at h
  obtain ⟨pDe, hde, h⟩ := bind_eq_ok.mp h
  obtain ⟨⟨done, p₃, parent₃⟩, hsync, h⟩ := bind_eq_ok.mp h
  obtain rfl := syncDirEntry_true hsync
  obtain ⟨p₄, hp₄, h⟩ := bind_eq_ok.mp h
  obtain ⟨p₅, hp₅, h⟩ := bind_eq_ok.mp h
  cases h
  obtain ⟨nonzero, free⟩ := fsck.unallocated hfree
  have enters : Enters up n ⟨d, name, ftRegular⟩ :=
    ⟨nonzero, free, hn, dir, valid, proper, unused, .inl rfl⟩
  have slots {q : Part sb} (k : Nat) : slot q (inodeInit n) k = 0 := by
    rw [slot_noTable rfl]
    split <;> rfl
  have fits : (inodeInit n).Fits :=
    ⟨hn, show 0 < 2 ^ 32 by decide, fun _ _ => show 0 < 2 ^ 32 by decide⟩
  have prep : Prepared p (inodeInit n) (p.setInode n true) := by
    refine ⟨rfl, fun b => ⟨.inl, fun hb => hb.resolve_right ?_⟩, fun b => ?_,
      ⟨fun i _ hi => ?_, fun i hi => ?_⟩, fun _ => moves_setInode,
      fun on => on.setInode n true, rfl, fits⟩
    · rintro ⟨hb, k, rfl⟩
      exact hb (slots k)
    · rintro ⟨hb, k, rfl⟩
      exact absurd (slots k) hb
    · exact absurd (slots i) hi
    · exact absurd (slots i) hi
  have newDisk := (filed hp₄ hp₅).new fits
  obtain ⟨fsck', like', same⟩ := fsck.enter enters like room prep hde hsync (filed hp₄ hp₅)
    (fun e => absurd e (show ftRegular ≠ ftDirectory by decide)) fun _ root => by
    rw [newDisk]
    exact ⟨.inl ⟨hn, rfl, fun k hk => if_pos hk, root⟩,
      fun k _ _ => by rw [(inodeInit n).alike_pure.slot, slots]⟩
  exact ⟨enters, rfl, fsck', like', same, newDisk⟩

/-! ## Writing to a file -/

/-- After a write the file's inode is on the disk. -/
theorem fileWrite_synced {inode : Inode} (file : IsFile p inode)
    (like : Alike inode (diskInode p inode.iNo)) {heap : Bool} {fdPos count : Nat} {src : Buf}
    {r : FileResult sb Nat} (h : fileWrite heap p inode fdPos src count = .ok r) :
    Alike r.inode (diskInode r.part inode.iNo) := by
  have hsmall := file.small
  unfold sectorSize at hsmall
  have effect := fileWrite_effect file.books (by omega) h
  have hiNo : inode.iNo < 4096 := by
    rcases file with fresh | shaped
    · exact fresh.iNo
    · exact shaped.iNo
  cases fileWrite_answer (by omega) h with
  | failed _ => exact like
  | wrote fits hsize _ _ =>
  have fit : r.inode.Fits := by
    refine ⟨by rwa [effect.iNo], effect.iSize (by omega), fun k hk => effect.books.sector_lt hk⟩
  unfold fileWrite at h
  split at h
  · cases h
    exact like
  split at h
  · cases h
    exact like
  obtain ⟨_, hfirst, h⟩ := bind_eq_ok.mp h
  obtain ⟨p₁, inode₁, rfl, -⟩ := firstBlock_iSize hfirst
  dsimp only at h
  unfold writeGrown at h
  dsimp only at h
  obtain ⟨_, _, h⟩ := bind_eq_ok.mp h
  obtain ⟨⟨b, g⟩, hcollect, h⟩ := bind_eq_ok.mp h
  obtain ⟨rfl, -, -⟩ := collectForWrite_rest hcollect
  dsimp only at h
  obtain ⟨s, _, h⟩ := bind_eq_ok.mp h
  obtain ⟨p₂, hsync, h⟩ := bind_eq_ok.mp h
  cases h
  have synced := (inodeReplace_inv hsync).2.diskInode_self fit
  rw [← effect.iNo, synced]
  exact (Inode.alike_pure _).symm

/-- What a write makes of the bytes of a file. -/
def appended (data : List Byte) (src : Buf) (ret : Option Nat) : List Byte :=
  data ++ bytesOf src (ret.getD 0)

theorem IsFile.write_contents {inode : Inode} (file : IsFile p inode) {heap : Bool}
    {fdPos count : Nat} {src : Buf} {r : FileResult sb Nat}
    (h : fileWrite heap p inode fdPos src count = .ok r) :
    contents r.part r.inode = appended (contents p inode) src r.ret := by
  have hsmall := file.small
  unfold sectorSize at hsmall
  cases heap with
  | false =>
    rw [fileWrite_noHeap] at h
    cases h
    exact (List.append_nil _).symm
  | true =>
    cases fileWrite_answer (by omega) h with
    | failed _ => exact (List.append_nil _).symm
    | wrote fits _ _ hret =>
      rw [hret, (file.write_ok fits h).contents]
      rfl

/-- A WRITE keeps the partition in order, and appends to the file. -/
theorem Fsck.write (fsck : Fsck aside p up) (hung : up n = some h) (regular : h.kind = ftRegular)
    {inode : Inode} (like : Alike inode (diskInode p n)) {heap : Bool} {fdPos count : Nat}
    {src : Buf} {r : FileResult sb Nat} (hw : fileWrite heap p inode fdPos src count = .ok r) :
    Fsck aside r.part up ∧ Alike r.inode (diskInode r.part n) ∧ Others up n p r.part ∧
      contents r.part (diskInode r.part n) = appended (contents p (diskInode p n)) src r.ret := by
  have hereN := here_of hung
  obtain ⟨file, snug⟩ := fsck.files n h hung regular
  replace file := file.alike fsck.rootTaken like
  replace snug : Snug p inode := snug.congr like.slot like.iSize
  have hno : inode.iNo = n := like.iNo.trans (fsck.numbered n hereN)
  have hsmall := file.small
  unfold sectorSize at hsmall
  have effect := fileWrite_effect file.books (by omega) hw
  obtain ⟨orderly, snug'⟩ := fileWrite_orderly file snug hw
  have file' := file.write_keeps hw
  have like' : Alike r.inode (diskInode r.part n) := by
    have synced := fileWrite_synced file (by rwa [hno]) hw
    rwa [hno] at synced
  have others {m : Nat} (hm : up.Here m) (hmn : m ≠ n) : diskInode r.part m = diskInode p m ∧
      Kept p (diskInode p m) r.part := by
    refine fsck.others (S := (· = n)) (effect.moves hno fun b hb => ?_) hm hmn hmn
    rw [like.slot] at hb
    exact fsck.spare hereN hb
  have ledger : Ledger up.Here (Taken r.part) aside fun m => slot r.part (diskInode r.part m) := by
    refine fsck.ledger.regrant hereN ?_ ?_ fun m hm hmn => ?_
    · rw [← like.slot, ← like'.slot]
      exact effect.regrants
    · rw [← like.slot, ← like'.slot]
      exact orderly.settles
    · rw [(others hm hmn).1, (others hm hmn).2.slot]
  have hn0 := fsck.tree.ne_root hung
  have hroot : slot r.part (diskInode r.part 0) 0 = sb.dataStartLba := by
    obtain ⟨e, kept⟩ := others (.inl rfl) hn0.symm
    rw [e, kept.slot]
    exact fsck.root
  have rootTaken := root_taken ledger hroot
  refine ⟨⟨fsck.tree, fsck.hung, fun m => ?_, fun m hm => ?_, ledger, fun m hm => ?_,
    fun m g hm hg => ?_, hroot, ?_⟩, like',
    ⟨fun m hm hmn => (others hm hmn).1, fun m g hm hg hmn => ?_⟩, ?_⟩
  · rw [effect.inodeBitmap]
    exact fsck.allocated m
  · by_cases hmn : m = n
    · rw [hmn, ← like'.iNo, effect.iNo, hno]
    · rw [(others hm hmn).1]
      exact fsck.numbered m hm
  · obtain ⟨map, acc, lists⟩ := fsck.dirs m hm
    obtain ⟨e, kept⟩ := others hm.here fun e => fsck.not_dir hung regular (e ▸ hm)
    rw [e]
    exact ⟨map, kept.accounted acc, lists⟩
  · by_cases hmn : m = n
    · subst hmn
      exact ⟨file'.alike rootTaken like'.symm, snug'.congr like'.symm.slot like'.symm.iSize⟩
    · obtain ⟨e, kept⟩ := others (here_of hm) hmn
      obtain ⟨file, snug⟩ := fsck.files m g hm hg
      rw [e]
      exact ⟨kept.isFile file rootTaken, snug.congr kept.slot rfl⟩
  · rw [effect.inodeBitmap]
    exact orderly.onDisk fsck.onDisk
  · obtain ⟨e, kept⟩ := others (here_of hm) hmn
    rw [e]
    exact kept.contents (fsck.files m g hm hg).1
  · rw [← like'.contents, ← like.contents]
    exact file.write_contents hw

end SeekingOs.Fs
