import SeekingOs.Fs.DirEffect
import SeekingOs.Lib.Machine

/-!
# No cross-linked blocks

The inodes that are allocated own blocks: the ones in `i_sectors`, the indirect table
included, and the ones in the table. An open inode is the one in memory, any other the one in
the inode table on the disk.

`file_write`, `sync_dir_entry`, `delete_dir_entry` and `inode_realse` are called in any order. Each
regrants the blocks of one inode and writes no sector of another, so blocks that had one
owner, and one place at that owner, still do.
-/

namespace SeekingOs.Fs

open Lib

variable {sb : SuperBlock}

/-- The mounted volume: the partition and the inodes in `open_inodes`, by number. -/
structure Volume (sb : SuperBlock) where
  part : Part sb
  openInodes : Nat → Option Inode

namespace Volume

variable (v : Volume sb)

/-- The inode with a number: in memory if it is open, else on the disk. -/
def inode (n : Nat) : Inode := (v.openInodes n).getD (diskInode v.part n)

/-- The inode is allocated. -/
def Live (n : Nat) : Prop := v.part.inodeBitmap.test n = true

/-- The blocks of an inode. -/
def blocks (n : Nat) : Nat → Nat := slot v.part (v.inode n)

/-- An inode owns a block. -/
def Owns (n b : Nat) : Prop := Holds (v.blocks n) b

/-- An open inode has changed, and the partition with it. -/
def put (n : Nat) (p : Part sb) (inode : Inode) : Volume sb :=
  ⟨p, Function.update v.openInodes n (some inode)⟩

/-- `inode_open`: an inode in `open_inodes` is counted once more, any other is loaded. -/
def inodeOpen (n : Nat) : Except Fault Inode :=
  match v.openInodes n with
  | some inode => return { inode with iOpenCnts := u32 (inode.iOpenCnts + 1) }
  | none => do
    let _ ← inodeLocate sb n
    return { diskInode v.part n with iOpenCnts := 1 }

/-- `inode_close`: with its last user the inode leaves `open_inodes`. -/
def inodeClose (n : Nat) (p : Part sb) (inode : Inode) : Volume sb :=
  let openCnts := u32 (inode.iOpenCnts - 1)
  ⟨p, Function.update v.openInodes n (if openCnts = 0 then none
    else some { inode with iOpenCnts := openCnts })⟩

end Volume

/-- The calls, each with the number of the inode it works on. -/
inductive BlockCall where
  | fileWrite (n : Nat) (heap : Bool) (fdPos : Nat) (src : Buf) (count : Nat)
  | syncDirEntry (n : Nat) (pDe ioBuf : Buf)
  | deleteDirEntry (n inodeNo : Nat)
  | inodeRealse (n : Nat)

namespace BlockCall

/-- The inode that the call works on. -/
def target : BlockCall → Nat
  | .fileWrite n _ _ _ _ => n
  | .syncDirEntry n _ _ => n
  | .deleteDirEntry n _ => n
  | .inodeRealse n => n

/-- The call is given an open inode. -/
def NeedsOpen : BlockCall → Prop
  | .inodeRealse _ => False
  | _ => True

/-- What a call with an open inode does to the partition and to the inode. -/
def onInode (p : Part sb) (inode : Inode) : BlockCall → Except Fault (Part sb × Inode)
  | .fileWrite _ heap fdPos src count => do
    let r ← Fs.fileWrite heap p inode fdPos src count
    return (r.part, r.inode)
  | .syncDirEntry _ pDe ioBuf => do
    let (_, p, inode) ← Fs.syncDirEntry p inode pDe ioBuf
    return (p, inode)
  | .deleteDirEntry _ inodeNo => do
    let (_, p, inode) ← Fs.deleteDirEntry p inode inodeNo
    return (p, inode)
  | .inodeRealse _ => return (p, inode)

end BlockCall

/-- `inode_realse`, with the opening and the closing of the inode. -/
def Volume.inodeRealse (v : Volume sb) (n : Nat) : Except Fault (Volume sb) := do
  let inode2del ← v.inodeOpen n
  let p ← Fs.inodeRealse v.part inode2del n
  return v.inodeClose n p inode2del

/-- What a call does to the volume. -/
def Volume.call (v : Volume sb) (e : BlockCall) : Except Fault (Volume sb) :=
  match e with
  | .inodeRealse n => v.inodeRealse n
  | e => do
    let (p, inode) ← e.onInode v.part (v.inode e.target)
    return v.put e.target p inode

/-- The calls of the file system that allocate and free blocks, on allocated inodes. A step answers
the sectors that it has written. -/
def blockMachine (sb : SuperBlock) : Machine (Volume sb) BlockCall (List Nat) Fault where
  enabled v e := v.Live e.target ∧ (e.NeedsOpen → ∃ inode, v.openInodes e.target = some inode)
  step v e := do
    let v' ← v.call e
    return (v', v'.part.written.drop v.part.written.length)

/-! ## The invariant -/

/-- Every block of an allocated inode is taken, and held in one place of one inode. -/
abbrev Volume.Unshared (v : Volume sb) : Prop := Exclusive v.Live (Taken v.part) v.blocks

/-- The inodes in `open_inodes` are found by their numbers; their sizes are 32-bit numbers. -/
def Volume.Keyed (v : Volume sb) : Prop :=
  ∀ n inode, v.openInodes n = some inode → inode.iNo = n ∧ inode.iSize < 2 ^ 32

variable {v v' : Volume sb} {n : Nat}

theorem Volume.inode_open {inode : Inode} (h : v.openInodes n = some inode) :
    v.inode n = inode := by
  unfold Volume.inode
  rw [h]
  rfl

theorem Volume.inode_closed (h : v.openInodes n = none) : v.inode n = diskInode v.part n := by
  unfold Volume.inode
  rw [h]
  rfl

theorem Volume.put_self {p : Part sb} {inode : Inode} :
    (v.put n p inode).openInodes n = some inode :=
  Function.update_self _ _ _

theorem Volume.put_other {m : Nat} {p : Part sb} {inode : Inode} (h : m ≠ n) :
    (v.put n p inode).openInodes m = v.openInodes m := Function.update_of_ne h _ _

theorem Volume.inodeClose_self {p : Part sb} {inode i : Inode}
    (h : (v.inodeClose n p inode).openInodes n = some i) :
    i = { inode with iOpenCnts := i.iOpenCnts } := by
  have heq : (v.inodeClose n p inode).openInodes n =
      if u32 (inode.iOpenCnts - 1) = 0 then none
        else some { inode with iOpenCnts := u32 (inode.iOpenCnts - 1) } :=
    Function.update_self _ _ _
  rw [heq] at h
  split at h
  · cases h
  · cases h
    rfl

theorem Volume.inodeClose_other {m : Nat} {p : Part sb} {inode : Inode} (h : m ≠ n) :
    (v.inodeClose n p inode).openInodes m = v.openInodes m := Function.update_of_ne h _ _

theorem Volume.Keyed.iSize (keyed : v.Keyed) (n : Nat) : (v.inode n).iSize < 2 ^ 32 := by
  cases h : v.openInodes n with
  | some i =>
    rw [Volume.inode_open h]
    exact (keyed n i h).2
  | none =>
    rw [Volume.inode_closed h]
    exact rd32_lt _ _

theorem Volume.Live.lt (h : v.Live n) : n < 4096 := by
  by_contra hge
  have :=
    test_eq_false_of_size_le (show v.part.inodeBitmap.size ≤ n by rw [v.part.inodeSize]; omega)
  rw [Volume.Live, this] at h
  cases h

/-- What an operation on one inode may write is no block of another. -/
theorem Volume.Unshared.foreign (un : v.Unshared) (hn : v.Live n) {m : Nat} (hm : v.Live m)
    (hmn : m ≠ n) {lba : Nat} (h : BitmapSector sb lba ∨ TableSector sb lba ∨ lba = 0 ∨
      Own v.part (v.inode n) lba) : ¬ v.Owns m lba := by
  rintro ⟨hne, k, hk⟩
  have htaken : Taken v.part lba := hk ▸ (un.books m hm).taken k (hk ▸ hne)
  have hstart := htaken.1
  rcases h with h | h | h | h
  · have := h.lt
    omega
  · exact not_table_of_le hstart h
  · exact hne h
  · rcases h.2 with hold | free
    · exact un.apart m n hm hn hmn lba ⟨hne, k, hk⟩ hold
    · exact free htaken

/-- THE FRAME. Another allocated inode keeps its slots. -/
theorem Volume.Unshared.blocks_other (un : v.Unshared) (hn : v.Live n) {m : Nat} (hm : v.Live m)
    (hmn : m ≠ n) (touches : Touches v.part n (Own v.part (v.inode n)) v'.part)
    (same : v'.openInodes m = v.openInodes m) : v'.blocks m = v.blocks m := by
  obtain ⟨W, hw, hW⟩ := touches.written
  have hinode : v'.inode m = v.inode m := by
    unfold Volume.inode
    rw [same, touches.inodes m hm.lt hmn]
  unfold Volume.blocks
  rw [hinode]
  refine funext (hw.slot ?_)
  by_cases h0 : (v.inode m).iSectors 12 = 0
  · exact .inr h0
  · exact .inl fun hmem => un.foreign hn hm hmn (hW _ hmem) ⟨h0, 140, slot_table⟩

/-- A call that regrants the blocks of an open inode. -/
theorem Volume.Unshared.effect (un : v.Unshared) (hn : v.Live n) {inode inode' : Inode}
    {p' : Part sb} (hopen : v.openInodes n = some inode) (hno : inode.iNo = n)
    (eff : Effect v.part inode p' inode') : (v.put n p' inode').Unshared := by
  have hinode := Volume.inode_open hopen
  have hinode' : (v.put n p' inode').inode n = inode' :=
    Volume.inode_open (Function.update_self _ _ _)
  have hlive : (v.put n p' inode').Live = v.Live := by
    ext m
    unfold Volume.Live Volume.put
    rw [eff.inodeBitmap]
  rw [Volume.Unshared, hlive]
  refine un.regrant hn ?_ fun m hm hmn =>
    un.blocks_other hn hm hmn ?_ (Function.update_of_ne hmn _ _)
  · unfold Volume.blocks
    rw [hinode, hinode']
    exact eff.regrants
  · rw [hinode, ← hno]
    exact eff.touches

/-- The effect of a call on an open inode. -/
theorem BlockCall.onInode_effect {e : BlockCall} {p p' : Part sb} {inode inode' : Inode}
    (books : InOrder p inode) (hsize : inode.iSize < 2 ^ 32)
    (h : e.onInode p inode = .ok (p', inode')) : Effect p inode p' inode' := by
  cases e with
  | fileWrite n heap fdPos src count =>
    obtain ⟨r, hr, h⟩ := bind_eq_ok.mp h
    cases h
    exact fileWrite_effect books hsize hr
  | syncDirEntry n pDe ioBuf =>
    obtain ⟨⟨b, _, _⟩, hr, h⟩ := bind_eq_ok.mp h
    cases h
    exact syncDirEntry_effect books hr
  | deleteDirEntry n inodeNo =>
    obtain ⟨⟨b, _, _⟩, hr, h⟩ := bind_eq_ok.mp h
    cases h
    exact deleteDirEntry_effect books hr
  | inodeRealse n =>
    cases h
    exact books.effect_refl

/-! ## One call -/

/-- What every call leaves behind. -/
structure Volume.After (v : Volume sb) (n : Nat) (v' : Volume sb) : Prop where
  unshared : v'.Unshared
  keyed : v'.Keyed
  touches : Touches v.part n (Own v.part (v.inode n)) v'.part

theorem Volume.after_effect (un : v.Unshared) (keyed : v.Keyed) (hn : v.Live n)
    {inode inode' : Inode} {p' : Part sb} (hopen : v.openInodes n = some inode)
    (eff : Effect v.part inode p' inode') : v.After n (v.put n p' inode') := by
  obtain ⟨hno, hsize⟩ := keyed n inode hopen
  refine ⟨un.effect hn hopen hno eff, fun m i hm => ?_, ?_⟩
  · by_cases hmn : m = n
    · subst hmn
      rw [Volume.put_self] at hm
      cases hm
      exact ⟨eff.iNo.trans hno, eff.iSize hsize⟩
    · rw [Volume.put_other hmn] at hm
      exact keyed m i hm
  · rw [Volume.inode_open hopen, ← hno]
    exact eff.touches

theorem Volume.inodeOpen_ok {inode : Inode} (h : v.inodeOpen n = .ok inode) :
    inode = { v.inode n with iOpenCnts := inode.iOpenCnts } := by
  unfold Volume.inodeOpen at h
  cases hopen : v.openInodes n with
  | some i =>
    rw [hopen] at h
    cases h
    rw [Volume.inode_open hopen]
  | none =>
    rw [hopen] at h
    obtain ⟨_, _, h⟩ := bind_eq_ok.mp h
    cases h
    rw [Volume.inode_closed hopen]

/-- `inode_realse` releases the inode that it has opened. -/
theorem Volume.inodeRealse_inv (books : InOrder v.part (v.inode n)) (h : v.inodeRealse n = .ok v') :
    ∃ inode p', inode = { v.inode n with iOpenCnts := inode.iOpenCnts } ∧ inode.iNo = n ∧ n < 4096 ∧
      Realsed v.part inode p' ∧ v' = v.inodeClose n p' inode := by
  obtain ⟨inode, hopen, h⟩ := bind_eq_ok.mp h
  obtain ⟨p', hrealse, h⟩ := bind_eq_ok.mp h
  have hinode := Volume.inodeOpen_ok hopen
  have hslots : slot v.part inode = slot v.part (v.inode n) := by
    rw [hinode]
    exact funext (slot_congr fun _ _ => rfl)
  have books' : InOrder v.part inode := by
    unfold InOrder
    rw [hslots]
    exact books
  obtain ⟨hno, hlt, realsed⟩ := inodeRealse_ok books' hrealse
  cases h
  exact ⟨inode, p', hinode, hno, hlt, realsed, rfl⟩

/-- The released inode is live no more. -/
theorem Volume.realse_live (books : InOrder v.part (v.inode n))
    (h : v.inodeRealse n = .ok v') (m : Nat) : v'.Live m ↔ v.Live m ∧ m ≠ n := by
  obtain ⟨inode, p', -, hno, hlt, realsed, rfl⟩ := Volume.inodeRealse_inv books h
  have hbits : (v.inodeClose n p' inode).part.inodeBitmap =
      bitmapSet v.part.inodeBitmap n false := by
    rw [← hno]
    exact realsed.inodeBitmap
  unfold Volume.Live
  rw [hbits, test_bitmapSet (by rw [v.part.inodeSize]; omega)]
  by_cases hmn : m = n
  · simp [hmn]
  · simp [hmn]

theorem Volume.after_realse (un : v.Unshared) (keyed : v.Keyed) (hn : v.Live n)
    (h : v.inodeRealse n = .ok v') : v.After n v' := by
  have hlive := Volume.realse_live (un.books n hn) h
  obtain ⟨inode, p', hinode, hno, -, realsed, rfl⟩ := Volume.inodeRealse_inv (un.books n hn) h
  have hslots : slot v.part inode = v.blocks n := by
    rw [hinode]
    exact funext (slot_congr fun _ _ => rfl)
  have htouches : Touches v.part n (Own v.part (v.inode n)) p' := by
    have hown : Own v.part inode = Own v.part (v.inode n) := by
      unfold Own
      rw [hslots]
      rfl
    rw [← hown, ← hno]
    exact realsed.touches
  refine ⟨un.retire hn hlive (fun b hb hno' => ?_) fun m hm => ?_, fun m i hm => ?_, htouches⟩
  · refine (realsed.taken b).mpr ⟨hb, ?_⟩
    rw [hslots]
    exact hno'
  · obtain ⟨hm, hmn⟩ := (hlive m).mp hm
    exact un.blocks_other hn hm hmn htouches (Volume.inodeClose_other hmn)
  · by_cases hmn : m = n
    · subst hmn
      rw [Volume.inodeClose_self hm]
      refine ⟨hno, ?_⟩
      rw [hinode]
      exact keyed.iSize m
    · rw [Volume.inodeClose_other hmn] at hm
      exact keyed m i hm

/-- THE STEP LEMMA. -/
theorem Volume.after_call (un : v.Unshared) (keyed : v.Keyed) {e : BlockCall}
    (en : (blockMachine sb).enabled v e) (h : v.call e = .ok v') : v.After e.target v' := by
  have opened (hneeds : e.NeedsOpen) {p' : Part sb} {inode' : Inode}
      (hok : e.onInode v.part (v.inode e.target) = .ok (p', inode')) :
        v.After e.target (v.put e.target p' inode') := by
    obtain ⟨inode, hopen⟩ := en.2 hneeds
    rw [Volume.inode_open hopen] at hok
    refine Volume.after_effect un keyed en.1 hopen
      (BlockCall.onInode_effect ?_ (keyed _ _ hopen).2 hok)
    have := un.books _ en.1
    rwa [Volume.blocks, Volume.inode_open hopen] at this
  cases e with
  | inodeRealse n => exact Volume.after_realse un keyed en.1 h
  | fileWrite n heap fdPos src count =>
    obtain ⟨_, hok, h⟩ := bind_eq_ok.mp h
    cases h
    exact opened trivial hok
  | syncDirEntry n pDe ioBuf =>
    obtain ⟨_, hok, h⟩ := bind_eq_ok.mp h
    cases h
    exact opened trivial hok
  | deleteDirEntry n inodeNo =>
    obtain ⟨_, hok, h⟩ := bind_eq_ok.mp h
    cases h
    exact opened trivial hok

/-- The sectors that a call writes are no blocks of the other allocated inodes. -/
theorem Volume.After.written (after : v.After n v') (un : v.Unshared) (hn : v.Live n) {m : Nat}
    (hm : v.Live m) (hmn : m ≠ n) {lba : Nat}
    (h : lba ∈ v'.part.written.drop v.part.written.length) : ¬ v.Owns m lba := by
  obtain ⟨W, hw, hW⟩ := after.touches.written
  rw [hw.log, List.drop_left] at h
  exact un.foreign hn hm hmn (hW lba h)

theorem blockMachine_keep {e : BlockCall} {o : List Nat} (inv : v.Unshared ∧ v.Keyed)
    (en : (blockMachine sb).enabled v e) (h : (blockMachine sb).step v e = .ok (v', o)) :
    v'.Unshared ∧ v'.Keyed := by
  obtain ⟨_, hcall, h⟩ := bind_eq_ok.mp h
  cases h
  have after := Volume.after_call inv.1 inv.2 en hcall
  exact ⟨after.unshared, after.keyed⟩

/-- NO CROSS-LINKED BLOCKS. From a state where every block of an allocated inode is taken and
held in one place of one inode, every run of the calls leads to such a state, and no call of
the run has written a block of an inode other than its own. -/
theorem no_cross_linked_blocks (v₀ v : Volume sb)
    (tr : List (Entry (Volume sb) BlockCall (List Nat))) (path : (blockMachine sb).Path v₀ tr v)
    (unshared : v₀.Unshared) (keyed : v₀.Keyed) :
    v.Unshared ∧ ∀ entry ∈ tr, ∀ lba ∈ entry.out, ∀ m, m ≠ entry.event.target → entry.pre.Live m →
      ¬ entry.pre.Owns m lba := by
  refine ⟨(path.invariant ⟨unshared, keyed⟩ blockMachine_keep).1.1,
    path.each ⟨unshared, keyed⟩ blockMachine_keep ?_⟩
  intro v e v' o inv en h lba hlba m hmn hm
  obtain ⟨_, hcall, h⟩ := bind_eq_ok.mp h
  cases h
  exact (Volume.after_call inv.1 inv.2 en hcall).written inv.1 en.1 hm hmn hlba

/-! ## One owner is not enough -/

/-- Every block of an allocated inode is taken and no other inode's; it may be in two places
of its inode. -/
def Volume.OneOwner (v : Volume sb) : Prop :=
  ∀ n, v.Live n → ∀ b, v.Owns n b → Taken v.part b ∧ ∀ m, v.Live m → v.Owns m b → m = n

/-- A small partition. -/
def smallDisk : SuperBlock where
  startLba := 0
  secCnt := 4000
  blockBitmapSects := 1
  fits := by decide
  holds := by decide

/-- A bitmap with all bits set. -/
def fullBitmap (n : Nat) : Bitmap := ⟨List.replicate n 255⟩

theorem size_fullBitmap (n : Nat) : (fullBitmap n).size = 8 * n := by
  unfold Bitmap.size fullBitmap
  rw [List.length_replicate]

theorem test_fullBitmap {n i : Nat} (h : i < 8 * n) : (fullBitmap n).test i = true := by
  have hlt : i / 8 < n := by omega
  have bit : ∀ j < 8, (255#8).getLsbD j = true := by decide
  unfold Bitmap.test fullBitmap
  rw [List.getD_eq_getElem?_getD, List.getElem?_replicate, if_pos hlt]
  exact bit _ (Nat.mod_lt _ (by decide))

/-- Everything is allocated, and the disk is empty. -/
def fullPart : Part smallDisk where
  disk := zeros
  blockBitmap := fullBitmap 512
  inodeBitmap := fullBitmap 512
  written := []
  blockSize := size_fullBitmap 512
  inodeSize := size_fullBitmap 512

/-- An empty file with the block 700, which may be its table too. -/
def fileOf (linked : Bool) : Inode where
  iNo := 1
  iSize := 0
  iOpenCnts := 1
  writenDeny := false
  iSectors k := if k = 0 ∨ k = 12 ∧ linked then 700 else 0

/-- The volume with this one file, open. -/
def volumeOf (linked : Bool) : Volume smallDisk :=
  ⟨fullPart, fun n => if n = 1 then some (fileOf linked) else none⟩

variable {linked : Bool}

theorem volumeOf_blocks {k : Nat} (h : (volumeOf linked).blocks n k ≠ 0) :
    n = 1 ∧ (k = 0 ∨ k = 140 ∧ linked) ∧ (volumeOf linked).blocks n k = 700 := by
  have entry (t j : Nat) : tableEntry fullPart t j = 0 := rfl
  by_cases hn : n = 1
  · subst hn
    have hinode : (volumeOf linked).inode 1 = fileOf linked := rfl
    unfold Volume.blocks at h ⊢
    rw [hinode] at h ⊢
    have hsec {j : Nat} (hj : (fileOf linked).iSectors j ≠ 0) :
        (j = 0 ∨ j = 12 ∧ linked) ∧ (fileOf linked).iSectors j = 700 := by
      unfold fileOf at hj ⊢
      dsimp only at hj ⊢
      split at hj
      next hj' => exact ⟨hj', if_pos hj'⟩
      next => exact absurd rfl hj
    by_cases h1 : k < 12
    · rw [slot_direct h1] at h ⊢
      exact ⟨rfl, .inl (by have := (hsec h).1; omega), (hsec h).2⟩
    by_cases h2 : k < 140
    · rw [slot_indirect (by omega) h2] at h
      refine absurd ?_ h
      split
      · rfl
      · exact entry _ _
    by_cases h3 : k = 140
    · subst h3
      rw [slot_table] at h ⊢
      exact ⟨rfl, .inr ⟨rfl, ((hsec h).1.resolve_left (by decide)).2⟩, (hsec h).2⟩
    · exact absurd (slot_beyond (by omega)) h
  · refine absurd ?_ h
    have hinode : (volumeOf linked).inode n = diskInode fullPart n :=
      Volume.inode_closed (if_neg hn)
    have hsec (k : Nat) : (diskInode fullPart n).iSectors k = 0 := by
      show (if k < 13 then _ else 0) = 0
      split <;> rfl
    unfold Volume.blocks
    rw [hinode]
    rw [slot_noTable (hsec 12), hsec, ite_self]

theorem volumeOf_keyed : (volumeOf linked).Keyed := by
  intro n inode h
  unfold volumeOf at h
  dsimp only at h
  split at h
  next hn =>
    cases h
    exact ⟨hn.symm, by cases linked <;> decide⟩
  next => cases h

theorem taken_fullPart : Taken fullPart 700 := ⟨by decide, test_fullBitmap (by decide)⟩

/-- The disk after four bytes were written to the file, and its inode. -/
def writtenPart : Part smallDisk :=
  ideWrite fullPart 700 (memcpy (ideRead fullPart 700 zeros 1) 0 (fun k => le32 1 (0 + k)) 4) 1

def writtenFile (linked : Bool) : Inode := { fileOf linked with iSize := 4 }

theorem fileWrite_fileOf : fileWrite true fullPart (fileOf linked) 0 (le32 1) 4 =
    (inodeSync writtenPart (writtenFile linked) zeros >>= fun p =>
      .ok ⟨p, writtenFile linked, 3, some 4⟩) := by
  cases linked <;> rfl

/-- The write, as a run of the machine. -/
theorem volumeOf_run (linked : Bool) :
    ∃ p' o, Replaced writtenPart 1 (inodeBytes (writtenFile linked)) p' ∧
    (blockMachine smallDisk).Path (volumeOf linked)
      ([] ++ [⟨volumeOf linked, .fileWrite 1 true 0 (le32 1) 4, o⟩])
      ((volumeOf linked).put 1 p' (writtenFile linked)) := by
  obtain ⟨p', hsync, hr⟩ :=
    inodeReplace_ok "inode_sync" writtenPart (n := 1) (by decide)
      (inodeBytes (writtenFile linked)) zeros
  have hwrite : fileWrite true fullPart (fileOf linked) 0 (le32 1) 4 =
      .ok ⟨p', writtenFile linked, 3, some 4⟩ := by
    rw [fileWrite_fileOf]
    unfold inodeSync
    rw [show (writtenFile linked).iNo = 1 from rfl, hsync]
    rfl
  have en : (blockMachine smallDisk).enabled (volumeOf linked) (.fileWrite 1 true 0 (le32 1) 4) :=
    ⟨test_fullBitmap (by decide), fun _ => ⟨_, rfl⟩⟩
  have st : (blockMachine smallDisk).step (volumeOf linked) (.fileWrite 1 true 0 (le32 1) 4) =
      .ok ((volumeOf linked).put 1 p' (writtenFile linked), p'.written.drop 0) := by
    show (((fileWrite true fullPart (fileOf linked) 0 (le32 1) 4 >>= _) >>= _) >>= _) = _
    rw [hwrite]
    rfl
  exact ⟨p', _, hr, .step .start en st⟩

/-- A block that has one owner, but two places there, does not stay so: when the first block of a
file is its indirect table too, the data of the file become addresses of blocks. -/
theorem one_owner_broken :
    ¬ ∀ (sb : SuperBlock) (v₀ v : Volume sb) (tr : List (Entry (Volume sb) BlockCall (List Nat))),
    (blockMachine sb).Path v₀ tr v → v₀.OneOwner → v₀.Keyed → v.OneOwner := by
  intro claim
  obtain ⟨p', o, hr, path⟩ := volumeOf_run true
  have one : (volumeOf true).OneOwner := by
    rintro n - b ⟨hb, k, rfl⟩
    refine ⟨(volumeOf_blocks hb).2.2 ▸ taken_fullPart, ?_⟩
    rintro m - ⟨_, j, hj⟩
    have hm := (volumeOf_blocks (hj ▸ hb)).1
    rw [hm, (volumeOf_blocks hb).1]
  have after := claim smallDisk _ _ _ path one volumeOf_keyed
  -- block 1 is now an indirect block of the file
  have howns : ((volumeOf true).put 1 p' (writtenFile true)).Owns 1 1 := by
    refine ⟨by decide, 12, ?_⟩
    unfold Volume.blocks
    rw [Volume.inode_open Volume.put_self, slot_indirect (by decide) (by decide),
      if_neg (by decide)]
    obtain ⟨W, hw, hm⟩ := hr.wrote
    show tableEntry p' 700 0 = 1
    rw [hw.tableEntry (fun h => not_table_of_le (by decide) (hm 700 h)) (by decide)]
    rfl
  have hlive : ((volumeOf true).put 1 p' (writtenFile true)).Live 1 := by
    show p'.inodeBitmap.test 1 = true
    rw [hr.inodeBitmap]
    exact test_fullBitmap (by decide)
  have hstart : 612 ≤ 1 := (after 1 hlive 1 howns).1.1
  omega

theorem volumeOf_unshared : (volumeOf false).Unshared := by
  have place {n k : Nat} (h : (volumeOf false).blocks n k ≠ 0) : n = 1 ∧ k = 0 ∧
      (volumeOf false).blocks n k = 700 := by
    obtain ⟨hn, hk, h700⟩ := volumeOf_blocks h
    exact ⟨hn, hk.resolve_right fun h => Bool.false_ne_true h.2, h700⟩
  refine ⟨fun n _ => ⟨fun i j hi heq => ?_, fun i hi => ?_⟩, ?_⟩
  · have hj := (place (heq ▸ hi)).2.1
    rw [hj, (place hi).2.1]
  · rw [(place hi).2.2]
    exact taken_fullPart
  · rintro n m - - hne b ⟨hb, i, rfl⟩ ⟨_, j, hj⟩
    exact hne ((place hb).1.trans (place (hj ▸ hb)).1.symm)

/-- The theorem at a run of one call: four bytes are written to a file with one block. -/
theorem no_cross_linked_blocks_write : ∃ v tr, tr.length = 1 ∧
    (v : Volume smallDisk).Unshared ∧
    ∀ entry ∈ (tr : List (Entry (Volume smallDisk) BlockCall (List Nat))),
      ∀ lba ∈ entry.out, ∀ m, m ≠ entry.event.target → entry.pre.Live m →
        ¬ entry.pre.Owns m lba := by
  obtain ⟨p', o, -, path⟩ := volumeOf_run false
  exact ⟨_, _, rfl, no_cross_linked_blocks _ _ _ path volumeOf_unshared volumeOf_keyed⟩

end SeekingOs.Fs
