import SeekingOs.Fs.Lookup

/-!
# What `sys_unlink` removes

The file that the search has found goes: its entry in the directory that is still open, its blocks
and its inode. `Removed` says what stays.
-/

namespace SeekingOs.Fs

open Lib

variable {sb : SuperBlock} {v v' v₁ v₂ : Volume sb} {p p' : Part sb} {inode inode' : Inode}
  {d i n m : Nat} {ref : DirRef}

/-- The file system is in order: the directories make a tree, what they lead to is allocated, and no
two inodes share a block. `.` is in the block of `..`. -/
structure Consistent (v : Volume sb) : Prop extends Tree v where
  unshared : v.Unshared
  keyed : v.Keyed
  rootDots : ∀ name, name = dotName ∨ name = dotDotName → ∃ e, v.lookup 0 name = some e ∧
    e.iNo = 0 ∧ e.fType = ftDirectory
  liveDir : ∀ i, IsDir v i → v.Live i
  liveEntry : ∀ i, IsDir v i → ∀ name e, ValidName name → v.lookup i name = some e → v.Live e.iNo
  files : ∀ i, IsDir v i → ∀ name e, ValidName name → v.lookup i name = some e →
    e.fType = ftRegular → ¬ IsDir v e.iNo
  dots : ∀ i, IsDir v i → ∀ k j, (entries v.part (v.inode i) (k, j)).fType ≠ 0 →
    (entries v.part (v.inode i) (k, j)).name = dotDotName →
    ∃ j', (entries v.part (v.inode i) (k, j')).fType ≠ 0 ∧
      (entries v.part (v.inode i) (k, j')).name = dotName

/-- An inode and all of its blocks are what they were. -/
structure Untouched (v : Volume sb) (m : Nat) (v' : Volume sb) : Prop where
  inode : v'.inode m = v.inode m
  blocks : v'.blocks m = v.blocks m
  content : ∀ k, v.blocks m k ≠ 0 → ∀ off < 512,
    v'.part.disk (sectorSize * v.blocks m k + off) = v.part.disk (sectorSize * v.blocks m k + off)

/-- File `i` is gone from directory `d`, and nothing else is. -/
structure Removed (v : Volume sb) (d i : Nat) (v' : Volume sb) : Prop where
  live : ∀ m, v'.Live m ↔ v.Live m ∧ m ≠ i
  others : ∀ m, v.Live m → m ≠ i → m ≠ d → Untouched v m v'
  entries : ∀ c, (entries v.part (v.inode d) c).fType ≠ 0 → (entries v.part (v.inode d) c).iNo ≠ i →
    entries v'.part (v'.inode d) c = entries v.part (v.inode d) c

/-! ## Frames -/

theorem Untouched.trans (h : Untouched v m v₁) (h' : Untouched v₁ m v₂) : Untouched v m v₂ where
  inode := h'.inode.trans h.inode
  blocks := h'.blocks.trans h.blocks
  content k hk off hoff := by
    have second := h'.content k (by rw [h.blocks]; exact hk) off hoff
    rw [h.blocks] at second
    exact second.trans (h.content k hk off hoff)

/-- The entries of an inode that is untouched. -/
theorem Untouched.entries (h : Untouched v m v') (c : Cell) :
    entries v'.part (v'.inode m) c = entries v.part (v.inode m) c := by
  have slots : slot v'.part (v'.inode m) = slot v.part (v.inode m) := h.blocks
  unfold Fs.entries
  rw [slots]
  split
  next hc =>
    refine dirEntryAt_congr fun k hk => h.content c.1 hc.2.2 _ ?_
    have := hc.2.1
    unfold dirEntrysPerSec at this
    unfold dirEntrySize
    omega
  next => rfl

/-- A call on one inode leaves every other allocated inode alone. -/
theorem Volume.After.untouched (after : v.After n v') (un : v.Unshared) (hn : v.Live n)
    (hm : v.Live m) (hmn : m ≠ n) (same : v'.openInodes m = v.openInodes m) : Untouched v m v' where
  inode := by
    unfold Volume.inode
    rw [same, after.touches.inodes m hm.lt hmn]
  blocks := un.blocks_other hn hm hmn after.touches same
  content k hk off hoff := by
    obtain ⟨W, hw, hW⟩ := after.touches.written
    exact hw.sector (fun hmem => un.foreign hn hm hmn (hW _ hmem) ⟨hk, k, rfl⟩) hoff

/-- The number of users of an inode is no business of the blocks. -/
theorem untouched_held (ref : DirRef) (hm : m ≠ ref.inodeNo ∨ ref = .root) :
    Untouched v m (v.held ref) := by
  have inode : (v.held ref).inode m = v.inode m := by
    cases ref with
    | root => rfl
    | opened n =>
      have other : m ≠ n := hm.resolve_right nofun
      unfold Volume.inode
      rw [show (v.held (.opened n)).openInodes m = v.openInodes m from Volume.put_other other,
        Volume.held_part]
  refine ⟨inode, ?_, fun k hk off hoff => ?_⟩
  · unfold Volume.blocks
    rw [inode, Volume.held_part]
  · rw [Volume.held_part]

theorem untouched_dirClose (ref : DirRef) (hm : m ≠ ref.inodeNo ∨ ref = .root) :
    Untouched v m (v.dirClose ref) := by
  cases ref with
  | root => exact ⟨rfl, rfl, fun _ _ _ _ => rfl⟩
  | opened n =>
    have other : m ≠ n := hm.resolve_right nofun
    have inode : (v.dirClose (.opened n)).inode m = v.inode m := by
      unfold Volume.inode
      rw [show (v.dirClose (.opened n)).openInodes m = v.openInodes m from
        Volume.inodeClose_other other]
      rfl
    refine ⟨inode, ?_, fun k hk off hoff => rfl⟩
    unfold Volume.blocks
    rw [inode]
    rfl

/-! ## The directory -/

/-- After a deletion the directory's inode is on the disk. -/
theorem deleteDirEntry_synced (books : InOrder p inode) (hno : inode.iNo < 4096)
    (hsize : inode.iSize < 2 ^ 32) (h : deleteDirEntry p inode n = .ok (true, p', inode')) :
    diskInode p' inode'.iNo = inode'.pure := by
  have eff := deleteDirEntry_effect books h
  have fits : inode'.Fits := by
    refine ⟨by rw [eff.iNo]; exact hno, eff.iSize hsize, fun k hk => ?_⟩
    have held : ∃ j, slot p' inode' j = inode'.iSectors k := by
      by_cases hk12 : k < 12
      · exact ⟨k, slot_direct hk12⟩
      · exact ⟨140, by rw [slot_table, show k = 12 by omega]⟩
    obtain ⟨j, hj⟩ := held
    by_cases h0 : inode'.iSectors k = 0
    · rw [h0]
      decide
    · have taken := eff.books.taken j (by rw [hj]; exact h0)
      rw [hj] at taken
      exact taken.lt_u32
  obtain ⟨k, hk, hne, s, found, -, -, h⟩ := deleteBlocks_ok h
  unfold deleteFound at h
  obtain ⟨_, _, h⟩ := bind_eq_ok.mp h
  obtain ⟨⟨p₁, inode₁⟩, _, h⟩ := bind_eq_ok.mp h
  obtain ⟨_, _, h⟩ := bind_eq_ok.mp h
  obtain ⟨p₂, hsync, h⟩ := bind_eq_ok.mp h
  cases h
  exact (inodeReplace_inv hsync).2.diskInode_self fits

/-- A deletion leaves the other entries in use alone. -/
theorem Deleted.entries_other (deleted : Deleted p inode n p' inode')
    (dots : ∀ k j, (entries p inode (k, j)).fType ≠ 0 → (entries p inode (k, j)).name = dotDotName →
      ∃ j', (entries p inode (k, j')).fType ≠ 0 ∧ (entries p inode (k, j')).name = dotName)
    {c : Cell} (used : (entries p inode c).fType ≠ 0) (other : (entries p inode c).iNo ≠ n) :
    entries p' inode' c = entries p inode c := by
  cases deleted with
  | cleared k i j hk counted hno _ entries_eq slots =>
    rw [entries_eq, Function.update_of_ne]
    rintro rfl
    exact other hno
  | dropped k i hk counted hno alone drop =>
    rw [drop.entries_eq, if_neg]
    rintro rfl
    obtain ⟨k, j⟩ := c
    rcases alone j used with rfl | dotDot
    · exact other hno
    · obtain ⟨j', used', dot⟩ := dots k j used dotDot
      rcases alone j' used' with rfl | dotDot'
      · exact counted.2.1 dot
      · rw [dot] at dotDot'
        exact absurd dotDot' (by decide)

/-! ## The directory that is open -/

theorem Volume.held_blocks (ref : DirRef) : (v.held ref).blocks = v.blocks := by
  funext m
  unfold Volume.blocks
  rw [Volume.held_part, Volume.held_inode]
  exact slot_fields rfl

theorem held_unshared (un : v.Unshared) (ref : DirRef) : (v.held ref).Unshared := by
  have live : (v.held ref).Live = v.Live := by
    funext m
    unfold Volume.Live
    rw [Volume.held_part]
  unfold Volume.Unshared
  rw [live, Volume.held_part, Volume.held_blocks]
  exact un

theorem held_keyed (keyed : v.Keyed) (hno : (v.inode ref.inodeNo).iNo = ref.inodeNo) :
    (v.held ref).Keyed := by
  intro m inode h
  cases ref with
  | root => exact keyed m inode h
  | opened n =>
    by_cases hmn : m = n
    · subst hmn
      have self : inode = _ := Option.some.inj (h.symm.trans Volume.put_self)
      rw [self]
      exact ⟨hno, keyed.iSize m⟩
    · rw [show (v.held (.opened n)).openInodes m = v.openInodes m from Volume.put_other hmn] at h
      exact keyed m inode h

theorem held_open (root : (v.openInodes 0).isSome = true) (ref : DirRef) :
    ∃ inode, (v.held ref).openInodes ref.inodeNo = some inode := by
  cases ref with
  | root => exact Option.isSome_iff_exists.mp root
  | opened n => exact ⟨_, Volume.put_self⟩

/-- Closing the directory keeps its blocks, if it stays open or the disk knows them. -/
theorem dirClose_slots (kept : ∀ n, ref = .opened n → ∀ inode, v.openInodes n = some inode →
    u32 (inode.iOpenCnts - 1) ≠ 0 ∨ ∀ k < 13, (diskInode v.part n).iSectors k = inode.iSectors k)
    (opened : ∃ inode, v.openInodes ref.inodeNo = some inode) :
    slot (v.dirClose ref).part ((v.dirClose ref).inode ref.inodeNo) =
      slot v.part (v.inode ref.inodeNo) := by
  cases ref with
  | root => rfl
  | opened n =>
    obtain ⟨inode, hopen⟩ := opened
    change v.openInodes n = some inode at hopen
    have self : (v.dirClose (.opened n)).openInodes n =
        if u32 (inode.iOpenCnts - 1) = 0 then none
          else some { inode with iOpenCnts := u32 (inode.iOpenCnts - 1) } := by
      show (v.inodeClose n v.part (v.inode n)).openInodes n = _
      rw [Volume.inode_open hopen]
      exact Function.update_self _ _ _
    show slot v.part ((v.dirClose (.opened n)).inode n) = slot v.part (v.inode n)
    rw [Volume.inode_open hopen]
    unfold Volume.inode
    rw [self]
    split
    next gone => exact funext (slot_congr ((kept n rfl inode hopen).resolve_left fun h => h gone))
    next => exact slot_fields rfl

theorem dirClose_part (v : Volume sb) (ref : DirRef) : (v.dirClose ref).part = v.part := by
  cases ref with
  | root => rfl
  | opened n => rfl

/-! ## The removal -/

/-- After the deletion the directory's inode is on the disk, or someone else has it open too. -/
theorem deleted_kept (con : Consistent v) (dir : IsDir v n) {b : Bool}
    (hdel : deleteDirEntry v.part ((v.held (.opened n)).inode n) i = .ok (b, p, inode)) :
    u32 (inode.iOpenCnts - 1) ≠ 0 ∨ ∀ k < 13, (diskInode p n).iSectors k = inode.iSectors k := by
  have hinode : (v.held (.opened n)).inode n = _ := Volume.inode_open Volume.put_self
  rw [hinode] at hdel
  have hno : (v.inode n).iNo = n := con.iNo n dir
  cases b with
  | true =>
    have books :
        InOrder v.part
          { v.inode n with iOpenCnts := ((v.openInodes n).elim 0 (·.iOpenCnts)) + 1 } := by
      have same :
          slot v.part { v.inode n with iOpenCnts := ((v.openInodes n).elim 0 (·.iOpenCnts)) + 1 } =
            v.blocks n :=
        slot_fields rfl
      unfold InOrder
      rw [same]
      exact con.unshared.books n (con.liveDir n dir)
    have synced :=
      deleteDirEntry_synced books (by rw [hno]; exact dir.lt con.toTree) (con.keyed.iSize n) hdel
    have number : inode.iNo = n := (deleteDirEntry_effect books hdel).iNo.trans hno
    rw [number] at synced
    refine .inr fun k hk => ?_
    rw [synced]
    exact if_pos hk
  | false =>
    obtain ⟨rfl, rfl⟩ := deleteBlocks_false hdel
    cases hopen : v.openInodes n with
    | some inode =>
      obtain ⟨hpos, hlt⟩ := con.cnts n inode hopen
      refine .inl ?_
      show u32 (((some inode).elim 0 (·.iOpenCnts) + 1 : Nat) - 1) ≠ 0
      dsimp only [Option.elim]
      unfold u32
      omega
    | none =>
      refine .inr fun k _ => ?_
      show _ = (v.inode n).iSectors k
      rw [Volume.inode_closed hopen]

/-- WHAT IS LEFT after the entry and the inode are gone and the directory is closed. -/
theorem unlink_removed (con : Consistent v) (dir : IsDir v ref.inodeNo) {name : Name} {e : DirEntry}
    (valid : ValidName name) (found : v.lookup ref.inodeNo name = some e)
    (regular : e.fType = ftRegular) {b : Bool}
    (hdel : deleteDirEntry (v.held ref).part ((v.held ref).inode ref.inodeNo) e.iNo = .ok
      (b, p, inode)) (hrealse : ((v.held ref).put ref.inodeNo p inode).inodeRealse e.iNo = .ok v₂) :
    Removed v ref.inodeNo e.iNo (v₂.dirClose ref) := by
  have apart : ref.inodeNo ≠ e.iNo := fun h => con.files _ dir _ _ valid found regular (h ▸ dir)
  have un₀ := held_unshared con.unshared ref
  have keyed₀ : (v.held ref).Keyed := held_keyed con.keyed (con.iNo _ dir)
  obtain ⟨inode₀, open₀⟩ := held_open con.rootOpen ref
  have live₀ {m : Nat} (hm : v.Live m) : (v.held ref).Live m := by
    unfold Volume.Live
    rw [Volume.held_part]
    exact hm
  have hd := live₀ (con.liveDir _ dir)
  have books₀ : InOrder (v.held ref).part inode₀ := by
    have books := un₀.books _ hd
    rwa [Volume.blocks, Volume.inode_open open₀] at books
  rw [Volume.inode_open open₀] at hdel
  have eff := deleteDirEntry_effect books₀ hdel
  have after₁ := Volume.after_effect un₀ keyed₀ hd open₀ eff
  have live₁ (m : Nat) : ((v.held ref).put ref.inodeNo p inode).Live m ↔ v.Live m := by
    unfold Volume.Live
    rw [show ((v.held ref).put ref.inodeNo p inode).part = p from rfl, eff.inodeBitmap,
      Volume.held_part]
  have hi := (live₁ e.iNo).mpr (con.liveEntry _ dir _ _ valid found)
  have after₂ := Volume.after_realse after₁.unshared after₁.keyed hi hrealse
  have closed (m : Nat) (hmi : m ≠ e.iNo) :
      v₂.openInodes m = ((v.held ref).put ref.inodeNo p inode).openInodes m := by
    obtain ⟨_, _, -, -, -, -, rfl⟩ := Volume.inodeRealse_inv (after₁.unshared.books _ hi) hrealse
    exact Volume.inodeClose_other hmi
  have kept (m : Nat) (hm : v.Live m) (hmi : m ≠ e.iNo) :
      Untouched ((v.held ref).put ref.inodeNo p inode) m v₂ :=
    after₂.untouched after₁.unshared hi ((live₁ m).mpr hm) hmi (closed m hmi)
  refine ⟨fun m => ?_, fun m hm hmi hmd => ?_, fun c used other => ?_⟩
  · unfold Volume.Live
    rw [dirClose_part]
    exact (Volume.realse_live (after₁.unshared.books _ hi) hrealse m).trans
      (and_congr_left fun _ => live₁ m)
  · have first := after₁.untouched un₀ hd (live₀ hm) hmd (Volume.put_other hmd)
    exact ((untouched_held ref (.inl hmd)).trans first).trans
      ((kept m hm hmi).trans (untouched_dirClose ref (.inl hmd)))
  · have same := kept _ (con.liveDir _ dir) apart
    have open₂ : v₂.openInodes ref.inodeNo = some inode := (closed _ apart).trans Volume.put_self
    have slots : slot (v₂.dirClose ref).part ((v₂.dirClose ref).inode ref.inodeNo) =
        slot v₂.part (v₂.inode ref.inodeNo) := by
      refine dirClose_slots (fun n hn inode' hopen => ?_) ⟨inode, open₂⟩
      subst hn
      obtain rfl : inode' = inode := Option.some.inj (hopen.symm.trans open₂)
      have self : inode₀ = (v.held (.opened n)).inode n := (Volume.inode_open open₀).symm
      rw [self] at hdel
      refine (deleted_kept con dir hdel).imp_right fun disk k hk => ?_
      rw [after₂.touches.inodes n (dir.lt con.toTree) apart]
      exact disk k hk
    have before : entries (v.held ref).part inode₀ = entries v.part (v.inode ref.inodeNo) := by
      rw [Volume.held_part, ← Volume.inode_open open₀, Volume.held_inode]
      exact entries_fields rfl
    have deleted : entries p inode c = entries v.part (v.inode ref.inodeNo) c := by
      rw [← before] at used other ⊢
      cases b with
      | true =>
        refine (deleteDirEntry_deleted books₀ hdel).entries_other (fun k j => ?_) used other
        rw [before]
        exact con.dots _ dir k j
      | false =>
        obtain ⟨rfl, rfl⟩ := deleteBlocks_false hdel
        rfl
    have put : ((v.held ref).put ref.inodeNo p inode).inode ref.inodeNo = inode :=
      Volume.inode_open Volume.put_self
    have last : entries v₂.part (v₂.inode ref.inodeNo) c = entries p inode c := by
      rw [same.entries c, put]
      rfl
    rw [← deleted, ← last]
    unfold Fs.entries
    rw [slots, dirClose_part]

end SeekingOs.Fs
