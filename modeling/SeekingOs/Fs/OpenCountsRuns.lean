import SeekingOs.Fs.OpenCounts

/-!
# Inode open counts balance

`Acts base pre f post`: code that starts when the inodes in `pre`, besides those in `base`, are held
by its caller ends with those held that `post` says. Each function of the file system takes and
gives back as its caller expects, but for the two that keep a directory.
-/

namespace SeekingOs.Fs.Cached

open Lib

variable {α β : Type} {s s' s'' : InodeHeap} {f : Code α} {b : Block} {dir : Dir}
  {base pre R : List Block}

/-- The inodes in use are counted, and a new block is none of them. -/
structure Counts (s : InodeHeap) (held : List Block) : Prop where
  refs : RefCounts s.openInodes s.iOpenCnts held
  fresh : ∀ b ∈ s.openInodes, b.serial < s.next

/-- The cached inodes are left alone. -/
structure Kept (s s' : InodeHeap) : Prop where
  openInodes : s'.openInodes = s.openInodes
  iOpenCnts : s'.iOpenCnts = s.iOpenCnts
  next : s.next ≤ s'.next

theorem Kept.counts {held : List Block} (k : Kept s s') (c : Counts s held) : Counts s' held where
  refs := by
    rw [k.openInodes, k.iOpenCnts]
    exact c.refs
  fresh b hb := by
    rw [k.openInodes] at hb
    exact Nat.lt_of_lt_of_le (c.fresh b hb) k.next

/-- The slots and the root are what they were. -/
structure Still (s s' : InodeHeap) : Prop where
  slots : s'.slots = s.slots
  root : s'.rootInode = s.rootInode

theorem Still.refl (s : InodeHeap) : Still s s := ⟨rfl, rfl⟩

theorem Still.trans (a : Still s s') (c : Still s' s'') : Still s s'' :=
  ⟨c.slots.trans a.slots, c.root.trans a.root⟩

/-- What code does to the references. -/
def Acts (base pre : List Block) (f : Code α) (post : α → List Block → Prop) : Prop :=
  ∀ s, Counts s (pre ++ base) →
    Ensures (fun _ => True) (fun r => Still s r.2 ∧ ∃ held, Counts r.2 (held ++ base) ∧
      post r.1 held) (f s)

/-- The references are what they were. -/
abbrev Neutral (base pre : List Block) (f : Code α) : Prop :=
  Acts base pre f fun _ held => held = pre

variable {post : α → List Block → Prop}

theorem Acts.pure {a : α} (h : post a pre) : Acts base pre (pure a) post :=
  fun s c => ⟨.refl s, pre, c, h⟩

/-- THE SEQUENCE RULE. -/
theorem Acts.bind {g : α → Code β} {post' : β → List Block → Prop} (acts : Acts base pre f post)
    (next : ∀ a held, post a held → Acts base held (g a) post') :
    Acts base pre (f >>= g) post' := by
  intro s c
  refine Ensures.bind (acts s c) ?_
  rintro ⟨a, s₁⟩ ⟨still, held, c₁, ha⟩
  refine (next a held ha s₁ c₁).mono ?_
  rintro ⟨b, s₂⟩ ⟨still₂, rest⟩
  exact ⟨still.trans still₂, rest⟩

/-- After code that takes and gives back nothing. -/
theorem Neutral.bind {g : α → Code β} {post' : β → List Block → Prop} (acts : Neutral base pre f)
    (next : ∀ a, Acts base pre (g a) post') : Acts base pre (f >>= g) post' := by
  refine Acts.bind acts fun a held e => ?_
  rw [e]
  exact next a

theorem Acts.mono {post' : α → List Block → Prop} (acts : Acts base pre f post)
    (imp : ∀ a held, post a held → post' a held) :
    Acts base pre f post' := fun s c =>
  (acts s c).mono fun _ r => ⟨r.1, r.2.elim fun held h => ⟨held, h.1, imp _ _ h.2⟩⟩

/-- The caller's references are in no order. -/
theorem Acts.perm {pre' : List Block} (acts : Acts base pre f post) (p : pre'.Perm pre) :
    Acts base pre' f post := fun s c =>
  acts s ⟨c.refs.perm (p.append_right base), c.fresh⟩

/-- Code that leaves the cached inodes alone. -/
theorem neutral_of_kept (keeps : ∀ s, Ensures (fun _ => True) (fun r => Kept s r.2 ∧ Still s r.2)
      (f s)) : Neutral base pre f :=
  fun s c => (keeps s).mono fun _ r => ⟨r.2, pre, r.1.counts c, rfl⟩

theorem neutral_get : Neutral base pre (get : Code InodeHeap) :=
  neutral_of_kept fun s => ⟨⟨rfl, rfl, Nat.le_refl _⟩, .refl s⟩

theorem asserted_neutral (cond : Bool) (func text : String) :
    Neutral base pre (asserted cond func text) := by
  cases cond with
  | true => exact Acts.pure rfl
  | false => exact fun _ _ => trivial

theorem sysMalloc_neutral : Neutral base pre sysMalloc :=
  neutral_of_kept fun _ => ⟨⟨rfl, rfl, Nat.le_succ _⟩, rfl, rfl⟩

theorem trySysMalloc_neutral (answers : Bool) : Neutral base pre (trySysMalloc answers) := by
  cases answers with
  | true =>
    show Neutral base pre (sysMalloc >>= fun b => pure (some b))
    exact Neutral.bind sysMalloc_neutral fun _ => Acts.pure rfl
  | false => exact Acts.pure rfl

theorem sysFree_kept (b : Block) (s : InodeHeap) :
    Ensures (fun _ => True) (fun r => Kept s r.2 ∧ Still s r.2) (sysFree b s) := by
  unfold sysFree
  split
  · trivial
  · exact ⟨⟨rfl, rfl, Nat.le_refl _⟩, rfl, rfl⟩

theorem sysFree_neutral (b : Block) : Neutral base pre (sysFree b) :=
  neutral_of_kept (sysFree_kept b)

theorem inodeSync_neutral (b : Block) : Neutral base pre (inodeSync b) :=
  neutral_of_kept fun _ => ⟨⟨rfl, rfl, Nat.le_refl _⟩, rfl, rfl⟩

theorem searchDirEntry_neutral : Neutral base pre searchDirEntry := by
  unfold searchDirEntry
  refine Neutral.bind sysMalloc_neutral fun allBlocks =>
    Neutral.bind sysMalloc_neutral fun buf => ?_
  exact Neutral.bind (sysFree_neutral buf) fun _ => sysFree_neutral allBlocks

/-! ## Inodes and directories -/

/-- `inode_open` holds the inode once more, or for the first time. -/
theorem inodeOpen_acts (inodeNo : Nat) (hlen : (R ++ base).length < 2 ^ 32 - 1) :
    Acts base R (inodeOpen inodeNo) fun b held => held = b :: R := by
  intro s c
  unfold inodeOpen
  rw [get_bind]
  cases hb : s.openInodes.find? fun b => s.iNo b == inodeNo with
  | some b =>
    have hmem := List.mem_of_find?_eq_some hb
    have hle := c.refs.le hmem
    have counted := c.refs.again hmem
    rw [← show u32 ((s.iOpenCnts b : Int) + 1) = s.iOpenCnts b + 1 by unfold u32; omega] at counted
    exact ⟨⟨rfl, rfl⟩, b :: R, ⟨counted, c.fresh⟩, rfl⟩
  | none =>
    have new : (⟨.kernel, s.next⟩ : Block) ∉ s.openInodes := fun h => Nat.lt_irrefl _ (c.fresh _ h)
    refine Ensures.bind (sysFree_kept _ _) ?_
    rintro ⟨_, s'⟩ ⟨kept, still⟩
    refine ⟨⟨still.slots, still.root⟩, ⟨.kernel, s.next⟩ :: R,
      kept.counts ⟨c.refs.first new, fun b hb => ?_⟩, rfl⟩
    show b.serial < s.next + 1 + 1
    rcases List.mem_cons.mp hb with rfl | hb
    · exact Nat.lt_succ_of_lt (Nat.lt_succ_self _)
    · exact Nat.lt_succ_of_lt (Nat.lt_succ_of_lt (c.fresh b hb))

/-- `inode_close` gives it back. -/
theorem inodeClose_acts (hlen : (R ++ base).length < 2 ^ 32 - 1) :
    Acts base (b :: R) (inodeClose b) fun _ held => held = R := by
  intro s c
  have hcnt : s.iOpenCnts b = (R ++ base).count b + 1 := c.refs.count_cons
  have hle : (R ++ base).count b ≤ (R ++ base).length := List.count_le_length
  have hu : u32 ((s.iOpenCnts b : Int) - 1) = s.iOpenCnts b - 1 := by
    unfold u32
    omega
  unfold inodeClose
  show Ensures _ _ ((if Function.update s.iOpenCnts b (u32 (s.iOpenCnts b - 1)) b = 0 then _
    else _ : Code Unit) _)
  rw [Function.update_self]
  by_cases one : s.iOpenCnts b = 1
  · rw [if_pos (by rw [hu, one])]
    refine Ensures.bind (sysFree_kept b _) ?_
    rintro ⟨_, s'⟩ ⟨kept, still⟩
    have gone : Counts { s with
        openInodes := s.openInodes.erase b
        iOpenCnts := Function.update s.iOpenCnts b (u32 (s.iOpenCnts b - 1))
        pgdir := false } (R ++ base) :=
          ⟨c.refs.last one _, fun b hb => c.fresh b (List.mem_of_mem_erase hb)⟩
    have after := kept.counts gone
    exact ⟨⟨still.slots, still.root⟩, R, ⟨after.refs, after.fresh⟩, rfl⟩
  · rw [if_neg (by rw [hu]; omega)]
    have dropped := c.refs.drop one
    rw [← hu] at dropped
    exact ⟨⟨rfl, rfl⟩, R, ⟨dropped, c.fresh⟩, rfl⟩

/-- There is room for that many references more. -/
abbrev Room (base : List Block) (n : Nat) : Prop := base.length + n < 2 ^ 32 - 1

theorem dirOpen_acts (inodeNo : Nat) (hlen : (R ++ base).length < 2 ^ 32 - 1) :
    Acts base R (dirOpen inodeNo) fun dir held => held = dir.held ++ R ∧
    dir.block.isSome = true := by
  unfold dirOpen
  refine Neutral.bind sysMalloc_neutral fun pdir =>
    Acts.bind (inodeOpen_acts inodeNo hlen) fun inode held e => Acts.pure ?_
  rw [e]
  exact ⟨rfl, rfl⟩

theorem dirClose_acts (hlen : (R ++ base).length < 2 ^ 32 - 1) :
    Acts base (dir.held ++ R) (dirClose dir) fun _ held => held = R := by
  unfold dirClose Dir.held
  cases dir.block with
  | none => exact Acts.pure rfl
  | some pdir =>
    refine Acts.bind (inodeClose_acts hlen) fun _ held e => ?_
    rw [e]
    exact sysFree_neutral pdir

theorem searchDirs_acts (dirs : List Nat) (hlen : (R ++ base).length < 2 ^ 32 - 1)
    (dir : Dir) (n : Nat) :
    Acts base (dir.held ++ R) (searchDirs dir n dirs) fun r held => held = r.1.held ++ R ∧
      (dirs = [] → r.1 = dir) ∧ (dirs ≠ [] → r.1.block.isSome = true) := by
  induction dirs generalizing dir n with
  | nil => exact Acts.pure ⟨rfl, fun _ => rfl, fun h => absurd rfl h⟩
  | cons i dirs ih =>
    unfold searchDirs
    refine Neutral.bind searchDirEntry_neutral fun _ => Neutral.bind neutral_get fun s => ?_
    refine Acts.bind (dirClose_acts hlen) fun _ held e => ?_
    rw [e]
    refine Acts.bind (dirOpen_acts i hlen) fun dir' held h => ?_
    obtain ⟨e, hsome⟩ := h
    rw [e]
    refine (ih dir' _).mono fun r held h => ⟨h.1, nofun, fun _ => ?_⟩
    cases dirs with
    | nil => rw [h.2.1 rfl, hsome]
    | cons j dirs => exact h.2.2 nofun

/-- What `search_file` answers for a path. -/
structure Found (path : Path) (searched : Searched) : Prop where
  parent : searched.parentDir.block.isSome = path.enters
  regular : ∀ dirs i, path = .names dirs (.regular i) → searched.inodeNo = some i ∧
    searched.directory = false
  other : (∀ dirs i, path ≠ .names dirs (.regular i)) → searched.inodeNo ≠ none →
    searched.directory = true

theorem searchFile_acts (path : Path) (hlen : (R ++ base).length < 2 ^ 32 - 1) :
    Acts base R (searchFile path) fun searched held => held = searched.parentDir.held ++ R ∧
    Found path searched := by
  unfold searchFile
  refine Neutral.bind neutral_get fun s => ?_
  cases path with
  | root => exact Acts.pure ⟨rfl, rfl, nofun, fun _ _ => rfl⟩
  | names dirs last =>
    refine Acts.bind (searchDirs_acts dirs hlen ⟨none, s.rootInode⟩ 0) ?_
    rintro ⟨parentDir, parentInodeNo⟩ held ⟨e, root, entered⟩
    dsimp only at e root entered
    rw [e]
    have parent : parentDir.block.isSome = !dirs.isEmpty := by
      cases dirs with
      | nil => rw [root rfl]; rfl
      | cons i dirs => exact entered nofun
    cases last with
    | missing allBlocks =>
      have found : Found (.names dirs (.missing allBlocks)) ⟨none, false, parentDir⟩ :=
        ⟨parent, nofun, fun _ h => absurd rfl h⟩
      cases allBlocks with
      | true => exact Neutral.bind searchDirEntry_neutral fun _ => Acts.pure ⟨rfl, found⟩
      | false => exact Acts.pure ⟨rfl, found⟩
    | regular i =>
      refine Neutral.bind searchDirEntry_neutral fun _ =>
        Acts.pure ⟨rfl, parent, fun _ _ e => ?_, fun h => absurd rfl (h dirs i)⟩
      cases e
      exact ⟨rfl, rfl⟩
    | done i =>
      refine Acts.bind (dirClose_acts hlen) fun _ held e => ?_
      rw [e]
      refine Acts.bind (dirOpen_acts _ hlen) fun dir held h => Acts.pure ?_
      exact ⟨h.1, h.2, nofun, fun _ _ => rfl⟩

/-! ## The calls that leave the slots alone -/

variable (base) in
/-- Three references more than the caller holds are the most that a call takes. -/
abbrev Roomy : Prop := base.length + 3 < 2 ^ 32 - 1

theorem dirClose_last (room : Roomy base) :
    Acts base dir.held (dirClose dir) fun _ held => held = [] := by
  have acts : Acts base (dir.held ++ []) (dirClose dir) fun _ held => held = [] :=
    dirClose_acts (by rw [List.nil_append]; omega)
  rw [List.append_nil] at acts
  exact acts

theorem held_length (dir : Dir) : dir.held.length ≤ 1 := by
  unfold Dir.held
  split
  · exact Nat.le_refl 1
  · exact Nat.zero_le 1

theorem held_room (room : Roomy base) (dir : Dir) : (dir.held ++ base).length < 2 ^ 32 - 1 := by
  have hdir := held_length dir
  rw [List.length_append]
  omega

theorem held_ne_nil (dir : Dir) : dir.held ≠ [] ↔ dir.block.isSome = true := by
  unfold Dir.held
  split
  next some => exact iff_of_true nofun some
  next none => exact iff_of_false (fun ne => ne rfl) none

theorem sysMkdir_acts (room : Roomy base) (ioBuf : Bool) (path : Path) (sameDepth : Bool)
    (made : Option Nat) : Neutral base [] (sysMkdir ioBuf path sameDepth made) := by
  unfold sysMkdir
  refine Neutral.bind (trySysMalloc_neutral ioBuf) fun ioBuf => ?_
  split
  next ioBuf =>
    refine Acts.bind (searchFile_acts path (by rw [List.nil_append]; omega)) fun searched held h =>
      ?_
    rw [h.1, List.append_nil]
    split
    next inodeNo _ =>
      refine Neutral.bind (inodeSync_neutral _) fun _ => ?_
      refine Neutral.bind (neutral_of_kept fun _ => ⟨⟨rfl, rfl, Nat.le_refl _⟩, rfl, rfl⟩) fun _ =>
        ?_
      exact Neutral.bind (sysFree_neutral _) fun _ => dirClose_last room
    next => exact Acts.bind (dirClose_last room) fun _ held e => by rw [e]; exact sysFree_neutral _
  next => exact Acts.pure rfl

theorem sysStat_acts (room : Roomy base) (path : Path) : Neutral base [] (sysStat path) := by
  unfold sysStat
  split
  · exact Acts.pure rfl
  refine Acts.bind (searchFile_acts path (by rw [List.nil_append]; omega)) fun searched held h => ?_
  rw [h.1, List.append_nil]
  have hlen := held_room room searched.parentDir
  split
  · exact dirClose_last room
  · refine Acts.bind (inodeOpen_acts _ hlen) fun inode held e => ?_
    rw [e]
    refine Acts.bind (inodeClose_acts hlen) fun _ held e => ?_
    rw [e]
    exact dirClose_last room

theorem toList_held_length (ret : Option Dir) : (ret.toList.flatMap Dir.held).length ≤ 1 := by
  cases ret with
  | none => exact Nat.zero_le 1
  | some dir =>
    rw [Option.toList_some, List.flatMap_singleton]
    exact held_length dir

theorem tryDirOpen_acts (inodeNo : Option Nat) (hlen : (R ++ base).length < 2 ^ 32 - 1) :
    Acts base R (tryDirOpen inodeNo) fun ret held => held = ret.toList.flatMap Dir.held ++ R := by
  cases inodeNo with
  | none => exact Acts.pure rfl
  | some i =>
    refine Acts.bind (dirOpen_acts i hlen) fun dir held h => Acts.pure ?_
    rw [h.1]
    show dir.held ++ R = dir.held ++ [] ++ R
    rw [List.append_nil]

/-- `root_dir` is held by itself alone. -/
theorem rootDir_acts : Acts base [] rootDir fun dir held => held = [] ∧ dir.held = [] :=
  Neutral.bind neutral_get fun _ => Acts.pure ⟨rfl, rfl⟩

theorem sysOpendir_acts (room : Roomy base) (path : Path) :
    Acts base [] (sysOpendir path) fun ret held => held = ret.toList.flatMap Dir.held := by
  unfold sysOpendir
  split
  · refine Acts.bind rootDir_acts fun dir held h => Acts.pure ?_
    rw [h.1, Option.toList_some, List.flatMap_singleton, h.2]
  refine Acts.bind (searchFile_acts path (by rw [List.nil_append]; omega)) fun searched held h => ?_
  rw [h.1, List.append_nil]
  have hlen := held_room room searched.parentDir
  refine Acts.bind (tryDirOpen_acts _ hlen) fun ret held e => ?_
  rw [e]
  have hret := toList_held_length ret
  have shut : Acts base (searched.parentDir.held ++ ret.toList.flatMap Dir.held)
      (dirClose searched.parentDir) fun _ held =>
      held = ret.toList.flatMap Dir.held := by
    refine dirClose_acts ?_
    rw [List.length_append]
    omega
  exact Acts.bind (shut.perm List.perm_append_comm) fun _ held e => Acts.pure e

theorem sysChdir_acts (room : Roomy base) (path : Path) :
    Acts base [] (sysChdir path) fun _ held => held ≠ [] ↔ path.enters = true := by
  unfold sysChdir
  refine Acts.bind (searchFile_acts path (by rw [List.nil_append]; omega)) fun searched held h =>
    Acts.pure ?_
  rw [h.1, List.append_nil, ← h.2.parent, held_ne_nil]

theorem inodeRealse_acts (inodeNo : Nat) (hlen : (R ++ base).length < 2 ^ 32 - 1) :
    Neutral base R (inodeRealse inodeNo) := by
  unfold inodeRealse
  refine Acts.bind (inodeOpen_acts inodeNo hlen) fun inode2del held e => ?_
  rw [e]
  refine Neutral.bind neutral_get fun s => ?_
  refine Neutral.bind (asserted_neutral _ _ _) fun _ =>
    Neutral.bind sysMalloc_neutral fun ioBuf => ?_
  refine Neutral.bind (neutral_of_kept fun _ => ⟨⟨rfl, rfl, Nat.le_refl _⟩, rfl, rfl⟩) fun _ => ?_
  exact Neutral.bind (sysFree_neutral ioBuf) fun _ => inodeClose_acts hlen

theorem deleteDirEntry_neutral (pdir : Dir) (found : Bool) :
    Neutral base pre (deleteDirEntry pdir found) := by
  cases found with
  | true => exact inodeSync_neutral pdir.inode
  | false => exact Acts.pure rfl

theorem sysUnlink_acts (room : Roomy base) (path : Path) (ioBuf found : Bool) :
    Neutral base [] (sysUnlink path ioBuf found) := by
  unfold sysUnlink
  refine Acts.bind (searchFile_acts path (by rw [List.nil_append]; omega)) fun searched held h => ?_
  rw [h.1, List.append_nil]
  have hlen := held_room room searched.parentDir
  refine Neutral.bind (asserted_neutral _ _ _) fun _ => ?_
  split
  · exact dirClose_last room
  split
  · exact dirClose_last room
  refine Neutral.bind neutral_get fun s => ?_
  split
  · exact dirClose_last room
  refine Neutral.bind (trySysMalloc_neutral ioBuf) fun ioBuf => ?_
  split
  · exact dirClose_last room
  refine Neutral.bind (deleteDirEntry_neutral _ found) fun _ => ?_
  refine Neutral.bind (inodeRealse_acts _ hlen) fun _ => ?_
  exact Neutral.bind (sysFree_neutral _) fun _ => dirClose_last room

theorem dirRemove_acts (empty : Bool) (parentDir childDir : Dir) (ioBuf found : Bool)
    (hlen : (R ++ base).length < 2 ^ 32 - 1) :
    Neutral base R (dirRemove empty parentDir childDir ioBuf found) := by
  unfold dirRemove
  refine Neutral.bind (trySysMalloc_neutral _) fun ioBuf => ?_
  split
  · refine Neutral.bind (deleteDirEntry_neutral _ found) fun _ =>
      Neutral.bind neutral_get fun s => ?_
    exact Neutral.bind (inodeRealse_acts _ hlen) fun _ => sysFree_neutral _
  · exact Acts.pure rfl

theorem sysRmdir_acts (room : Roomy base) (path : Path) (empty ioBuf found : Bool) :
    Neutral base [] (sysRmdir path empty ioBuf found) := by
  unfold sysRmdir
  refine Acts.bind (searchFile_acts path (by rw [List.nil_append]; omega)) fun searched held h => ?_
  rw [h.1, List.append_nil]
  have hheld := held_length searched.parentDir
  have hlen := held_room room searched.parentDir
  refine Neutral.bind (asserted_neutral _ _ _) fun _ => ?_
  split
  · exact dirClose_last room
  split
  · refine Acts.bind (dirOpen_acts _ hlen) fun dir2del held h => ?_
    rw [h.1]
    have hdir := held_length dir2del
    have both : (dir2del.held ++ searched.parentDir.held ++ base).length < 2 ^ 32 - 1 := by
      rw [List.length_append, List.length_append]
      omega
    refine Neutral.bind (dirRemove_acts empty _ _ ioBuf found both) fun _ =>
      Acts.bind (dirClose_acts hlen) fun _ held e => ?_
    rw [e]
    exact dirClose_last room
  · exact dirClose_last room

/-! ## The calls that fill or empty a slot -/

/-- The inodes in `file_table`. -/
def slotInodes (slots : Slots) : List Block := (List.range 32).filterMap slots

theorem filterMap_update {β : Type} {b : β} {slots : Nat → Option β} {g : Nat} {l : List Nat}
    (hg : g ∈ l) (nodup : l.Nodup) (hfree : slots g = none) :
    (l.filterMap (Function.update slots g (some b))).Perm (b :: l.filterMap slots) := by
  induction l with
  | nil => cases hg
  | cons i l ih =>
    obtain ⟨hi, nodup⟩ := List.nodup_cons.mp nodup
    by_cases e : i = g
    · have same : l.filterMap (Function.update slots g (some b)) = l.filterMap slots :=
        List.filterMap_congr fun j hj =>
          Function.update_of_ne (fun h => hi (by rw [e, ← h]; exact hj)) _ _
      rw [e, List.filterMap_cons_some (Function.update_self _ _ _),
        List.filterMap_cons_none hfree, same]
    · have tail := ih ((List.mem_cons.mp hg).resolve_left (Ne.symm e)) nodup
      cases hs : slots i with
      | none =>
        rw [List.filterMap_cons_none hs,
          List.filterMap_cons_none ((Function.update_of_ne e _ _).trans hs)]
        exact tail
      | some c =>
        rw [List.filterMap_cons_some hs,
          List.filterMap_cons_some ((Function.update_of_ne e _ _).trans hs)]
        exact (tail.cons c).trans (List.Perm.swap b c _)

theorem slotInodes_fill {slots : Slots} {g : Nat} (hg : g < 32) (hfree : slots g = none) :
    (slotInodes (Function.update slots g (some b))).Perm (b :: slotInodes slots) :=
  filterMap_update (List.mem_range.mpr hg) List.nodup_range hfree

theorem slotInodes_empty {slots : Slots} {g : Nat} (hg : g < 32) (hb : slots g = some b) :
    (slotInodes slots).Perm (b :: slotInodes (Function.update slots g none)) := by
  have fill := slotInodes_fill (b := b) hg (Function.update_self g none slots)
  rw [Function.update_idem, ← hb, Function.update_eq_self] at fill
  exact fill

theorem slotInodes_length (slots : Slots) : (slotInodes slots).length ≤ 32 :=
  Nat.le_trans (List.length_filterMap_le _ _) (Nat.le_of_eq List.length_range)

/-- Slots lead to inodes within `file_table` only. -/
def InTable (slots : Slots) : Prop := ∀ g, slots g ≠ none → g < 32

variable {rest : List Block}

/-- What code that may fill and empty slots does to the references. -/
def Fills (rest pre : List Block) (f : Code α) (post : α → List Block → Prop) : Prop :=
  ∀ s, Counts s (pre ++ (slotInodes s.slots ++ rest)) → InTable s.slots →
    Ensures (fun _ => True) (fun r => (InTable r.2.slots ∧ r.2.rootInode = s.rootInode) ∧
      ∃ held, Counts r.2 (held ++ (slotInodes r.2.slots ++ rest)) ∧ post r.1 held) (f s)

theorem Acts.fills (hlen : rest.length + 35 < 2 ^ 32 - 1)
    (acts : ∀ base, Roomy base → Acts base pre f post) : Fills rest pre f post := by
  intro s c inTable
  have hslots := slotInodes_length s.slots
  have room : Roomy (slotInodes s.slots ++ rest) := by
    unfold Roomy
    rw [List.length_append]
    omega
  refine (acts _ room s c).mono ?_
  rintro ⟨a, s'⟩ ⟨still, rest⟩
  dsimp only at still rest ⊢
  rw [still.slots]
  exact ⟨⟨inTable, still.root⟩, rest⟩

theorem Fills.mono {post' : α → List Block → Prop} (fills : Fills rest pre f post)
    (imp : ∀ a held, post a held → post' a held) :
    Fills rest pre f post' := fun s c inTable =>
  (fills s c inTable).mono fun _ r => ⟨r.1, r.2.elim fun held h => ⟨held, h.1, imp _ _ h.2⟩⟩

/-- Code that takes and gives back nothing. -/
theorem fills_of_neutral (neutral : ∀ base, Neutral base pre f) :
    Fills rest pre f fun _ held => held = pre := by
  intro s c inTable
  refine (neutral _ s c).mono ?_
  rintro ⟨a, s'⟩ ⟨still, rest⟩
  dsimp only at still rest ⊢
  rw [still.slots]
  exact ⟨⟨inTable, still.root⟩, rest⟩

theorem Fills.bind {g : α → Code β} {post' : β → List Block → Prop} (fills : Fills rest pre f post)
    (next : ∀ a held, post a held → Fills rest held (g a) post') :
    Fills rest pre (f >>= g) post' := by
  intro s c inTable
  refine Ensures.bind (fills s c inTable) ?_
  rintro ⟨a, s₁⟩ ⟨⟨inTable₁, root₁⟩, held, c₁, ha⟩
  refine (next a held ha s₁ c₁ inTable₁).mono ?_
  rintro ⟨b, s₂⟩ ⟨⟨inTable₂, root₂⟩, rest⟩
  exact ⟨⟨inTable₂, root₂.trans root₁⟩, rest⟩

theorem freeSlot_some {slots : Slots} {g : Nat} (h : freeSlot slots = some g) :
    g < 32 ∧ slots g = none := by
  have hmem := List.mem_range'_1.mp (List.mem_of_find?_eq_some h)
  have hfound : (slots g == none) = true := List.find?_some (p := fun g => slots g == none) h
  exact ⟨by omega, eq_of_beq hfound⟩

theorem inTable_update {slots : Slots} (inTable : InTable slots) {g : Nat} (hg : g < 32)
    (o : Option Block) : InTable (Function.update slots g o) := by
  intro j hj
  rw [Function.update_apply] at hj
  split at hj
  next e => rwa [e]
  next => exact inTable j hj

/-- A slot takes an inode over that the caller holds. -/
theorem setSlot_fills {g : Nat} {held : List Block} (hg : g < 32)
    (c : Counts s (b :: held ++ (slotInodes s.slots ++ rest))) (hfree : s.slots g = none) :
    Counts { s with slots := Function.update s.slots g (some b) }
      (held ++ (slotInodes (Function.update s.slots g (some b)) ++ rest)) := by
  refine ⟨c.refs.perm ?_, c.fresh⟩
  have fill := ((slotInodes_fill (b := b) hg hfree).symm.append_right rest).append_left held
  exact List.Perm.trans List.perm_middle.symm fill

theorem fileOpen_fills (hlen : rest.length + 35 < 2 ^ 32 - 1) (hpre : pre.length ≤ 1)
    (inodeNo : Nat) : Fills rest pre (fileOpen inodeNo) fun _ held => held = pre := by
  intro s c inTable
  unfold fileOpen
  rw [get_bind]
  cases hfree : freeSlot s.slots with
  | none => exact ⟨⟨inTable, rfl⟩, pre, c, rfl⟩
  | some g =>
    obtain ⟨hg, hnone⟩ := freeSlot_some hfree
    have hslots := slotInodes_length s.slots
    have room : (pre ++ (slotInodes s.slots ++ rest)).length < 2 ^ 32 - 1 := by
      rw [List.length_append, List.length_append]
      omega
    refine Ensures.bind (inodeOpen_acts inodeNo room s c) ?_
    rintro ⟨b, s'⟩ ⟨still, held, c', e⟩
    dsimp only at still c' e ⊢
    rw [e, ← still.slots] at c'
    have filled := setSlot_fills hg c' (by rw [still.slots]; exact hnone)
    exact ⟨⟨inTable_update (by rw [still.slots]; exact inTable) hg _, still.root⟩, pre, filled, rfl⟩

/-- A block of memory for an inode is none of those in use. -/
theorem trySysMalloc_new (answers : Bool) (s : InodeHeap) :
    Ensures (fun _ => True) (fun r => (Kept s r.2 ∧ Still s r.2) ∧ ∀ b, r.1 = some b →
      s.next ≤ b.serial ∧ b.serial < r.2.next)
      (trySysMalloc answers s) := by
  cases answers with
  | true =>
    refine ⟨⟨⟨rfl, rfl, Nat.le_succ _⟩, rfl, rfl⟩, fun b hb => ?_⟩
    rw [← Option.some.inj hb]
    exact ⟨Nat.le_refl _, Nat.lt_succ_self _⟩
  | false => exact ⟨⟨⟨rfl, rfl, Nat.le_refl _⟩, rfl, rfl⟩, nofun⟩

/-- The new inode is linked, and its slot holds it. -/
theorem fileCreate_link {g : Nat} (c : Counts s (pre ++ (slotInodes s.slots ++ rest)))
    (new : b ∉ s.openInodes) (hb : b.serial < s.next) (hg : g < 32) (hfree : s.slots g = none) :
    Counts { s with
      slots := Function.update s.slots g (some b)
      openInodes := b :: s.openInodes
      iOpenCnts :=
        Function.update s.iOpenCnts b 1 } (pre ++
          (slotInodes (Function.update s.slots g (some b)) ++ rest)) := by
  have linked :
      Counts
        { s with openInodes := b :: s.openInodes, iOpenCnts := Function.update s.iOpenCnts b 1 }
      (b :: pre ++ (slotInodes s.slots ++ rest)) := by
    refine ⟨c.refs.first new, fun d hd => ?_⟩
    rcases List.mem_cons.mp hd with rfl | hd
    · exact hb
    · exact c.fresh d hd
  have filled := setSlot_fills hg linked hfree
  exact ⟨filled.refs, filled.fresh⟩

theorem fileCreate_fills (dir : Dir) (a : CreateAnswers) :
    Fills rest pre (fileCreate dir a) fun _ held => held = pre := by
  unfold fileCreate
  refine Fills.bind (fills_of_neutral fun _ => trySysMalloc_neutral a.ioBuf) fun ioBuf held e => ?_
  rw [e]
  cases ioBuf with
  | none => exact fills_of_neutral fun _ => Acts.pure rfl
  | some ioBuf =>
    cases a.inodeNo with
    | none => exact fills_of_neutral fun _ => sysFree_neutral ioBuf
    | some inodeNo =>
      intro s c inTable
      refine Ensures.bind (trySysMalloc_new a.inode s) ?_
      rintro ⟨inode, s₁⟩ ⟨⟨kept, still⟩, new⟩
      have c₁ := kept.counts c
      dsimp only at kept still new c₁ ⊢
      rw [← still.slots] at c₁ inTable
      rw [← still.root]
      cases inode with
      | none => exact fills_of_neutral (fun _ => sysFree_neutral ioBuf) s₁ c₁ inTable
      | some b =>
        obtain ⟨hge, hlt⟩ := new b rfl
        have undo : Fills rest pre (sysFree b >>= fun _ => sysFree ioBuf) fun _ held => held =
            pre :=
          fills_of_neutral fun _ => Neutral.bind (sysFree_neutral b) fun _ => sysFree_neutral ioBuf
        have unlinked : b ∉ s₁.openInodes := fun h => by
          rw [kept.openInodes] at h
          exact absurd (c.fresh b h) (Nat.not_lt.mpr hge)
        dsimp only
        rw [get_bind]
        cases hfree : freeSlot s₁.slots with
        | none => exact undo s₁ c₁ inTable
        | some g =>
          obtain ⟨hg, hnone⟩ := freeSlot_some hfree
          have filled := fileCreate_link c₁ unlinked hlt hg hnone
          cases a.synced with
          | true =>
            change Ensures _ _ (sysFree ioBuf { s₁ with
              slots := Function.update s₁.slots g (some b)
              openInodes := b :: s₁.openInodes
              iNo := Function.update s₁.iNo b inodeNo
              iOpenCnts := Function.update s₁.iOpenCnts b 1
              diskNo :=
                Function.update (Function.update s₁.diskNo (s₁.iNo dir.inode) (s₁.iNo dir.inode))
                  inodeNo inodeNo })
            exact fills_of_neutral (fun _ => sysFree_neutral ioBuf) _ ⟨filled.refs, filled.fresh⟩
              (inTable_update inTable hg _)
          | false =>
            have same : Function.update (Function.update s₁.slots g (some b)) g none =
                s₁.slots := by
              rw [Function.update_idem, ← hnone, Function.update_eq_self]
            change Ensures _ _ ((sysFree b >>= fun _ => sysFree ioBuf) { s₁ with
              slots := Function.update (Function.update s₁.slots g (some b)) g none })
            rw [same]
            exact undo s₁ c₁ inTable

theorem leaks_other {path : Path} (other : ∀ dirs i, path ≠ .names dirs (.regular i))
    (slash sameDepth create : Bool) (a : CreateAnswers) :
    (CountCall.sysOpen slash path sameDepth create a).leaks = false := by
  unfold CountCall.leaks
  split
  next e =>
    cases e
    exact absurd rfl (other _ _)
  next e => cases e
  next => rfl

theorem sysOpen_fills (hlen : rest.length + 35 < 2 ^ 32 - 1) (slash : Bool) (path : Path)
    (sameDepth create : Bool) (a : CreateAnswers) :
    Fills rest [] (sysOpen slash path sameDepth create a) fun _ held =>
      held ≠ [] ↔ (CountCall.sysOpen slash path sameDepth create a).leaks = true := by
  unfold sysOpen
  cases slash with
  | true =>
    exact (fills_of_neutral (fun _ => Acts.pure rfl)).mono fun _ held e =>
      iff_of_false (fun ne => ne e) nofun
  | false =>
    refine Fills.bind (Acts.fills hlen fun base room =>
      searchFile_acts path (by rw [List.nil_append]; omega)) fun searched held h => ?_
    obtain ⟨e, found⟩ := h
    rw [e, List.append_nil]
    have shut {leaks : Bool} (none : leaks = false) :
        Fills rest searched.parentDir.held (dirClose searched.parentDir) fun _ held => held ≠ [] ↔
          leaks = true := by
      refine (Acts.fills hlen fun base room => dirClose_last room).mono fun _ held e =>
        iff_of_false (fun ne => ne e) ?_
      rw [none]
      exact nofun
    by_cases hreg : ∃ dirs i, path = .names dirs (.regular i)
    · obtain ⟨dirs, i, rfl⟩ := hreg
      obtain ⟨hno, hdir⟩ := found.regular dirs i rfl
      rw [hno, hdir]
      cases sameDepth with
      | false => exact shut rfl
      | true =>
        cases create with
        | true => exact shut rfl
        | false =>
          refine (fileOpen_fills hlen (held_length _) i).mono fun _ held e => ?_
          rw [e, held_ne_nil, found.parent]
          exact Iff.rfl
    · have other : ∀ dirs i, path ≠ .names dirs (.regular i) := fun dirs i e => hreg ⟨dirs, i, e⟩
      have none := leaks_other other false sameDepth create a
      cases hdir : searched.directory with
      | true => exact shut none
      | false =>
        have missing : searched.inodeNo = .none := by
          by_contra ne
          have dir := found.other other ne
          rw [hdir] at dir
          cases dir
        rw [missing]
        cases sameDepth with
        | false => exact shut none
        | true =>
          cases create with
          | true =>
            refine Fills.bind (fileCreate_fills _ a) fun _ held e => ?_
            rw [e]
            exact shut none
          | false => exact shut none

theorem sysClose_fills (hlen : rest.length + 35 < 2 ^ 32 - 1) (g : Nat) :
    Fills rest [] (sysClose g) fun _ held => held = [] := by
  intro s c inTable
  have hslots := slotInodes_length s.slots
  unfold sysClose
  rw [get_bind]
  cases hb : s.slots g with
  | none => trivial
  | some b =>
    have hg : g < 32 := inTable g (by rw [hb]; exact nofun)
    have perm := slotInodes_empty hg hb
    have c' : Counts s (b :: slotInodes (Function.update s.slots g none) ++ rest) :=
      ⟨c.refs.perm (perm.append_right rest), c.fresh⟩
    have hlength := perm.length_eq
    rw [List.length_cons] at hlength
    have closes :
        Acts rest (b :: slotInodes (Function.update s.slots g none)) (inodeClose b) fun _ held =>
        held = slotInodes (Function.update s.slots g none) := by
      refine inodeClose_acts ?_
      rw [List.length_append]
      omega
    refine Ensures.bind (closes s c') ?_
    rintro ⟨_, s'⟩ ⟨still, held, closed, e⟩
    dsimp only at still closed e
    rw [e, ← still.slots] at closed
    exact ⟨⟨inTable_update (by rw [still.slots]; exact inTable) hg _, still.root⟩, [],
      ⟨closed.refs, closed.fresh⟩, rfl⟩

/-! ## Runs -/

variable {dirs : List Dir}

/-- More open directories than this do not fit into the address space. -/
def maxDirs : Nat := 2 ^ 32 / sizeofDir + 1

/-- The inodes are held by the slots, the root and the open directories, and by `leak`. -/
structure Books (dirs : List Dir) (leak : List Block) (s : InodeHeap) : Prop where
  counts : Counts s (leak ++ (slotInodes s.slots ++ s.rootInode :: dirs.flatMap Dir.held))
  slots : InTable s.slots
  room : (dirs.flatMap Dir.held).length ≤ maxDirs

theorem Books.roomy (books : Books dirs [] s) :
    (s.rootInode :: dirs.flatMap Dir.held).length + 35 < 2 ^ 32 - 1 := by
  have h := books.room
  unfold maxDirs sizeofDir at h
  rw [List.length_cons]
  omega

/-- A call that opens and closes no directory for its caller. -/
theorem Fills.books {f : Code Unit} {leaks : Bool} (books : Books dirs [] s)
    (fills : Fills (s.rootInode :: dirs.flatMap Dir.held) [] f fun _ held => held ≠ [] ↔
      leaks = true) :
    Ensures (fun _ => True) (fun r => ∃ leak, Books r.1 leak r.2 ∧ (leak ≠ [] ↔ leaks = true))
      ((do
        f
        return dirs : Code (List Dir)) s) := by
  refine Ensures.bind (fills s books.counts books.slots) ?_
  rintro ⟨_, s'⟩ ⟨⟨inTable, root⟩, held, c, leak⟩
  dsimp only at inTable root c leak
  rw [← root] at c
  exact ⟨held, ⟨c, inTable, books.room⟩, leak⟩

theorem Acts.books {f : Code Unit} (books : Books dirs [] s)
    (acts : ∀ base, Roomy base → Neutral base [] f) :
    Ensures (fun _ => True) (fun r => ∃ leak, Books r.1 leak r.2 ∧ (leak ≠ [] ↔ false = true))
      ((do
        f
        return dirs : Code (List Dir)) s) :=
  Fills.books books ((Acts.fills books.roomy acts).mono fun _ _ e =>
    iff_of_false (fun ne => ne e) nofun)

/-- References of a directory go to the front. -/
theorem perm_front {l l' : List Block} (X S : List Block) (root : Block) (perm : l.Perm (X ++ l')) :
    (S ++ root :: l).Perm (X ++ (S ++ root :: l')) := by
  have middle : (S ++ root :: l).Perm (S ++ (X ++ root :: l')) :=
    ((perm.cons root).trans List.perm_middle.symm).append_left S
  exact middle.trans (List.perm_append_comm_assoc S X (root :: l'))

theorem opendir_books (books : Books dirs [] s) (path : Path)
    (hlen : sizeofDir * (dirs.flatMap Dir.held).length < 2 ^ 32) :
    Ensures (fun _ => True) (fun r => Books r.1 [] r.2)
      ((CountCall.sysOpendir path).code dirs s) := by
  refine Ensures.bind (Acts.fills books.roomy (fun _ room => sysOpendir_acts room path) s
    books.counts books.slots) ?_
  rintro ⟨ret, s'⟩ ⟨⟨inTable, root⟩, held, c, e⟩
  dsimp only at inTable root c e
  rw [e, ← root] at c
  have append : (ret.toList ++ dirs).flatMap Dir.held =
      ret.toList.flatMap Dir.held ++ dirs.flatMap Dir.held := List.flatMap_append
  refine ⟨⟨c.refs.perm (perm_front _ _ _ (List.Perm.of_eq append)).symm, c.fresh⟩, inTable, ?_⟩
  have hret : (ret.toList.flatMap Dir.held).length ≤ 1 := toList_held_length ret
  show ((ret.toList ++ dirs).flatMap Dir.held).length ≤ maxDirs
  rw [append, List.length_append]
  unfold maxDirs
  unfold sizeofDir at hlen ⊢
  omega

theorem closedir_books (books : Books dirs [] s) (hdir : dir ∈ dirs) :
    Ensures (fun _ => True) (fun r => Books r.1 [] r.2)
      ((CountCall.sysClosedir dir).code dirs s) := by
  have perm : (dirs.flatMap Dir.held).Perm (dir.held ++ (dirs.erase dir).flatMap Dir.held) :=
    (List.perm_cons_erase hdir).flatMap_right Dir.held
  have length := perm.length_eq
  rw [List.length_append] at length
  have hroom := books.room
  have hlen : (s.rootInode :: (dirs.erase dir).flatMap Dir.held).length + 35 < 2 ^ 32 - 1 := by
    have h := books.roomy
    rw [List.length_cons] at h ⊢
    omega
  have c :
      Counts s
        (dir.held ++ (slotInodes s.slots ++ s.rootInode :: (dirs.erase dir).flatMap Dir.held)) :=
    ⟨books.counts.refs.perm (perm_front _ _ _ perm), books.counts.fresh⟩
  refine Ensures.bind (Acts.fills hlen (fun _ room => dirClose_last room) s c books.slots) ?_
  rintro ⟨_, s'⟩ ⟨⟨inTable, root⟩, held, c', e⟩
  dsimp only at inTable root c' e
  rw [e, ← root] at c'
  refine ⟨c', inTable, ?_⟩
  show ((dirs.erase dir).flatMap Dir.held).length ≤ maxDirs
  omega

theorem code_books (books : Books dirs [] s) (call : CountCall)
    (hclose : ∀ dir, call = .sysClosedir dir → dir ∈ dirs)
    (hopen : ∀ path, call = .sysOpendir path →
      sizeofDir * (dirs.flatMap Dir.held).length < 2 ^ 32) :
    Ensures (fun _ => True) (fun r => ∃ leak, Books r.1 leak r.2 ∧ (leak ≠ [] ↔ call.leaks = true))
      (call.code dirs s) := by
  cases call with
  | sysOpen slash path sameDepth create a =>
    exact Fills.books books (sysOpen_fills books.roomy slash path sameDepth create a)
  | sysClose g =>
    exact Fills.books books ((sysClose_fills books.roomy g).mono fun _ held e =>
      iff_of_false (fun ne => ne e) nofun)
  | sysOpendir path =>
    exact (opendir_books books path (hopen path rfl)).mono fun _ h =>
      ⟨[], h, iff_of_false (fun ne => ne rfl) nofun⟩
  | sysClosedir dir =>
    exact (closedir_books books (hclose dir rfl)).mono fun _ h =>
      ⟨[], h, iff_of_false (fun ne => ne rfl) nofun⟩
  | sysStat path => exact Acts.books books fun _ room => sysStat_acts room path
  | sysChdir path =>
    exact Fills.books books (Acts.fills books.roomy fun _ room => sysChdir_acts room path)
  | sysMkdir ioBuf path sameDepth made =>
    exact Acts.books books fun _ room => sysMkdir_acts room ioBuf path sameDepth made
  | sysRmdir path empty ioBuf found =>
    exact Acts.books books fun _ room => sysRmdir_acts room path empty ioBuf found
  | sysUnlink path ioBuf found =>
    exact Acts.books books fun _ room => sysUnlink_acts room path ioBuf found

theorem slotInodes_count (slots : Slots) (b : Block) :
    (slotInodes slots).count b = (List.range 32).countP fun g => slots g == some b := by
  unfold slotInodes
  induction List.range 32 with
  | nil => rfl
  | cons g l ih =>
    cases hs : slots g with
    | none =>
      rw [List.filterMap_cons_none hs, List.countP_cons_of_neg (by rw [hs]; exact nofun), ih]
    | some c =>
      rw [List.filterMap_cons_some hs, List.count_cons, List.countP_cons, ih, hs]
      rfl

theorem dirs_count (dirs : List Dir) (b : Block) :
    (dirs.flatMap Dir.held).count b = dirs.countP fun dir => dir.held == [b] := by
  induction dirs with
  | nil => rfl
  | cons dir dirs ih =>
    rw [List.flatMap_cons, List.count_append, List.countP_cons, ih, Nat.add_comm]
    congr 1
    unfold Dir.held
    split
    · rw [List.count_singleton, show ([dir.inode] == [b]) = (dir.inode == b) from Bool.and_true _]
    · rfl

/-- The references, counted. -/
theorem number_eq (s : Opened) (b : Block) :
    s.number b = (slotInodes s.heap.slots ++ s.heap.rootInode :: s.dirs.flatMap Dir.held).count
      b := by
  rw [List.count_append, List.count_cons, slotInodes_count, dirs_count]
  unfold Opened.number
  rw [Nat.add_assoc]
  congr 2
  by_cases e : b = s.heap.rootInode
  · rw [if_pos e, e, beq_self_eq_true]
    rfl
  · rw [if_neg e, if_neg]
    exact fun h => e (eq_of_beq h).symm

/-- Where nothing is leaked the counts balance. -/
theorem Books.balanced {s : Opened} (books : Books s.dirs [] s.heap) : Balanced s where
  counts b hb := by
    rw [number_eq]
    exact books.counts.refs.count b hb
  linked b := by
    rw [number_eq, List.count_pos_iff]
    exact books.counts.refs.mem b

/-- What was leaked shows. -/
theorem Books.not_balanced {s : Opened} {leak : List Block} (books : Books s.dirs leak s.heap)
    (some : leak ≠ []) : ¬ Balanced s := by
  intro balanced
  have refs : RefCounts s.heap.openInodes s.heap.iOpenCnts
      (slotInodes s.heap.slots ++ s.heap.rootInode :: s.dirs.flatMap Dir.held) := by
    refine ⟨books.counts.refs.nodup, fun b => ?_, fun b hb => ?_⟩
    · rw [balanced.linked b, number_eq, List.count_pos_iff]
    · rw [balanced.counts b hb, number_eq]
  have length := (books.counts.refs.unique refs).length_eq
  rw [List.length_append] at length
  exact some (List.length_eq_zero_iff.mp (by omega))

theorem countStart_books (diskNo : Nat → Nat) : Books [] [] (countStart diskNo).heap where
  counts := by
    refine ⟨⟨List.pairwise_singleton _ _, fun b => Iff.rfl, fun b hb => ?_⟩, fun b hb => ?_⟩
    · rw [List.mem_singleton.mp hb]
      rfl
    · rw [List.mem_singleton.mp hb]
      exact Nat.one_pos
  slots _ h := absurd rfl h
  room := Nat.zero_le _

theorem step_books {s s' : Opened} {e : CountEvent} {o : Unit} (books : Books s.dirs [] s.heap)
    (en : countMachine.enabled s e) (st : countMachine.step s e = .ok (s', o)) :
    ∃ leak, Books s'.dirs leak s'.heap ∧ (leak ≠ [] ↔ e.call.leaks = true) := by
  have begun : Books s.dirs [] { s.heap with cur := e.task, pgdir := e.process } :=
    ⟨⟨books.counts.refs, books.counts.fresh⟩, books.slots, books.room⟩
  obtain ⟨⟨dirs, heap⟩, run, out⟩ := bind_eq_ok.mp st
  obtain rfl : (⟨heap, dirs⟩ : Opened) = s' := (Prod.mk.inj (Except.ok.inj out)).1
  refine (code_books begun e.call (fun dir he => ?_) (fun path he => ?_)).of_ok run
  · change countEnabled s e at en
    unfold countEnabled at en
    rw [he] at en
    exact en
  · change countEnabled s e at en
    unfold countEnabled at en
    rw [he] at en
    exact en

/-- WHEN INODE OPEN COUNTS BALANCE, in every run of calls that open and close files and directories.
-/
theorem open_counts_balance_iff {diskNo : Nat → Nat} {tr : List (Entry Opened CountEvent Unit)}
    {s : Opened} (path : countMachine.Path (countStart diskNo) tr s) :
    Machine.Always Balanced tr s ↔ Machine.Meets ClosesParent tr := by
  refine path.always_iff_of_good (G := fun s => Books s.dirs [] s.heap) (countStart_books diskNo)
    Books.balanced ?_ ?_
  · intro s e s' o books en st closes
    obtain ⟨leak, books', iff⟩ := step_books books en st
    cases leak with
    | nil => exact books'
    | cons b leak =>
      have leaks := iff.mp nofun
      rw [show e.call.leaks = false from closes] at leaks
      cases leaks
  · intro s e s' o books en st leaks
    obtain ⟨leak, books', iff⟩ := step_books books en st
    exact books'.not_balanced (iff.mpr ((Bool.not_eq_false _).mp leaks))

/-- A directory is made. -/
def makesDir : CountEvent := ⟨0, false, .sysMkdir true (.names [] (.missing true)) true (some 1)⟩

/-- It is opened and closed. -/
def opensDir : List CountEvent :=
  [makesDir, ⟨0, false, .sysOpendir (.names [1] (.done 1))⟩,
    ⟨0, false, .sysClosedir ⟨some ⟨.kernel, 10⟩, ⟨.kernel, 11⟩⟩⟩]

theorem open_counts_balance_iff_opens :
    ∃ tr s, countMachine.Path (countStart id) tr s ∧
      (Machine.Always Balanced tr s ↔ Machine.Meets ClosesParent tr) := by
  have run : (countMachine.exec (countStart id) opensDir).isSome := by decide +kernel
  obtain ⟨s, run⟩ := Option.isSome_iff_exists.mp run
  obtain ⟨tr, path⟩ := Machine.exec_path (M := countMachine) run
  exact ⟨tr, s, path, open_counts_balance_iff path⟩

/-- It becomes the working directory. -/
def changesDir : List CountEvent := [makesDir, ⟨0, false, .sysChdir (.names [1] (.done 1))⟩]

/-- Some inode does not count those who have it open. -/
def stale (s : Opened) : Bool := s.heap.openInodes.any fun b => s.number b != s.heap.iOpenCnts b

/-- `sys_chdir` leaves the parent of the directory open. -/
theorem chdir_leaks :
    ¬ ∀ (diskNo : Nat → Nat) (tr : List (Entry Opened CountEvent Unit)) (s : Opened),
    countMachine.Path (countStart diskNo) tr s → Balanced s := by
  intro claim
  have run : (countMachine.exec (countStart id) changesDir).any stale := by decide +kernel
  obtain ⟨s, run, wrong⟩ := (Option.any_eq_true _ _).mp run
  obtain ⟨tr, path⟩ := Machine.exec_path (M := countMachine) run
  obtain ⟨b, hb, ne⟩ := List.any_eq_true.mp wrong
  rw [bne_iff_ne] at ne
  exact ne ((claim id tr s path).counts b hb).symm

end SeekingOs.Fs.Cached
