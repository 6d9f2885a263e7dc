import Mathlib.Algebra.Group.Pi.Basic
import SeekingOs.Fs.DirRead
import SeekingOs.Fs.PathCalls
import SeekingOs.Lib.Machine

/-!
# Directory streams

Every `sys_opendir` answers a `struct dir` of its own, with `dir_pos` 0, except the one that answers
`&root_dir`: that struct is there once, for everybody, and nothing sets its `dir_pos` back when it
is opened.

Opening and closing directories changes nothing in a volume but how often each inode is open.
-/

namespace SeekingOs.Fs

open Lib

variable {sb : SuperBlock}

/-! ## What opening a directory changes -/

variable {v w w' : Volume sb} {c : Nat → Nat} {n m : Nat} {ref : DirRef}

/-- How often an inode is open. -/
def Volume.openCnts (v : Volume sb) (n : Nat) : Nat := (v.openInodes n).elim 0 (·.iOpenCnts)

/-- The volume with each inode `n` opened `c n` times more. -/
def Volume.holding (v : Volume sb) (c : Nat → Nat) : Volume sb :=
  ⟨v.part, fun n => if c n = 0 then v.openInodes n
    else some { v.inode n with iOpenCnts := v.openCnts n + c n }⟩

/-- No inode in `open_inodes` is unused, and all are open less often than `most` times. -/
structure Volume.Counted (v : Volume sb) (most : Nat) : Prop where
  used : ∀ n inode, v.openInodes n = some inode → 0 < inode.iOpenCnts
  bound : ∀ n, v.openCnts n < most

theorem Volume.holding_zero (v : Volume sb) : v.holding 0 = v := rfl

theorem Volume.holding_inode (v : Volume sb) (c : Nat → Nat) (n : Nat) :
    (v.holding c).inode n = { v.inode n with iOpenCnts := ((v.holding c).inode n).iOpenCnts } := by
  by_cases h : c n = 0
  · have same : (v.holding c).inode n = v.inode n :=
      congrArg (Option.getD · (diskInode v.part n)) (if_pos h)
    rw [same]
  · have opened : (v.holding c).openInodes n = some _ := if_neg h
    rw [Volume.inode_open opened]

theorem Volume.holding_openCnts (v : Volume sb) (c : Nat → Nat) (n : Nat) :
    (v.holding c).openCnts n = v.openCnts n + c n := by
  unfold Volume.openCnts Volume.holding
  dsimp only
  by_cases h : c n = 0
  · rw [if_pos h, h, Nat.add_zero]
  · rw [if_neg h]
    rfl

/-- One directory more. -/
theorem Volume.holding_held (v : Volume sb) (c : Nat → Nat) (n : Nat) :
    (v.holding c).held (.opened n) = v.holding (c + Pi.single n 1) := by
  have count := v.holding_openCnts c n
  unfold Volume.openCnts at count
  unfold Volume.held Volume.put
  dsimp only
  rw [count, Volume.holding_inode]
  unfold Volume.holding
  dsimp only
  congr 1
  funext m
  by_cases h : m = n
  · subst h
    rw [Function.update_self, Pi.add_apply, Pi.single_eq_same, if_neg (Nat.succ_ne_zero _)]
    rfl
  · rw [Function.update_of_ne h, Pi.add_apply, Pi.single_eq_of_ne h, Nat.add_zero]

theorem Volume.held_comm (v : Volume sb) (n m : Nat) :
    (v.held (.opened n)).held (.opened m) = (v.held (.opened m)).held (.opened n) := by
  have both (n m : Nat) : (v.held (.opened n)).held (.opened m) =
      v.holding (Pi.single n 1 + Pi.single m 1) := by
    have one : v.held (.opened n) = v.holding (0 + Pi.single n 1) := v.holding_held 0 n
    rw [one, Volume.holding_held, zero_add]
  rw [both, both, add_comm]

theorem Volume.Counted.cnts {most : Nat} (counted : v.Counted most) (h : most ≤ 2 ^ 32 - 1)
    (n : Nat) (inode : Inode) (hopen : v.openInodes n = some inode) :
    0 < inode.iOpenCnts ∧ inode.iOpenCnts < 2 ^ 32 - 1 := by
  have bound := counted.bound n
  unfold Volume.openCnts at bound
  rw [hopen] at bound
  exact ⟨counted.used n inode hopen, Nat.lt_of_lt_of_le bound h⟩

theorem Volume.Counted.holding {most more : Nat} (counted : v.Counted most)
    (h : ∀ n, v.openCnts n + c n < more) : (v.holding c).Counted more := by
  refine ⟨fun n inode hopen => ?_, fun n => by rw [v.holding_openCnts]; exact h n⟩
  change (if c n = 0 then v.openInodes n else _) = some inode at hopen
  split at hopen
  next => exact counted.used n inode hopen
  next hc =>
    cases hopen
    exact Nat.add_pos_right _ (Nat.pos_of_ne_zero hc)

theorem Volume.held_holding (v : Volume sb) (n : Nat) :
    v.held (.opened n) = v.holding (Pi.single n 1) := by
  have one : v.held (.opened n) = v.holding (0 + Pi.single n 1) := v.holding_held 0 n
  rw [one, zero_add]

theorem Volume.Counted.held {most : Nat} (counted : v.Counted most) (ref : DirRef) :
    (v.held ref).Counted (most + 1) := by
  cases ref with
  | root => exact ⟨counted.used, fun n => Nat.lt_succ_of_lt (counted.bound n)⟩
  | opened n =>
    rw [v.held_holding]
    refine counted.holding fun m => ?_
    have single : (Pi.single n 1 : Nat → Nat) m ≤ 1 := by
      rw [Pi.single_apply]
      split
      next => exact Nat.le_refl 1
      next => exact Nat.zero_le 1
    have bound := counted.bound m
    omega

/-! ## A search leaves one directory open -/

theorem Volume.inodeOpen_held (counted : v.Counted (2 ^ 32 - 1)) {inode : Inode}
    (h : v.inodeOpen n = .ok inode) : inode = { v.inode n with iOpenCnts := v.openCnts n + 1 } := by
  unfold Volume.inodeOpen at h
  unfold Volume.openCnts
  cases hopen : v.openInodes n with
  | some inode =>
    obtain ⟨-, bound⟩ := counted.cnts (Nat.le_refl _) n inode hopen
    have next : u32 ((inode.iOpenCnts : Int) + 1) = inode.iOpenCnts + 1 := by
      unfold u32
      omega
    rw [hopen] at h
    dsimp only at h
    rw [next] at h
    cases h
    rw [Volume.inode_open hopen]
    rfl
  | none =>
    rw [hopen] at h
    obtain ⟨_, _, h⟩ := bind_eq_ok.mp h
    cases h
    rw [Volume.inode_closed hopen]
    rfl

theorem Volume.dirOpen_held (counted : v.Counted (2 ^ 32 - 1)) {o : Volume sb × DirRef}
    (h : v.dirOpen n = .ok o) : o = (v.held (.opened n), .opened n) := by
  obtain ⟨inode, hopen, h⟩ := bind_eq_ok.mp h
  cases h
  rw [Volume.inodeOpen_held counted hopen]
  rfl

theorem searchLoop_held (counted : v.Counted (2 ^ 32 - 1)) {s : SearchState sb} {name : Name}
    {sub : Option (List Byte)} (held : s.vol = v.held s.record.parentDir) {o : Int × SearchState sb}
    (h : searchLoop s name sub = .ok o) : o.2.vol = v.held o.2.record.parentDir := by
  have closed (ref : DirRef) : (v.held ref).dirClose ref = v :=
    Volume.dirClose_held (counted.cnts (Nat.le_refl _)) ref
  fun_induction searchLoop s name sub with
  | case1 s sub vol =>
    have start : vol = v := (congrArg (·.dirClose s.record.parentDir) held).trans (closed _)
    rw [start] at h
    obtain ⟨opened, hopen, h⟩ := bind_eq_ok.mp h
    rw [Volume.dirOpen_held counted hopen] at h
    cases h
    rfl
  | case2 => cases h
  | case3 s name sub _ searchedPath =>
    cases h
    exact held
  | case4 => cases h
  | case5 => cases h
  | case6 s name sub _ searchedPath _ s₁ dirE _ name' sub' _ s₂ _ parentInodeNo vol
      parentDir hopen ih =>
    have start : s₂.vol.dirClose s₂.record.parentDir = v :=
      (congrArg (·.dirClose s.record.parentDir) held).trans (closed _)
    rw [start] at hopen
    cases Volume.dirOpen_held counted hopen
    exact ih rfl h
  | case7 =>
    cases h
    exact held
  | case8 _ _ _ _ _ _ _ _ _ _ _ _ _ _ _ ih => exact ih held h

/-- Whatever the path is, a search that ends leaves open the parent in its record and nothing else.
-/
theorem searchFile_vol (counted : v.Counted (2 ^ 32 - 1)) {dirE : DirEntry} {path : List Byte}
    {o : Int × SearchState sb} (h : searchFile v dirE path = .ok o) :
    o.2.vol = v.held o.2.record.parentDir := by
  unfold searchFile at h
  split at h
  next =>
    cases h
    rfl
  next =>
    obtain ⟨_, _, h⟩ := bind_eq_ok.mp h
    obtain ⟨⟨name, sub⟩, _, h⟩ := bind_eq_ok.mp h
    exact searchLoop_held counted rfl h

/-- What `sys_opendir` answers, and how often each inode is open after it. -/
theorem sysOpendir_ok (counted : v.Counted (2 ^ 32 - 2)) {dirE : DirEntry} {name : List Byte}
    {ret : Option DirRef} (h : sysOpendir v dirE name = .ok (ret, w)) :
    w = v.held (ret.getD .root) := by
  have counted₁ : v.Counted (2 ^ 32 - 1) :=
    ⟨counted.used, fun n => Nat.lt_succ_of_lt (counted.bound n)⟩
  have closed (ref : DirRef) : (v.held ref).dirClose ref = v :=
    Volume.dirClose_held (counted₁.cnts (Nat.le_refl _)) ref
  unfold sysOpendir at h
  obtain ⟨_, _, h⟩ := bind_eq_ok.mp h
  split at h
  next =>
    cases h
    rfl
  next =>
    obtain ⟨⟨inodeNo, s⟩, hsearch, h⟩ := bind_eq_ok.mp h
    have held : s.vol = v.held s.record.parentDir := searchFile_vol counted₁ hsearch
    dsimp only at h
    rw [held] at h
    split at h
    next =>
      cases h
      exact closed _
    next =>
      split at h
      next =>
        obtain ⟨⟨vol, dir⟩, hopen, h⟩ := bind_eq_ok.mp h
        cases Volume.dirOpen_held (counted.held _) hopen
        cases h
        show ((v.held s.record.parentDir).held (.opened (u32 inodeNo))).dirClose
          s.record.parentDir = v.held (.opened (u32 inodeNo))
        cases s.record.parentDir with
        | root => rfl
        | opened m =>
          rw [Volume.held_comm]
          exact Volume.dirClose_held ((counted.held _).cnts (Nat.le_refl _)) _
      next =>
        cases h
        exact closed _

/-! ## Streams -/

/-- A call on a handle. -/
inductive StreamCall where
  | readdir
  | rewinddir
  deriving DecidableEq, Repr

/-- `sys_readdir` and `sys_rewinddir` -/
def StreamCall.run (p : Part sb) (dirInode : Inode) :
    StreamCall → DirStream → Except Fault (Option DirEntry × DirStream)
  | .readdir, dir => dirRead p dirInode dir
  | .rewinddir, dir => return (none, sysRewinddir dir)

/-- Some calls on a handle that nobody else has. -/
def solo (p : Part sb) (dirInode : Inode) :
    List StreamCall → DirStream → Except Fault (List (Option DirEntry) × DirStream)
  | [], dir => return ([], dir)
  | call :: rest, dir => do
    let (answer, dir) ← call.run p dirInode dir
    let (answers, dir) ← solo p dirInode rest dir
    return (answer :: answers, dir)

/-- A handle that `sys_opendir` has answered. -/
structure DirOpening where
  dir : DirRef
  /-- `dir_pos` and `dir_buf` of its own struct; `&root_dir` has none. -/
  stream : DirStream
  /-- What `dir_pos` was after the last call on the handle. The code does not keep it. -/
  leftAt : Nat
  isOpen : Bool

/-- The volume, `root_dir`, and the handles in the order in which they were opened. -/
structure Streams (sb : SuperBlock) where
  vol : Volume sb
  rootDir : DirStream
  openings : List DirOpening

/-- What may be called. `dirE` and `dirBuf` are what the stack and the heap hold. -/
inductive DirEvent where
  | opendir (name : List Byte) (dirE : DirEntry) (dirBuf : Buf)
  | call (h : Nat) (call : StreamCall)
  | closedir (h : Nat)

namespace Streams

variable (s : Streams sb)

/-- The `struct dir` that a handle points to. -/
def stream (o : DirOpening) : DirStream :=
  match o.dir with
  | .root => s.rootDir
  | .opened _ => o.stream

/-- The struct after a call. -/
def setStream (h : Nat) (o : DirOpening) (dir : DirStream) : Streams sb :=
  { s with
    rootDir := if o.dir = .root then dir else s.rootDir
    openings := s.openings.set h { o with stream := dir, leftAt := dir.dirPos } }

/-- The handle is closed, and the directory with it unless it is the root. -/
def closed (h : Nat) (o : DirOpening) : Streams sb :=
  { s with vol := s.vol.dirClose o.dir, openings := s.openings.set h { o with isOpen := false } }

/-- The handle is open. -/
def IsOpen (h : Nat) : Prop := ∃ o, s.openings[h]? = some o ∧ o.isOpen = true

/-- How many handles are open on an inode, through a struct of their own. -/
def handles (n : Nat) : Nat := s.openings.countP fun o => o.isOpen && o.dir == .opened n

/-- One call. -/
def step : DirEvent → Except Fault (Streams sb × Option DirEntry)
  | .opendir name dirE dirBuf => do
    let (ret, vol) ← sysOpendir s.vol dirE name
    match ret with
    | none => return ({ s with vol }, none)
    | some dir =>
      return ({ s with vol, openings := s.openings ++ [⟨dir, ⟨0, dirBuf⟩, 0, true⟩] }, none)
  | .call h call =>
    match s.openings[h]? with
    | none => return (s, none)
    | some o => do
      let (dirE, dir) ← call.run s.vol.part (s.vol.inode o.dir.inodeNo) (s.stream o)
      return (s.setStream h o dir, dirE)
  | .closedir h =>
    match s.openings[h]? with
    | none => return (s, none)
    | some o => return (s.closed h o, none)

end Streams

/-- `sizeof(struct dir)` -/
def structDirSize : Nat := 520

/-- Directories are opened, read, rewound and closed in any order. A directory is opened while the
structs of those that are open leave room in the address space for another; the other calls get a
handle that is open. -/
def dirStreams (sb : SuperBlock) : Machine (Streams sb) DirEvent (Option DirEntry) Fault where
  enabled s
    | .opendir _ _ _ => (s.openings.countP (·.isOpen) + 1) * structDirSize ≤ 2 ^ 32
    | .call h _ => s.IsOpen h
    | .closedir h => s.IsOpen h
  step := Streams.step

/-- The calls on a handle and their answers. -/
def callsOn (h : Nat) (tr : List (Entry (Streams sb) DirEvent (Option DirEntry))) :
    List (StreamCall × Option DirEntry) :=
  tr.filterMap fun entry =>
    match entry.event with
    | .call h' call => if h' = h then some (call, entry.out) else none
    | _ => none

/-- Every handle has answered what it would have answered if it had been the only one. -/
def Independent (v : Volume sb) (tr : List (Entry (Streams sb) DirEvent (Option DirEntry)))
    (s : Streams sb) : Prop :=
  ∀ h o, s.openings[h]? = some o →
    ∃ dir, solo v.part (v.inode o.dir.inodeNo) ((callsOn h tr).map Prod.fst) ⟨0, zeros⟩ =
    .ok ((callsOn h tr).map Prod.snd, dir)

/-- `root_dir.dir_pos` is still where the last call on the handle left it, or 0 if there was none,
when the root is read through it. -/
def LeftAlone (s : Streams sb) : DirEvent → Prop
  | .call h .readdir => ∀ o, s.openings[h]? = some o → o.dir = .root → s.rootDir.dirPos = o.leftAt
  | _ => True

/-! ## What a stream answers depends on its position -/

section Position

variable {p : Part sb} {inode inode' : Inode} {dir dir' : DirStream}

theorem readSlots_mem {dirE : Buf} {dirPos cur cur' i : Nat} {is : List Nat}
    (h : readSlots dirE dirPos is cur = .ok (some i, cur')) : i ∈ is := by
  induction is generalizing cur with
  | nil => cases h
  | cons j rest ih =>
    unfold readSlots at h
    split at h
    next =>
      split at h
      next => exact List.mem_cons_of_mem _ (ih h)
      next =>
        obtain ⟨_, _, h⟩ := bind_eq_ok.mp h
        cases h
        exact List.mem_cons_self
    next => exact List.mem_cons_of_mem _ (ih h)

theorem readSlots_congr {dirE dirE' : Buf} {dirPos cur : Nat} {is : List Nat}
    (same : ∀ i ∈ is, usedAt dirE' i = usedAt dirE i) :
    readSlots dirE' dirPos is cur = readSlots dirE dirPos is cur := by
  induction is generalizing cur with
  | nil => rfl
  | cons i rest ih =>
    obtain ⟨first, others⟩ := List.forall_mem_cons.mp same
    unfold readSlots
    rw [first, ih others, ih others]

/-- What is in `dir_buf` does not matter. -/
theorem readBlocks_congr {allBlocks : Blocks} {dirPos cur : Nat} {ks : List Nat} {dirBuf : Buf}
    {o : DirEntry × Buf} (h : readBlocks p allBlocks dirPos ks cur dirBuf = .ok o) (dirBuf' : Buf) :
    ∃ dirBuf'', readBlocks p allBlocks dirPos ks cur dirBuf' = .ok (o.1, dirBuf'') := by
  induction ks generalizing cur dirBuf dirBuf' with
  | nil => cases h
  | cons k ks ih =>
    unfold readBlocks at h ⊢
    split at h
    next h0 =>
      rw [if_pos h0]
      exact ih h _
    next h0 =>
      rw [if_neg h0]
      dsimp only at h ⊢
      obtain ⟨⟨found, cur'⟩, hslots, h⟩ := bind_eq_ok.mp h
      have entry (buf : Buf) {i : Nat} (hi : i < dirEntrysPerSec) :
          dirEntryAt (ideRead p (allBlocks k) buf 1) (dirEntrySize * i) =
            entryOf p (allBlocks k) i := ideRead_entry buf hi
      have same : ∀ i ∈ List.range dirEntrysPerSec,
          usedAt (ideRead p (allBlocks k) (memcpy dirBuf' 0 zeros sectorSize) 1) i =
          usedAt (ideRead p (allBlocks k) (memcpy dirBuf 0 zeros sectorSize) 1) i := by
        intro i hi
        unfold usedAt
        rw [entry _ (List.mem_range.mp hi), entry _ (List.mem_range.mp hi)]
      rw [readSlots_congr same, hslots, ok_bind]
      cases found with
      | some i =>
        cases h
        have hi := List.mem_range.mp (readSlots_mem hslots)
        dsimp only
        rw [entry _ hi, entry _ hi]
        exact ⟨_, rfl⟩
      | none => exact ih h _

/-- Two streams of a directory at the same position. -/
theorem dirRead_congr (sectors : inode'.iSectors = inode.iSectors)
    (size : inode'.iSize = inode.iSize) (pos : dir'.dirPos = dir.dirPos)
    {o : Option DirEntry × DirStream} (h : dirRead p inode dir = .ok o) :
    ∃ after, dirRead p inode' dir' = .ok (o.1, after) ∧ after.dirPos = o.2.dirPos := by
  unfold dirRead at h ⊢
  rw [pos, size, collectBlocks_congr sectors]
  split at h
  next hlt =>
    rw [if_pos hlt]
    obtain ⟨⟨dirE, dirBuf⟩, hread, h⟩ := bind_eq_ok.mp h
    obtain ⟨dirBuf', hread'⟩ := readBlocks_congr hread dir'.dirBuf
    cases h
    rw [hread', ok_bind]
    exact ⟨_, rfl, rfl⟩
  next hge =>
    rw [if_neg hge]
    cases h
    exact ⟨dir', rfl, pos⟩

/-- `sys_rewinddir` does not ask where the stream was. -/
theorem StreamCall.run_congr (call : StreamCall) (sectors : inode'.iSectors = inode.iSectors)
    (size : inode'.iSize = inode.iSize) (pos : call = .readdir → dir'.dirPos = dir.dirPos)
    {o : Option DirEntry × DirStream} (h : call.run p inode dir = .ok o) :
    ∃ after, call.run p inode' dir' = .ok (o.1, after) ∧ after.dirPos = o.2.dirPos := by
  cases call with
  | readdir => exact dirRead_congr sectors size (pos rfl) h
  | rewinddir =>
    cases h
    exact ⟨_, rfl, rfl⟩

theorem solo_append {calls : List StreamCall} {call : StreamCall} {answers : List (Option DirEntry)}
    {o : Option DirEntry × DirStream} (h : solo p inode calls dir = .ok (answers, dir'))
    (last : call.run p inode dir' = .ok o) :
    solo p inode (calls ++ [call]) dir = .ok (answers ++ [o.1], o.2) := by
  induction calls generalizing dir answers with
  | nil =>
    cases h
    show (do let (answer, after) ← call.run p inode dir'; _) = _
    rw [last]
    rfl
  | cons first rest ih =>
    obtain ⟨⟨answer, dir₁⟩, hfirst, h⟩ := bind_eq_ok.mp h
    obtain ⟨⟨answers', dir₂⟩, hrest, h⟩ := bind_eq_ok.mp h
    cases h
    rw [List.cons_append]
    unfold solo
    rw [hfirst, ok_bind]
    dsimp only
    rw [ih hrest, ok_bind]
    rfl

end Position

/-! ## Runs -/

variable {s s' : Streams sb} {h : Nat} {o : DirOpening}

/-- What every run keeps: the volume is what it was but for the directories that are open, and the
streams of their own are where their handles left them. -/
structure Steady (v : Volume sb) (s : Streams sb) : Prop where
  vol : s.vol = v.holding s.handles
  room : s.openings.countP (·.isOpen) * structDirSize ≤ 2 ^ 32
  own : ∀ (h : Nat) (o : DirOpening) (n : Nat), s.openings[h]? = some o → o.dir = .opened n →
    o.stream.dirPos = o.leftAt

theorem Streams.handles_le (s : Streams sb) (n : Nat) :
    s.handles n ≤ s.openings.countP (·.isOpen) := by
  apply List.countP_mono_left
  intro o _ h
  rw [Bool.and_eq_true] at h
  exact h.1

/-- No handle is open yet. -/
theorem Steady.start (mounted : s.vol = v) (none : s.openings = []) : Steady v s := by
  constructor
  · have zero : s.handles = 0 := by
      funext n
      unfold Streams.handles
      rw [none]
      rfl
    rw [mounted, zero]
    exact v.holding_zero.symm
  · rw [none]
    decide
  · intro h o n hopen
    rw [none] at hopen
    cases hopen

/-- The counts do not wrap. -/
theorem Steady.counted (steady : Steady v s) (counted : v.Counted (2 ^ 31)) :
    s.vol.Counted (2 ^ 32 - 2) := by
  rw [steady.vol]
  refine counted.holding fun n => ?_
  have few := s.handles_le n
  have room := steady.room
  have bound := counted.bound n
  unfold structDirSize at room
  omega

/-- The directory behind a handle is what it was. -/
theorem Steady.inode (steady : Steady v s) (n : Nat) :
    s.vol.part = v.part ∧ (s.vol.inode n).iSectors = (v.inode n).iSectors ∧
    (s.vol.inode n).iSize = (v.inode n).iSize := by
  rw [steady.vol, Volume.holding_inode]
  exact ⟨rfl, rfl, rfl⟩

/-- A handle more. -/
theorem Steady.opened (steady : Steady v s)
    (room : (s.openings.countP (·.isOpen) + 1) * structDirSize ≤ 2 ^ 32) (dir : DirRef)
    (dirBuf : Buf) :
    Steady v
      { s with vol := s.vol.held dir, openings := s.openings ++ [⟨dir, ⟨0, dirBuf⟩, 0, true⟩] }
        where
  vol := by
    cases dir with
    | root =>
      refine steady.vol.trans (congrArg v.holding (funext fun n => ?_))
      show _ = List.countP _ (s.openings ++ _)
      rw [List.countP_append]
      rfl
    | opened n =>
      show s.vol.held (.opened n) = _
      rw [steady.vol, Volume.holding_held]
      congr 1
      funext m
      show _ = List.countP _ (s.openings ++ _)
      rw [List.countP_append, List.countP_singleton, Pi.add_apply, Pi.single_apply]
      unfold Streams.handles
      congr 1
      by_cases hm : m = n
      · simp [hm]
      · simp [hm, Ne.symm hm]
  room := by
    rw [List.countP_append]
    exact room
  own h o n hopen hdir := by
    rw [List.getElem?_append] at hopen
    split at hopen
    next => exact steady.own h o n hopen hdir
    next =>
      obtain rfl := List.mem_singleton.mp (List.mem_of_getElem? hopen)
      rfl

section Set

variable {α : Type} {l : List α} {i j : Nat} {a b : α}

theorem getElem?_set_cases (h : (l.set i a)[j]? = some b) :
    j = i ∧ b = a ∨ j ≠ i ∧ l[j]? = some b := by
  rw [List.getElem?_set] at h
  split at h
  next hij =>
    split at h
    next => exact .inl ⟨hij.symm, (Option.some.inj h).symm⟩
    next => cases h
  next hij => exact .inr ⟨Ne.symm hij, h⟩

theorem countP_set_kept (p : α → Bool) (a : α) (h : l[i]? = some b) (same : p a = p b) :
    (l.set i a).countP p = l.countP p := by
  obtain ⟨hlt, rfl⟩ := List.getElem?_eq_some_iff.mp h
  have one : (if p l[i] then 1 else 0) ≤ l.countP p := List.boole_getElem_le_countP hlt
  rw [List.countP_set hlt, same]
  omega

theorem countP_set_dropped (p : α → Bool) (a : α) (h : l[i]? = some b) (hb : p b = true)
    (ha : p a = false) : l.countP p = (l.set i a).countP p + 1 := by
  obtain ⟨hlt, rfl⟩ := List.getElem?_eq_some_iff.mp h
  have one : (if p l[i] then 1 else 0) ≤ l.countP p := List.boole_getElem_le_countP hlt
  rw [List.countP_set hlt, ha]
  rw [if_pos hb] at one ⊢
  simp only [Bool.false_eq_true, if_false]
  omega

end Set

/-- A call on a handle. -/
theorem Steady.called (steady : Steady v s) (hopen : s.openings[h]? = some o) (dir : DirStream) :
    Steady v (s.setStream h o dir) where
  vol := by
    refine steady.vol.trans (congrArg v.holding (funext fun n => ?_))
    exact (countP_set_kept (fun o => o.isOpen && o.dir == .opened n)
      { o with stream := dir, leftAt := dir.dirPos } hopen rfl).symm
  room := by
    have same := countP_set_kept (·.isOpen) { o with stream := dir, leftAt := dir.dirPos } hopen rfl
    show List.countP _ (s.openings.set h { o with stream := dir, leftAt := dir.dirPos }) * _ ≤ _
    rw [same]
    exact steady.room
  own h' o' n hopen' hdir := by
    rcases getElem?_set_cases hopen' with ⟨-, rfl⟩ | ⟨-, old⟩
    · rfl
    · exact steady.own h' o' n old hdir

/-- What is left when a handle on an inode is closed. -/
theorem Streams.handles_closed (hopen : s.openings[h]? = some o) (isOpen : o.isOpen = true)
    (hdir : o.dir = .opened n) :
    s.handles = (fun m => (s.openings.set h { o with isOpen := false }).countP fun o =>
      o.isOpen && o.dir == .opened m) + Pi.single n 1 := by
  funext m
  rw [Pi.add_apply, Pi.single_apply]
  by_cases hm : m = n
  · rw [if_pos hm]
    refine countP_set_dropped (fun o => o.isOpen && o.dir == .opened m)
      { o with isOpen := false } hopen ?_ rfl
    rw [isOpen, hdir, hm]
    exact beq_self_eq_true _
  · rw [if_neg hm]
    refine (countP_set_kept (fun o => o.isOpen && o.dir == .opened m) { o with isOpen := false }
      hopen ?_).symm
    rw [hdir]
    simp [Ne.symm hm]

/-- A handle less. -/
theorem Steady.closed (steady : Steady v s) (counted : v.Counted (2 ^ 31))
    (hopen : s.openings[h]? = some o) (isOpen : o.isOpen = true) :
    Steady v (s.closed h o) where
  vol := by
    show s.vol.dirClose o.dir = v.holding (s.closed h o).handles
    obtain hdir | ⟨n, hdir⟩ : o.dir = .root ∨ ∃ n, o.dir = .opened n := by
      cases o.dir with
      | root => exact .inl rfl
      | opened n => exact .inr ⟨n, rfl⟩
    · rw [hdir]
      refine steady.vol.trans (congrArg v.holding (funext fun n => ?_))
      have other (b : Bool) : (b && o.dir == .opened n) = false := by
        rw [hdir]
        exact Bool.and_false b
      exact (countP_set_kept (fun o => o.isOpen && o.dir == .opened n)
        { o with isOpen := false } hopen
        ((other false).trans (other o.isOpen).symm)).symm
    · -- the volume is one where the directory has just been opened
      have rest : s.handles = (s.closed h o).handles + Pi.single n 1 :=
        Streams.handles_closed hopen isOpen hdir
      have before := steady.vol
      rw [rest, ← Volume.holding_held] at before
      rw [hdir, before]
      refine Volume.dirClose_held
        (Volume.Counted.cnts (counted.holding fun m => ?_) (Nat.le_refl _)) _
      have fewer := congrFun rest m
      rw [Pi.add_apply] at fewer
      have few := s.handles_le m
      have room := steady.room
      have bound := counted.bound m
      unfold structDirSize at room
      omega
  room := by
    refine Nat.le_trans (Nat.mul_le_mul_right _ ?_) steady.room
    have one : _ = (s.closed h o).openings.countP (·.isOpen) + 1 :=
      countP_set_dropped (·.isOpen) { o with isOpen := false } hopen isOpen rfl
    omega
  own h' o' n hopen' hdir := by
    rcases getElem?_set_cases hopen' with ⟨-, rfl⟩ | ⟨-, old⟩
    · exact steady.own h o n hopen hdir
    · exact steady.own h' o' n old hdir

/-- The three kinds of step. -/
theorem dirStreams_cases {e : DirEvent} {out : Option DirEntry} (en : (dirStreams sb).enabled s e)
    (st : (dirStreams sb).step s e = .ok (s', out)) :
    (∃ name dirE dirBuf ret vol, e = .opendir name dirE dirBuf ∧
      sysOpendir s.vol dirE name = .ok (ret, vol) ∧
      (ret = none ∧ s' = { s with vol } ∨
        ∃ dir, ret = some dir ∧ s' =
        { s with vol, openings := s.openings ++ [⟨dir, ⟨0, dirBuf⟩, 0, true⟩] })) ∨
    (∃ h call o dir, e = .call h call ∧ s.openings[h]? = some o ∧ s' = s.setStream h o dir ∧
      call.run s.vol.part (s.vol.inode o.dir.inodeNo) (s.stream o) = .ok (out, dir)) ∨
    ∃ h o, e = .closedir h ∧ s.openings[h]? = some o ∧ o.isOpen = true ∧ s' = s.closed h o := by
  cases e with
  | opendir name dirE dirBuf =>
    obtain ⟨⟨ret, vol⟩, hopen, st⟩ := bind_eq_ok.mp st
    refine .inl ⟨name, dirE, dirBuf, ret, vol, rfl, hopen, ?_⟩
    cases ret with
    | none =>
      cases st
      exact .inl ⟨rfl, rfl⟩
    | some dir =>
      cases st
      exact .inr ⟨dir, rfl, rfl⟩
  | call h call =>
    obtain ⟨o, hopen, -⟩ := en
    change (match s.openings[h]? with | none => _ | some o => _) = _ at st
    rw [hopen] at st
    obtain ⟨⟨answer, dir⟩, hrun, st⟩ := bind_eq_ok.mp st
    cases st
    exact .inr (.inl ⟨h, call, o, dir, rfl, hopen, rfl, hrun⟩)
  | closedir h =>
    obtain ⟨o, hopen, isOpen⟩ := en
    change (match s.openings[h]? with | none => _ | some o => _) = _ at st
    rw [hopen] at st
    cases st
    exact .inr (.inr ⟨h, o, rfl, hopen, isOpen, rfl⟩)

theorem dirStreams_steady {e : DirEvent} {out : Option DirEntry} (counted : v.Counted (2 ^ 31))
    (steady : Steady v s) (en : (dirStreams sb).enabled s e)
    (st : (dirStreams sb).step s e = .ok (s', out)) : Steady v s' := by
  rcases dirStreams_cases en st with ⟨name, dirE, dirBuf, ret, vol, rfl, hopen, answer⟩ | ⟨h, call,
    o, dir, rfl, hopen, rfl, -⟩ |
    ⟨h, o, rfl, hopen, isOpen, rfl⟩
  · have held := sysOpendir_ok (steady.counted counted) hopen
    rcases answer with ⟨rfl, rfl⟩ | ⟨dir, rfl, rfl⟩
    · subst held
      exact steady
    · subst held
      exact steady.opened en dir dirBuf
  · exact steady.called hopen dir
  · exact steady.closed counted hopen isOpen

/-! ## Independence -/

variable {tr : List (Entry (Streams sb) DirEvent (Option DirEntry))}

/-- What holds after a run: on its own each handle would have answered the same, and be where it was
left. -/
def Followed (v : Volume sb) (tr : List (Entry (Streams sb) DirEvent (Option DirEntry)))
    (s : Streams sb) : Prop :=
  ∀ h o, s.openings[h]? = some o → ∃ dir, dir.dirPos = o.leftAt ∧
    solo v.part (v.inode o.dir.inodeNo) ((callsOn h tr).map Prod.fst) ⟨0, zeros⟩ =
      .ok ((callsOn h tr).map Prod.snd, dir)

theorem callsOn_append (h : Nat) (entry : Entry (Streams sb) DirEvent (Option DirEntry)) :
    callsOn h (tr ++ [entry]) = callsOn h tr ++ callsOn h [entry] := List.filterMap_append

theorem callsOn_called (s : Streams sb) (h : Nat) (call : StreamCall) (out : Option DirEntry) :
    callsOn h [⟨s, .call h call, out⟩] = [(call, out)] := by
  simp [callsOn]

theorem callsOn_other (s : Streams sb) {h h' : Nat} (ne : h ≠ h') (call : StreamCall)
    (out : Option DirEntry) : callsOn h [⟨s, .call h' call, out⟩] = [] := by
  simp [callsOn, Ne.symm ne]

/-- Nobody has called a handle that is not there yet. -/
theorem callsOn_new (path : (dirStreams sb).Path s tr s') (hlen : s'.openings.length ≤ h) :
    callsOn h tr = [] := by
  induction path with
  | start => rfl
  | @step tr s₁ s₂ e out path en st ih =>
    rw [callsOn_append]
    rcases dirStreams_cases en st with ⟨name, dirE, dirBuf, ret, vol, rfl, -, answer⟩ | ⟨h', call,
      o, dir, rfl, hopen, rfl, -⟩ |
      ⟨h', o, rfl, -, -, rfl⟩
    · have hlen : s₁.openings.length ≤ h := by
        rcases answer with ⟨-, rfl⟩ | ⟨dir, -, rfl⟩
        · exact hlen
        · rw [List.length_append] at hlen
          exact Nat.le_trans (Nat.le_add_right _ _) hlen
      rw [ih hlen]
      rfl
    · have same : (s₁.setStream h' o dir).openings.length = s₁.openings.length := List.length_set
      rw [same] at hlen
      have hlt := (List.getElem?_eq_some_iff.mp hopen).1
      rw [ih hlen, callsOn_other s₁ (Nat.ne_of_gt (Nat.lt_of_lt_of_le hlt hlen)) call out]
      rfl
    · have same : (s₁.closed h' o).openings.length = s₁.openings.length := List.length_set
      rw [same] at hlen
      rw [ih hlen]
      rfl

/-- A call on a handle that finds the stream where the handle left it. -/
theorem Followed.called {call : StreamCall} {out : Option DirEntry} {dir : DirStream}
    (followed : Followed v tr s) (steady : Steady v s) (hopen : s.openings[h]? = some o)
    (alone : LeftAlone s (.call h call))
    (hrun : call.run s.vol.part (s.vol.inode o.dir.inodeNo) (s.stream o) = .ok (out, dir)) :
    Followed v (tr ++ [⟨s, .call h call, out⟩]) (s.setStream h o dir) := by
  intro h' o' hopen'
  rw [callsOn_append]
  rcases getElem?_set_cases hopen' with ⟨rfl, rfl⟩ | ⟨ne, old⟩
  · obtain ⟨own, pos, hsolo⟩ := followed _ o hopen
    obtain ⟨part, sectors, size⟩ := steady.inode o.dir.inodeNo
    rw [part] at hrun
    -- the shared struct is where the handle left it, and a struct of its own is anyway
    have same : call = .readdir → own.dirPos = (s.stream o).dirPos := by
      rintro rfl
      rw [pos]
      cases hdir : o.dir with
      | root =>
        have shared : s.stream o = s.rootDir := by
          unfold Streams.stream
          rw [hdir]
        rw [shared]
        exact (alone o hopen hdir).symm
      | opened n =>
        have mine : s.stream o = o.stream := by
          unfold Streams.stream
          rw [hdir]
        rw [mine]
        exact (steady.own _ o n hopen hdir).symm
    obtain ⟨after, hrun', pos'⟩ := call.run_congr sectors.symm size.symm same hrun
    rw [callsOn_called, List.map_append, List.map_append]
    exact ⟨after, pos', solo_append hsolo hrun'⟩
  · rw [callsOn_other s ne, List.append_nil]
    exact followed h' o' old

/-- THE STEP. -/
theorem Followed.step {e : DirEvent} {out : Option DirEntry} {s₀ : Streams sb}
    (path : (dirStreams sb).Path s₀ tr s) (followed : Followed v tr s) (steady : Steady v s)
    (en : (dirStreams sb).enabled s e) (st : (dirStreams sb).step s e = .ok (s', out))
    (alone : LeftAlone s e) : Followed v (tr ++ [⟨s, e, out⟩]) s' := by
  rcases dirStreams_cases en st with ⟨name, dirE, dirBuf, ret, vol, rfl, -, answer⟩ | ⟨h, call, o,
    dir, rfl, hopen, rfl, hrun⟩ |
    ⟨h, o, rfl, hopen, -, rfl⟩
  · have quiet (h : Nat) : callsOn h (tr ++ [⟨s, .opendir name dirE dirBuf, out⟩]) =
        callsOn h tr := by
      rw [callsOn_append]
      exact List.append_nil _
    intro h o hopen
    rw [quiet]
    rcases answer with ⟨-, rfl⟩ | ⟨dir, -, rfl⟩
    · exact followed h o hopen
    · rw [List.getElem?_append] at hopen
      split at hopen
      next => exact followed h o hopen
      next hlen =>
        obtain rfl := List.mem_singleton.mp (List.mem_of_getElem? hopen)
        rw [callsOn_new path (Nat.le_of_not_lt hlen)]
        exact ⟨⟨0, zeros⟩, rfl, rfl⟩
  · exact followed.called steady hopen alone hrun
  · have quiet (h' : Nat) : callsOn h' (tr ++ [⟨s, .closedir h, out⟩]) = callsOn h' tr := by
      rw [callsOn_append]
      exact List.append_nil _
    intro h' o' hopen'
    rw [quiet]
    rcases getElem?_set_cases hopen' with ⟨rfl, rfl⟩ | ⟨-, old⟩
    · exact followed _ o hopen
    · exact followed h' o' old

/-- STREAMS ARE INDEPENDENT. In a run in which nobody else has moved `root_dir.dir_pos` when the
root is read through `&root_dir`, every handle answers what it would have answered on its own. -/
theorem streams_independent (v : Volume sb) (s₀ s : Streams sb)
    (tr : List (Entry (Streams sb) DirEvent (Option DirEntry))) (counted : v.Counted (2 ^ 31))
    (mounted : s₀.vol = v) (none : s₀.openings = []) (path : (dirStreams sb).Path s₀ tr s)
    (alone : Machine.Meets LeftAlone tr) : Independent v tr s := by
  have start : Steady v s₀ := .start mounted none
  have followed : Followed v tr s := by
    induction path with
    | start =>
      intro h o hopen
      rw [none] at hopen
      cases hopen
    | step path en st ih =>
      obtain ⟨earlier, last⟩ := Machine.meets_append.mp alone
      have steady := (path.invariant start (dirStreams_steady counted)).1
      exact (ih earlier).step path steady en st last
  intro h o hopen
  obtain ⟨dir, -, hsolo⟩ := followed h o hopen
  exact ⟨dir, hsolo⟩

/-! ## Two handles on the root -/

theorem tree_counted : treeVolume.Counted (2 ^ 31) := by
  constructor
  · intro n inode h
    rw [(tree_open h).2]
    decide
  · intro n
    show (if n = 0 then some treeRoot else none).elim 0 (·.iOpenCnts) < 2 ^ 31
    split
    next => decide
    next => decide

theorem tree_sizeCounts : SizeCounts treePart treeRoot := by
  unfold SizeCounts
  rw [tree_live_cells]
  rfl

theorem treeEntry_inj {i j : Nat} {e : Name × Nat × Nat} (hi : treeEntry i = some e)
    (hj : treeEntry j = some e) : i = j := by
  unfold treeEntry at hi hj
  split at hi <;> cases hi <;> split at hj <;> cases hj <;> rfl

/-- The first two entries of the root are not the same. -/
theorem tree_entryNo : entryNo treePart treeRoot 0 ≠ entryNo treePart treeRoot 1 := by
  have three : (liveCells treePart treeRoot).length = 3 := by
    rw [length_liveCells, tree_live_cells]
    rfl
  have used {c : Cell} (hc : c ∈ liveCells treePart treeRoot) : c.1 = 0 ∧
      cells treePart treeRoot c = treeEntry c.2 ∧ ∃ e, treeEntry c.2 = some e := by
    have bound : cells treePart treeRoot (c.1, c.2) ≠ none :=
      mt binding_none.mp (mem_liveCells.mp hc)
    have held := tree_cells c.1 c.2
    rw [held] at bound
    split at held
    next h0 =>
      rw [if_pos h0] at bound
      exact ⟨h0, held, Option.ne_none_iff_exists'.mp bound⟩
    next h0 => exact absurd (if_neg h0) bound
  have h0 : 0 < (liveCells treePart treeRoot).length := by omega
  have h1 : 1 < (liveCells treePart treeRoot).length := by omega
  unfold entryNo
  rw [List.getElem?_eq_getElem h0, List.getElem?_eq_getElem h1]
  intro same
  have same : cells treePart treeRoot (liveCells treePart treeRoot)[0] =
      cells treePart treeRoot (liveCells treePart treeRoot)[1] :=
    congrArg DirEntry.binding (Option.some.inj same)
  obtain ⟨zero, held, e, he⟩ := used (List.getElem_mem h0)
  obtain ⟨zero', held', -⟩ := used (List.getElem_mem h1)
  have slots := treeEntry_inj he (held'.symm.trans (same.symm.trans (held.trans he)))
  have cells := liveCells_nodup.getElem_inj_iff.mp (Prod.ext (zero.trans zero'.symm) slots)
  cases cells

/-- The machine with `"/"` opened `n` times and nothing read. -/
def rootOpened (n : Nat) : Streams smallDisk :=
  ⟨treeVolume, ⟨0, zeros⟩, List.replicate n ⟨.root, ⟨0, zeros⟩, 0, true⟩⟩

theorem rootOpened_step (n : Nat) :
    (dirStreams smallDisk).step (rootOpened n) (.opendir [slash] emptyEntry zeros) =
      .ok (rootOpened (n + 1), none) := by
  have short : sysOpendir treeVolume emptyEntry [slash] = .ok (some .root, treeVolume) :=
    sysOpendir_shortcut ⟨⟨_, rfl⟩, by decide, by decide⟩ (.inr rfl)
  show (do let (ret, vol) ← sysOpendir treeVolume emptyEntry [slash]; _) = _
  rw [short, ok_bind]
  have more (openings : List DirOpening) (h : openings = (rootOpened (n + 1)).openings) :
      (Except.ok (⟨treeVolume, ⟨0, zeros⟩, openings⟩, none) : Except Fault
        (Streams smallDisk × Option DirEntry)) =
        .ok (rootOpened (n + 1), none) := by
    rw [h]
    rfl
  exact more _ List.replicate_succ'.symm

theorem tree_steady {s₀ s : Streams smallDisk}
    {tr : List (Entry (Streams smallDisk) DirEvent (Option DirEntry))}
    (path : (dirStreams smallDisk).Path s₀ tr s) (mounted : s₀.vol = treeVolume)
    (none : s₀.openings = []) : Steady treeVolume s :=
  (path.invariant (Steady.start mounted none) (dirStreams_steady tree_counted)).1

/-- A read of the root through any handle answers the entry that the handle's struct has come to. -/
theorem root_read {s : Streams smallDisk} {k : Nat} (steady : Steady treeVolume s)
    (hopen : s.openings[h]? = some o) (isOpen : o.isOpen = true) (root : o.dir.inodeNo = 0)
    (after : After treePart treeRoot k (s.stream o)) :
    ∃ dir, After treePart treeRoot (k + 1) dir ∧
      (dirStreams smallDisk).enabled s (.call h .readdir) ∧
      (dirStreams smallDisk).step s (.call h .readdir) =
        .ok (s.setStream h o dir, entryNo treePart treeRoot k) := by
  obtain ⟨own, hread, after'⟩ := dirRead_next tree_sizeCounts after
  obtain ⟨part, sectors, size⟩ := steady.inode 0
  have here : (s.stream o).dirPos = (s.stream o).dirPos := rfl
  obtain ⟨dir, hread', pos⟩ := dirRead_congr sectors size here hread
  refine ⟨dir, pos.trans after', ⟨o, hopen, isOpen⟩, ?_⟩
  show (match s.openings[h]? with | none => _ | some o => _) = _
  rw [hopen]
  show (do let (dirE, dir) ← dirRead s.vol.part (s.vol.inode o.dir.inodeNo) (s.stream o); _) = _
  rw [root, part]
  change (do let (dirE, dir) ← dirRead treePart (s.vol.inode 0) (s.stream o); _) = _
  rw [hread']
  rfl

/-- `"//."` is searched for, and opened with a struct of its own. -/
theorem dot_opened (dirE : DirEntry) :
    ∃ vol, sysOpendir treeVolume dirE [slash, slash, dot] = .ok (some (.opened 0), vol) := by
  have valid : ValidPath [slash, slash, dot] := ⟨⟨_, rfl⟩, by decide, by decide⟩
  have names : components [slash, slash, dot] = [dotName] := by decide
  obtain ⟨e, found, zero, isDir⟩ := tree_found (i := 0) rfl
  have walked : walk treeVolume 0 [dotName] = some (0, ftDirectory) := by
    unfold walk
    rw [found]
    dsimp only
    rw [if_pos isDir, zero]
    rfl
  have whole : throughFile treeVolume 0 [dotName] = false := by
    unfold throughFile
    rw [found]
    dsimp only
    rw [if_pos isDir]
    rfl
  have last : components [slash, slash, dot] = [] → toInt dirE.iNo = 0 := by
    rw [names]
    intro h
    cases h
  obtain ⟨s, hsearch, held, type, -⟩ :=
    searchFile_walk tree_consistent.toTree valid (by decide) (by rw [names]; exact whole) last
  rw [names, walked] at hsearch type
  exact ⟨_, sysOpendir_found tree_consistent.toTree ⟨valid.length, by decide⟩ hsearch held
    (by decide) type⟩

theorem rootOpened_open {n i : Nat} (hi : i < n) :
    (rootOpened n).openings[i]? = some ⟨.root, ⟨0, zeros⟩, 0, true⟩ := by
  show (List.replicate n _)[i]? = _
  rw [List.getElem?_replicate, if_pos hi]

theorem rootOpened_after (n : Nat) : After treePart treeRoot 0 (rootOpened n).rootDir :=
  after_rewinddir ⟨0, zeros⟩

/-- The root is opened as `"/"` and as `"//."`, and read through both in turn. -/
theorem streams_independent_both :
    ∃ tr s, Independent treeVolume tr s ∧
      callsOn 0 tr = [(.readdir, entryNo treePart treeRoot 0),
        (.readdir, entryNo treePart treeRoot 1)] ∧
      callsOn 1 tr = [(.readdir, entryNo treePart treeRoot 0)] := by
  have room₀ : (dirStreams smallDisk).enabled (rootOpened 0) (.opendir [slash] emptyEntry zeros) :=
    show 1 * 520 ≤ 2 ^ 32 by decide
  have room₁ : (dirStreams smallDisk).enabled (rootOpened 1)
      (.opendir [slash, slash, dot] emptyEntry zeros) :=
    show 2 * 520 ≤ 2 ^ 32 by decide
  obtain ⟨vol, hopendir⟩ := dot_opened emptyEntry
  have st :
      (dirStreams smallDisk).step (rootOpened 1) (.opendir [slash, slash, dot] emptyEntry zeros) =
      .ok (⟨vol, ⟨0, zeros⟩, [⟨.root, ⟨0, zeros⟩, 0, true⟩, ⟨.opened 0, ⟨0, zeros⟩, 0, true⟩]⟩,
        none) := by
    show (do let (ret, vol) ← sysOpendir treeVolume emptyEntry [slash, slash, dot]; _) = _
    rw [hopendir]
    rfl
  have opened := (Machine.Path.start.step room₀ (rootOpened_step 0)).step room₁ st
  obtain ⟨dir, after, en, st⟩ :=
    root_read (h := 0) (k := 0) (tree_steady opened rfl rfl) rfl rfl rfl
      (after_rewinddir ⟨0, zeros⟩)
  have first := opened.step en st
  obtain ⟨dir', -, en, st⟩ :=
    root_read (h := 1) (k := 0) (tree_steady first rfl rfl) rfl rfl rfl (after_rewinddir ⟨0, zeros⟩)
  have second := first.step en st
  obtain ⟨dir'', -, en, st⟩ :=
    root_read (h := 0) (k := 1) (tree_steady second rfl rfl) rfl rfl rfl after
  have third := second.step en st
  refine ⟨_, _, streams_independent treeVolume _ _ _ tree_counted rfl rfl third ?_, rfl, rfl⟩
  intro entry hmem
  simp only [List.nil_append, List.cons_append, List.mem_cons, List.not_mem_nil, or_false] at hmem
  rcases hmem with rfl | rfl | rfl | rfl | rfl
  · trivial
  · trivial
  · rintro o ⟨⟩ -
    rfl
  · rintro o ⟨⟩ root
    cases root
  · rintro o ⟨⟩ -
    rfl

/-- Of two handles on the root the second one read goes on where the first has stopped. -/
theorem root_shared : ¬ ∀ (sb : SuperBlock) (v : Volume sb) (s₀ s : Streams sb)
    (tr : List (Entry (Streams sb) DirEvent (Option DirEntry))), v.Counted (2 ^ 31) → s₀.vol = v →
    s₀.openings = [] →
      (dirStreams sb).Path s₀ tr s → Independent v tr s := by
  intro claim
  have room₀ : (dirStreams smallDisk).enabled (rootOpened 0) (.opendir [slash] emptyEntry zeros) :=
    show 1 * 520 ≤ 2 ^ 32 by decide
  have room₁ : (dirStreams smallDisk).enabled (rootOpened 1) (.opendir [slash] emptyEntry zeros) :=
    show 2 * 520 ≤ 2 ^ 32 by decide
  have path := (Machine.Path.start.step room₀ (rootOpened_step 0)).step room₁ (rootOpened_step 1)
  have first := rootOpened_open (show 0 < 2 by decide)
  obtain ⟨dir, after, en, st⟩ :=
    root_read (tree_steady path rfl rfl) first rfl rfl (rootOpened_after 2)
  have path := path.step en st
  have second : ((rootOpened 2).setStream 0 ⟨.root, ⟨0, zeros⟩, 0, true⟩ dir).openings[1]? =
      some ⟨.root, ⟨0, zeros⟩, 0, true⟩ := rfl
  obtain ⟨dir', -, en', st'⟩ := root_read (tree_steady path rfl rfl) second rfl rfl after
  have path := path.step en' st'
  obtain ⟨own, alone⟩ := claim smallDisk treeVolume _ _ _ tree_counted rfl rfl path 1 _ rfl
  obtain ⟨last, hread, -⟩ := dirRead_next tree_sizeCounts (rootOpened_after 0)
  have expected : solo treePart treeRoot [.readdir] ⟨0, zeros⟩ =
      .ok ([entryNo treePart treeRoot 0], last) := by
    show (do let (answer, dir) ← dirRead treePart treeRoot (rootOpened 0).rootDir; _) = _
    rw [hread]
    rfl
  change solo treePart treeRoot [.readdir] ⟨0, zeros⟩ =
    .ok ([entryNo treePart treeRoot 1], own) at alone
  rw [expected] at alone
  exact tree_entryNo (List.cons.inj (Prod.mk.inj (Except.ok.inj alone)).1).1

end SeekingOs.Fs
