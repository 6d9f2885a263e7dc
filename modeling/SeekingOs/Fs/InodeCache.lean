import SeekingOs.Fs.OneWriter
import SeekingOs.Fs.Search

/-!
# The inodes in memory, by address

`inode_open` looks for a number on `open_inodes` and, where it is not there, loads the inode to new
memory. Here an inode in memory is known by its address, so that two of them may have one number.
`search_file` holds one directory at a time; what it leaves behind is that directory, opened once
more than before.

`sys_malloc` answers where the code does not ask whether it has.
-/

namespace SeekingOs.Fs

open Lib

variable {sb : SuperBlock}

/-- The mounted partition and the inodes in memory. -/
structure Cache (sb : SuperBlock) where
  part : Part sb
  /-- `open_inodes`, by address. -/
  openInodes : List Nat
  inode : Nat → Inode
  /-- `root_dir.inode` -/
  rootInode : Nat
  /-- Ghost: the addresses from here on are unused. -/
  next : Nat

/-- `struct dir *`: `&root_dir`, or a directory with its inode at an address. -/
inductive DirHandle where
  | root
  | opened (inode : Nat)
  deriving DecidableEq, Repr

namespace Cache

variable (c : Cache sb)

def setInode (a : Nat) (inode : Inode) : Cache sb :=
  { c with inode := Function.update c.inode a inode }

/-- `sys_malloc` and `list_push`, with `i_open_cnts = 1`. -/
def push (inode : Inode) : Cache sb :=
  { c with
    openInodes := c.next :: c.openInodes
    inode := Function.update c.inode c.next { inode with iOpenCnts := 1 }
    next := c.next + 1 }

/-- `inode_open` -/
def inodeOpen (inodeNo : Nat) : Except Fault (Cache sb × Nat) :=
  match c.openInodes.find? fun a => (c.inode a).iNo == inodeNo with
  | some a =>
    return (c.setInode a { c.inode a with iOpenCnts := u32 ((c.inode a).iOpenCnts + 1) }, a)
  | none => do
    let _ ← inodeLocate sb inodeNo
    return (c.push (diskInode c.part inodeNo), c.next)

/-- `inode_close` -/
def inodeClose (a : Nat) : Cache sb :=
  let openCnts := u32 ((c.inode a).iOpenCnts - 1)
  let c := c.setInode a { c.inode a with iOpenCnts := openCnts }
  if openCnts = 0 then { c with openInodes := c.openInodes.erase a } else c

/-- `dir->inode` -/
def dirInode : DirHandle → Nat
  | .root => c.rootInode
  | .opened a => a

/-- `dir_open` -/
def dirOpen (inodeNo : Nat) : Except Fault (Cache sb × DirHandle) := do
  let (c, a) ← c.inodeOpen inodeNo
  return (c, .opened a)

/-- `dir_close` -/
def dirClose : DirHandle → Cache sb
  | .root => c
  | .opened a => c.inodeClose a

/-- `search_dir_entry`; `heap` says whether `sys_malloc` answers. -/
def searchDirEntry (heap : Bool) (pdir : DirHandle) (name : Name) : Option DirEntry :=
  Fs.searchDirEntry heap c.part (c.inode (c.dirInode pdir)) name

end Cache

/-! ## The search -/

/-- The variables of `search_file`, `searched_record` among them. -/
structure Walk (sb : SuperBlock) where
  cache : Cache sb
  searchedPath : List Byte
  parentDir : DirHandle
  fileType : Nat
  parentInodeNo : Nat
  dirE : DirEntry

/-- The loop of `search_file`, and what comes after it when the names are used up. `heap` says
whether `sys_malloc` answers `search_dir_entry` when the searched path has a length. -/
def walkLoop (heap : Nat → Bool) (w : Walk sb) (name : Name) (sub : Option (List Byte)) :
    Except Fault (Int × Walk sb) :=
  if hname : name = [] then do
    let (cache, parentDir) ← (w.cache.dirClose w.parentDir).dirOpen w.parentInodeNo
    return (toInt w.dirE.iNo, { w with cache, parentDir, fileType := ftDirectory })
  else
    match appendName w.searchedPath name with
    | .error fault => .error fault
    | .ok searchedPath =>
      let w := { w with searchedPath }
      match w.cache.searchDirEntry (heap searchedPath.length) w.parentDir name with
      | none => .ok (-1, w)
      | some dirE =>
        match _hnext : nextName sub with
        | .error fault => .error fault
        | .ok (name', sub') =>
          let w := { w with dirE }
          if dirE.fType = ftDirectory then
            let parentInodeNo := (w.cache.inode (w.cache.dirInode w.parentDir)).iNo
            match (w.cache.dirClose w.parentDir).dirOpen dirE.iNo with
            | .error fault => .error fault
            | .ok (cache, parentDir) =>
              walkLoop heap { w with cache, parentDir, parentInodeNo } name' sub'
          else if dirE.fType = ftRegular then .ok (toInt dirE.iNo, { w with fileType := ftRegular })
          else walkLoop heap w name' sub'
termination_by (subLength sub, name.length)
decreasing_by
  all_goals
    rcases nextName_lt hname _hnext with h | ⟨h, h'⟩
    · exact Prod.Lex.left _ _ h
    · rw [h]
      exact Prod.Lex.right _ h'

/-- `search_file`; `dirE` is what the stack holds where `dir_e` will be. The record has been
cleared. -/
def Cache.searchFile (heap : Nat → Bool) (c : Cache sb) (dirE : DirEntry) (pathName : List Byte) :
    Except Fault (Int × Walk sb) :=
  if pathName ∈ rootNames then .ok (0, ⟨c, [], .root, ftDirectory, 0, dirE⟩)
  else do
    assertThat false (pathName.head? = some slash ∧ 1 < pathName.length ∧
      pathName.length < maxPathLen) "search_file"
      "path_name[0] == '/' && path_len > 1 && path_len < MAX_PATH_LEN"
    let (name, subPath) ← pathParse pathName
    walkLoop heap ⟨c, [], .root, ftUnkown, 0, dirE⟩ name subPath

/-- The loop of `path_depth_cnt` -/
def depthLoop (name : Name) (sub : Option (List Byte)) : Except Fault Nat :=
  if _hname : name = [] then .ok 0
  else
    match _hnext : nextName sub with
    | .error fault => .error fault
    | .ok (name', sub') => (depthLoop name' sub').map (· + 1)
termination_by (subLength sub, name.length)
decreasing_by
  rcases nextName_lt _hname _hnext with h | ⟨h, h'⟩
  · exact Prod.Lex.left _ _ h
  · rw [h]
    exact Prod.Lex.right _ h'

/-- `path_depth_cnt` -/
def pathDepthCnt (pathName : List Byte) : Except Fault Nat := do
  let (name, sub) ← pathParse pathName
  depthLoop name sub

/-! ## Who has an inode open -/

/-- The inodes on `open_inodes`, by address, with their `i_open_cnts` and `writen_deny`. -/
def Cache.users (c : Cache sb) (a : Nat) : Option (Nat × Bool) :=
  if a ∈ c.openInodes then some ((c.inode a).iOpenCnts, (c.inode a).writenDeny) else none

/-- The list has an inode once, and `sys_malloc` answers none of those on it. -/
structure Cache.Listed (c : Cache sb) : Prop where
  nodup : c.openInodes.Nodup
  fresh : ∀ a ∈ c.openInodes, a < c.next

/-- Whoever is on the list has it open: what `inode_close` keeps. -/
structure Cache.Sound (c : Cache sb) : Prop extends Cache.Listed c where
  counts : ∀ a k deny, c.users a = some (k, deny) → 0 < k ∧ k < 2 ^ 32

/-- From `c` on, a directory has been opened and not closed. -/
inductive Held (c c' : Cache sb) : DirHandle → Prop
  | root (same : c'.users = c.users) : Held c c' .root
  | again {a k : Nat} {deny : Bool} (had : c.users a = some (k, deny))
      (users : c'.users = Function.update c.users a (some (u32 (k + 1), deny))) :
        Held c c' (.opened a)
  | loaded {a : Nat} {deny : Bool} (had : c.users a = none)
      (users : c'.users = Function.update c.users a (some (1, deny))) : Held c c' (.opened a)

variable {c c' c'' : Cache sb} {d : DirHandle} {n a : Nat}

theorem users_some {k : Nat} {deny : Bool} (h : c.users a = some (k, deny)) :
    a ∈ c.openInodes ∧ (c.inode a).iOpenCnts = k ∧ (c.inode a).writenDeny = deny := by
  unfold Cache.users at h
  split at h
  next hmem =>
    cases h
    exact ⟨hmem, rfl, rfl⟩
  next => cases h

theorem users_none : c.users a = none ↔ a ∉ c.openInodes := by
  unfold Cache.users
  split
  next h => simp [h]
  next h => simp [h]

/-- A change of an inode on the list. -/
theorem users_setInode (hmem : a ∈ c.openInodes) (inode : Inode) :
    (c.setInode a inode).users =
      Function.update c.users a (some (inode.iOpenCnts, inode.writenDeny)) := by
  funext b
  unfold Cache.users Cache.setInode
  dsimp only
  by_cases hb : b = a
  · subst hb
    rw [if_pos hmem, Function.update_self, Function.update_self]
  · rw [Function.update_of_ne hb, Function.update_of_ne hb]

/-- OPENING. -/
theorem Cache.Listed.inodeOpen (h : c.Listed) (hopen : c.inodeOpen n = .ok (c', a)) :
    c'.Listed ∧ Held c c' (.opened a) := by
  unfold Cache.inodeOpen at hopen
  split at hopen
  next b hfind =>
    cases hopen
    have hmem := List.mem_of_find?_eq_some hfind
    refine ⟨⟨h.nodup, h.fresh⟩, ?_⟩
    apply @Held.again _ _ _ a (c.inode a).iOpenCnts (c.inode a).writenDeny
    · exact if_pos hmem
    · exact users_setInode hmem _
  next =>
    obtain ⟨_, _, hopen⟩ := bind_eq_ok.mp hopen
    cases hopen
    have hnew : c.next ∉ c.openInodes := fun hmem => absurd (h.fresh _ hmem) (Nat.lt_irrefl _)
    constructor
    · constructor
      · exact List.nodup_cons.mpr ⟨hnew, h.nodup⟩
      · intro b hb
        rcases List.mem_cons.mp hb with rfl | hb
        · exact Nat.lt_succ_self _
        · exact Nat.lt_succ_of_lt (h.fresh b hb)
    · apply @Held.loaded _ _ _ c.next (diskInode c.part n).writenDeny (users_none.mpr hnew)
      funext b
      by_cases hb : b = c.next
      · subst hb
        rw [Function.update_self]
        unfold Cache.users Cache.push
        dsimp only
        rw [if_pos List.mem_cons_self, Function.update_self]
      · rw [Function.update_of_ne hb]
        unfold Cache.users Cache.push
        simp [hb]

/-- Closing, seen from the list. -/
theorem Cache.Listed.inodeClose (h : c.Listed) {k : Nat} {deny : Bool}
    (had : c.users a = some (k, deny)) :
    (c.inodeClose a).Listed ∧
      (c.inodeClose a).users = Function.update c.users a (if u32 (k - 1) = 0 then none
        else some (u32 (k - 1), deny)) := by
  obtain ⟨hmem, rfl, rfl⟩ := users_some had
  unfold Cache.inodeClose
  dsimp only
  by_cases h0 : u32 ((c.inode a).iOpenCnts - 1) = 0
  · rw [if_pos h0, if_pos h0]
    constructor
    · constructor
      · exact h.nodup.erase a
      · intro b hb
        exact h.fresh b (List.mem_of_mem_erase hb)
    · funext b
      by_cases hb : b = a
      · subst hb
        rw [Function.update_self]
        exact users_none.mpr fun hin => absurd rfl (h.nodup.mem_erase_iff.mp hin).1
      · rw [Function.update_of_ne hb]
        unfold Cache.users Cache.setInode
        dsimp only
        simp only [Function.update_of_ne hb, List.mem_erase_of_ne hb]
  · rw [if_neg h0, if_neg h0]
    exact ⟨⟨h.nodup, h.fresh⟩, users_setInode hmem _⟩

/-- CLOSING UNDOES OPENING. -/
theorem Held.dirClose (held : Held c c' d) (sound : c.Sound) (h : c'.Listed) :
    (c'.dirClose d).Listed ∧ (c'.dirClose d).users = c.users := by
  cases held with
  | root same => exact ⟨h, same⟩
  | @again a k deny had users =>
    have hself : c'.users a = some (u32 (k + 1), deny) := by
      rw [users, Function.update_self]
    obtain ⟨listed, closed⟩ := h.inodeClose hself
    refine ⟨listed, closed.trans ?_⟩
    obtain ⟨hpos, hlt⟩ := sound.counts a k deny had
    have hback : u32 (u32 (k + 1) - 1) = k := by
      unfold u32
      omega
    rw [users, Function.update_idem, hback, if_neg (Nat.ne_of_gt hpos), ← had,
      Function.update_eq_self]
  | @loaded a deny had users =>
    have hself : c'.users a = some (1, deny) := by
      rw [users, Function.update_self]
    obtain ⟨listed, closed⟩ := h.inodeClose hself
    refine ⟨listed, closed.trans ?_⟩
    have h0 : u32 ((1 : Nat) - 1) = 0 := rfl
    rw [users, Function.update_idem, if_pos h0, ← had, Function.update_eq_self]

/-- A directory is opened where another has been closed. -/
theorem Cache.Listed.dirOpen (h : c'.Listed) (same : c'.users = c.users)
    (hopen : c'.dirOpen n = .ok (c'', d)) : c''.Listed ∧ Held c c'' d := by
  unfold Cache.dirOpen at hopen
  obtain ⟨⟨c₁, a⟩, hinode, hopen⟩ := bind_eq_ok.mp hopen
  cases hopen
  obtain ⟨listed, held⟩ := h.inodeOpen hinode
  refine ⟨listed, ?_⟩
  cases held with
  | again had users => exact .again (same ▸ had) (same ▸ users)
  | loaded had users => exact .loaded (same ▸ had) (same ▸ users)

/-- THE SEARCH holds one directory. -/
theorem walkLoop_held {heap : Nat → Bool} {w w' : Walk sb} {name : Name} {sub : Option (List Byte)}
    {r : Int} (sound : c.Sound) (held : Held c w.cache w.parentDir) (listed : w.cache.Listed)
    (h : walkLoop heap w name sub = .ok (r, w')) :
    w'.cache.Listed ∧ Held c w'.cache w'.parentDir := by
  fun_induction walkLoop heap w name sub with
  | case1 w sub =>
    obtain ⟨⟨cache, parentDir⟩, hopen, h⟩ := bind_eq_ok.mp h
    cases h
    obtain ⟨closed, same⟩ := held.dirClose sound listed
    exact closed.dirOpen same hopen
  | case2 => cases h
  | case3 =>
    obtain ⟨-, rfl⟩ := Prod.mk.inj (Except.ok.inj h)
    exact ⟨listed, held⟩
  | case4 => cases h
  | case5 => cases h
  | case6 w name sub hname path hpath w₁ dirE hfound name' sub' hnext w₂ hdir parentInodeNo cache
      parentDir hopen ih =>
    obtain ⟨closed, same⟩ := held.dirClose sound listed
    obtain ⟨listed', held'⟩ := closed.dirOpen same hopen
    exact ih held' listed' h
  | case7 =>
    obtain ⟨-, rfl⟩ := Prod.mk.inj (Except.ok.inj h)
    exact ⟨listed, held⟩
  | case8 w name sub hname path hpath w₁ dirE hfound name' sub' hnext w₂ hdir hreg ih =>
    exact ih held listed h

/-- A directory that is held makes a difference to who has an inode open. -/
theorem Held.users_ne (held : Held c c' (.opened a)) (sound : c.Sound) : c'.users ≠ c.users := by
  intro heq
  cases held with
  | @again _ k deny had users =>
    have hself := congrFun users a
    obtain ⟨hpos, hlt⟩ := sound.counts a k deny had
    rw [Function.update_self, heq, had] at hself
    have hcnt := (Prod.mk.inj (Option.some.inj hself)).1
    unfold u32 at hcnt
    omega
  | loaded had users =>
    have hself := congrFun users a
    rw [Function.update_self, heq, had] at hself
    cases hself

/-- What `search_file` leaves behind. -/
theorem searchFile_held {heap : Nat → Bool} {dirE : DirEntry} {pathName : List Byte} {r : Int}
    {w : Walk sb} (sound : c.Sound) (h : c.searchFile heap dirE pathName = .ok (r, w)) :
    w.cache.Listed ∧ Held c w.cache w.parentDir := by
  unfold Cache.searchFile at h
  split at h
  · cases h
    exact ⟨sound.toListed, .root rfl⟩
  · obtain ⟨_, _, h⟩ := bind_eq_ok.mp h
    obtain ⟨⟨name, sub⟩, _, h⟩ := bind_eq_ok.mp h
    exact walkLoop_held sound (.root rfl) sound.toListed h

end SeekingOs.Fs
