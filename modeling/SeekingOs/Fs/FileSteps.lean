import SeekingOs.Fs.PathSteps
import SeekingOs.Fs.Rollback

/-!
# The calls that open files and use them

From a session that shows a store, `sys_close`, `sys_write`, `sys_read`, `sys_lseek` and `sys_open`
lead to a session that shows what the call makes of the store.
-/

namespace SeekingOs.Fs

open Lib Lib.Machine

variable {sb : SuperBlock} {aside : Nat → Prop} {s : Session sb} {S S' : Store} {path : List Byte}
  {dirE : DirEntry} {name : Name} {n : Nat}
  {ret : Int} {record : PathSearchRecord} {p : Part sb} {parent : Inode}

/-! ## Descriptors -/

/-- WHERE A DESCRIPTOR LEADS: one of the first three to a slot without an inode, any other to the
slot of a file. -/
theorem Shows.descriptor (shows : Shows aside s S) {fd g : Nat} (hfd : fd < 8)
    (h : s.fdLocal2global fd = .ok g) :
    fd < 3 ∧ s.file g = { s.file g with fdInode := none } ∨
      ∃ n pos flag hang, 3 ≤ fd ∧ g < 32 ∧ s.fdTable fd = g ∧ s.file g = ⟨pos, flag, some n⟩ ∧
        S.fds fd = some ⟨n, pos, flag⟩ ∧
        S.up n = some hang ∧ hang.kind = ftRegular := by
  unfold Session.fdLocal2global at h
  obtain ⟨_, hassert, h⟩ := bind_eq_ok.mp h
  have range := assertThat_ok hassert
  cases h
  have desc := shows.descriptors
  by_cases hstd : fd < 3
  · obtain ⟨k, hk, hfd'⟩ := desc.std fd hstd
    refine .inl ⟨hstd, ?_⟩
    rw [hfd', Int.toNat_natCast, ← desc.reserved k hk]
  · refine .inr ?_
    cases hopen : S.fds fd with
    | none =>
      have unused := desc.closed fd (by omega) hfd hopen
      rw [unused] at range
      exact absurd range.1 (by decide)
    | some o =>
      obtain ⟨k, hk, hfd', slot⟩ := desc.opened fd o hopen
      obtain ⟨hang, hn, kind⟩ := shows.files o.file (mem_openFiles.mpr ⟨k, hk, by rw [slot]⟩)
      rw [hfd', Int.toNat_natCast]
      exact ⟨o.file, o.offset, o.flag, hang, by omega, hk, rfl, slot, rfl, hn, kind⟩

/-- A slot without an inode. -/
theorem noInode {file : File} (h : file = { file with fdInode := none }) :
    file.fdInode = none := by rw [h]

/-! ## `sys_close` -/

/-- A close counts one less of the inode's users. -/
theorem Volume.inodeClose_openCnts {v : Volume sb} {inode : Inode} (m : Nat) :
    (v.inodeClose n p inode).openCnts m = if m = n then u32 ((inode.iOpenCnts : Int) - 1)
      else v.openCnts m := by
  by_cases e : m = n
  · subst e
    rw [if_pos rfl]
    unfold Volume.openCnts Volume.inodeClose
    dsimp only
    rw [Function.update_self]
    split
    next h0 => exact h0.symm
    next => rfl
  · rw [if_neg e]
    unfold Volume.openCnts
    rw [Volume.inodeClose_other e]

/-- A FILE IS CLOSED. -/
theorem Shows.fileClose (shows : Shows aside s S) {hang : Hang Nat Name Nat}
    (hn : S.up n = some hang) (kind : hang.kind = ftRegular) {fd g pos flag : Nat} (hg : g < 32)
    (slot : s.file g = ⟨pos, flag, some n⟩) (hfd : s.fdTable fd = g)
    (hopen : S.fds fd = some ⟨n, pos, flag⟩) (like : Alike parent (s.vol.inode n))
    (cnts : parent.iOpenCnts = s.vol.openCnts n) :
    Shows aside { s with vol := s.vol.inodeClose n s.vol.part parent,
                         file := Function.update s.file g { s.file g with fdInode := none },
                         fdTable := Function.update s.fdTable fd (-1) } (S.setFd fd none) := by
  have hn0 := shows.loaded.fsck.tree.ne_root hn
  have used : (s.file g).fdInode = some n := by rw [slot]
  have perm : s.openFiles.Perm (n :: Session.openFiles { s with
      vol := s.vol.inodeClose n s.vol.part parent, file :=
        Function.update s.file g { s.file g with fdInode := none },
      fdTable := Function.update s.fdTable fd (-1) }) := openFiles_emptied (f :=
        { s.file g with fdInode := none }) hg used rfl rfl
  -- the slot is one of the users
  have counted := shows.users n hang hn kind
  rw [perm.count_eq, List.count_cons_self] at counted
  have bound : s.openFiles.length ≤ 32 :=
    Nat.le_trans (List.length_filterMap_le _ _) (Nat.le_of_eq List.length_range)
  have most := List.count_le_length (a := n) (l := s.openFiles)
  rw [perm.count_eq, List.count_cons_self, ← counted] at most
  have back : u32 ((parent.iOpenCnts : Int) - 1) = s.vol.openCnts n - 1 := by
    rw [cnts]
    unfold u32
    omega
  exact {
    loaded := by
      refine ⟨shows.loaded.fsck, fun m inode hm => ?_⟩
      by_cases e : m = n
      · subst e
        have alike := like.trans (shows.loaded.alike m)
        unfold Volume.inodeClose at hm
        dsimp only at hm
        rw [Function.update_self] at hm
        split at hm
        next => cases hm
        next more =>
          cases hm
          exact ⟨here_of hn, ⟨alike.iNo, alike.iSize, alike.iSectors⟩, Nat.pos_of_ne_zero more⟩
      · rw [Volume.inodeClose_other e] at hm
        exact shows.loaded.opened m inode hm
    rootOpen := by
      rw [Volume.inodeClose_other (Ne.symm hn0)]
      exact shows.rootOpen
    plain := shows.plain
    data := shows.data
    users m k hm kind := by
      rw [Volume.inodeClose_openCnts, back]
      by_cases e : m = n
      · subst e
        rw [if_pos rfl, counted, Nat.add_sub_cancel]
      · have before := shows.users m k hm kind
        rw [perm.count_eq, List.count_cons_of_ne (Ne.symm e)] at before
        rw [if_neg e, before]
    files m hm := shows.files m (perm.mem_iff.mpr (List.mem_cons_of_mem _ hm))
    offsets k hk m hm := by
      change (Function.update s.file g _ k).fdInode = some m at hm
      show (Function.update s.file g _ k).fdPos ≤ _
      by_cases e : k = g
      · subst e
        rw [Function.update_self] at hm
        cases hm
      · rw [Function.update_of_ne e] at hm ⊢
        exact shows.offsets k hk m hm
    descriptors := shows.descriptors.close hopen hfd }

theorem Volume.inode_cnts {v : Volume sb} (h : v.openCnts n ≠ 0) :
    (v.inode n).iOpenCnts = v.openCnts n := by
  unfold Volume.openCnts at h ⊢
  unfold Volume.inode
  cases hopen : v.openInodes n with
  | none =>
    rw [hopen] at h
    exact absurd rfl h
  | some inode => rfl

/-- A file that is in a slot is open. -/
theorem Shows.inSlot (shows : Shows aside s S) {hang : Hang Nat Name Nat} (hn : S.up n = some hang)
    (kind : hang.kind = ftRegular) {g : Nat} (hg : g < 32) (slot : (s.file g).fdInode = some n) :
    (s.vol.inode n).iOpenCnts = s.vol.openCnts n := by
  refine Volume.inode_cnts ?_
  rw [shows.users n hang hn kind]
  exact Nat.ne_of_gt (List.count_pos_iff.mpr (mem_openFiles.mpr ⟨g, hg, slot⟩))

theorem Shows.sysClose (shows : Shows aside s S) {fd : Int} (hfd : fd < 8) {o : Int × Session sb}
    (h : s.sysClose fd = .ok o) :
    ∃ S', S.Serves (.close fd) ⟨o.1, none⟩ S' ∧ Shows aside o.2 S' := by
  unfold Session.sysClose at h
  split at h
  next big =>
    obtain ⟨k, rfl⟩ := Int.eq_ofNat_of_zero_le (show 0 ≤ fd by omega)
    rw [Int.toNat_natCast] at h
    obtain ⟨g, hglobal, h⟩ := bind_eq_ok.mp h
    obtain ⟨s₁, hclose, h⟩ := bind_eq_ok.mp h
    cases h
    unfold Session.fileClose at hclose
    rcases shows.descriptor (by omega) hglobal with ⟨small, -⟩ | ⟨n, pos, flag, hang, -, hg, hfd',
      slot, hopen, hn, kind⟩
    · omega
    · rw [slot] at hclose
      cases hclose
      have like : Alike { s.vol.inode n with writenDeny := false } (s.vol.inode n) :=
        ⟨rfl, rfl, fun _ _ => rfl⟩
      have closed :=
        shows.fileClose hn kind hg slot hfd' hopen like (shows.inSlot hn kind hg (by rw [slot]))
      rw [slot] at closed
      exact ⟨S.setFd k none, .closed (by rw [hopen]; exact Option.some_ne_none _), closed⟩
  next small =>
    cases h
    exact ⟨S, .refused (show fd ≤ 2 by omega), shows⟩

/-! ## `sys_write` -/

/-- The bytes of a file, its inode and the offset of a slot have changed. -/
theorem Shows.stored (shows : Shows aside s S) {hang : Hang Nat Name Nat} (hn : S.up n = some hang)
    (kind : hang.kind = ftRegular) {fd g pos flag : Nat} (hg : g < 32)
    (slot : s.file g = ⟨pos, flag, some n⟩) (hfd : s.fdTable fd = g)
    (hopen : S.fds fd = some ⟨n, pos, flag⟩) {inode : Inode} (fsck : Fsck aside p S.up)
    (like : Alike inode (diskInode p n)) (others : Others S.up n s.vol.part p)
    (cnts : inode.iOpenCnts = s.vol.openCnts n) {bytes : List Byte}
    (data : contents p (diskInode p n) = bytes) (grown : (S.data n).length ≤ bytes.length)
    {pos' : Nat} (hpos : pos' ≤ bytes.length) :
    Shows aside
      { s with vol := s.vol.put n p inode,
               file := Function.update s.file g { s.file g with fdPos := pos' } }
      ((S.setData n bytes).setFd fd (some ⟨n, pos', flag⟩)) := by
  have hn0 := shows.loaded.fsck.tree.ne_root hn
  have users := shows.users n hang hn kind
  have used : 0 < s.openFiles.count n :=
    List.count_pos_iff.mpr (mem_openFiles.mpr ⟨g, hg, by rw [slot]⟩)
  have same : Session.openFiles { s with
      vol := s.vol.put n p inode, file :=
        Function.update s.file g { s.file g with fdPos := pos' } } = s.openFiles :=
    openFiles_same (f := { s.file g with fdPos := pos' }) rfl rfl
  have longer (m : Nat) : (S.data m).length ≤ (Function.update S.data n bytes m).length := by
    by_cases e : m = n
    · rw [e, Function.update_self]
      exact grown
    · rw [Function.update_of_ne e]
  exact {
    loaded := by
      refine ⟨fsck, fun m i hm => ?_⟩
      by_cases e : m = n
      · subst e
        rw [Volume.put_self] at hm
        cases hm
        exact ⟨here_of hn, like, by omega⟩
      · rw [Volume.put_other e] at hm
        obtain ⟨here, alike, more⟩ := shows.loaded.opened m i hm
        refine ⟨here, ?_, more⟩
        show Alike i (diskInode p m)
        rw [others.inode m here e]
        exact alike
    rootOpen := by
      rw [Volume.put_other (Ne.symm hn0)]
      exact shows.rootOpen
    plain := shows.plain
    data m k hm kind := by
      show Function.update S.data n bytes m = contents p (diskInode p m)
      by_cases e : m = n
      · rw [e, Function.update_self, data]
      · rw [Function.update_of_ne e, others.data m k hm kind e]
        exact shows.data m k hm kind
    users m k hm kind := by
      rw [same, Volume.put_openCnts]
      split
      next e => rw [e, cnts, users]
      next => exact shows.users m k hm kind
    files m hm := shows.files m (by rwa [same] at hm)
    offsets k hk m hm := by
      change (Function.update s.file g _ k).fdInode = some m at hm
      show (Function.update s.file g _ k).fdPos ≤ (Function.update S.data n bytes m).length
      by_cases e : k = g
      · subst e
        rw [Function.update_self, slot] at hm
        cases hm
        rw [Function.update_self, Function.update_self]
        exact hpos
      · rw [Function.update_of_ne e] at hm ⊢
        exact Nat.le_trans (shows.offsets k hk m hm) (longer m)
    descriptors := shows.descriptors.seek hopen hfd pos' }

/-- Nothing has changed. -/
theorem Volume.put_same {v : Volume sb} (h : v.openCnts n ≠ 0) :
    v.put n v.part (v.inode n) = v := by
  unfold Volume.openCnts at h
  unfold Volume.put Volume.inode
  cases hopen : v.openInodes n with
  | none =>
    rw [hopen] at h
    exact absurd rfl h
  | some inode =>
    rw [Option.getD_some, ← hopen, Function.update_eq_self]

/-- A WRITE to the file in a slot. -/
theorem Shows.fileWrite (shows : Shows aside s S) {hang : Hang Nat Name Nat}
    (hn : S.up n = some hang) (kind : hang.kind = ftRegular) {fd g pos flag : Nat} (hg : g < 32)
    (slot : s.file g = ⟨pos, flag, some n⟩) (hfd : s.fdTable fd = g)
    (hopen : S.fds fd = some ⟨n, pos, flag⟩) {heap : Bool} {count : Nat} (one : 1 ≤ count)
    {src : Buf} {r : FileResult sb Nat}
    (h : fileWrite heap s.vol.part (s.vol.inode n) pos src count = .ok r) :
    (r.ret = none ∧ (heap = false ∨ 140 * sectorSize < (S.data n).length + count) ∧
        ({ s with
          vol := s.vol.put n r.part r.inode,
          file := Function.update s.file g { s.file g with fdPos := r.fdPos } } : Session sb) = s) ∨
      (r.ret = some count ∧ heap = true ∧ Shows aside
        { s with
          vol := s.vol.put n r.part r.inode,
          file := Function.update s.file g { s.file g with fdPos := r.fdPos } }
          ((S.setData n (S.data n ++ bytesOf src count)).setFd fd
          (some ⟨n, (S.data n).length + count - 1, flag⟩))) := by
  have cnts := shows.inSlot hn kind hg (by rw [slot])
  have users := shows.users n hang hn kind
  have used : 0 < s.openFiles.count n :=
    List.count_pos_iff.mpr (mem_openFiles.mpr ⟨g, hg, by rw [slot]⟩)
  have alike := shows.loaded.alike n
  have data := shows.data n hang hn kind
  have length : (S.data n).length = (s.vol.inode n).iSize := by
    rw [data, length_contents, alike.iSize]
  obtain ⟨isFile, -⟩ := shows.loaded.fsck.files n hang hn kind
  have file := isFile.alike shows.loaded.fsck.rootTaken alike
  have small := file.small
  unfold sectorSize at small
  obtain ⟨fsck, like, others, content⟩ := shows.loaded.fsck.write hn kind alike h
  have keeps := fileWrite_cnts h
  cases fileWrite_answer (by omega) h with
  | failed reason =>
    refine .inl ⟨rfl, reason.imp_right fun big => ?_, ?_⟩
    · rw [length]
      refine Nat.lt_of_lt_of_le big ?_
      unfold u32
      omega
    · have vol : s.vol.put n s.vol.part (s.vol.inode n) = s.vol := Volume.put_same (by omega)
      have same : Function.update s.file g { s.file g with fdPos := pos } = s.file := by
        refine (congrArg (Function.update s.file g) ?_).trans (Function.update_eq_self g s.file)
        rw [slot]
      dsimp only
      rw [vol, same]
  | wrote fits hsize hpos hret =>
    have heapOk : heap = true := by
      cases heap with
      | false =>
        rw [fileWrite_noHeap] at h
        cases h
        cases hret
      | true => rfl
    refine .inr ⟨hret, heapOk, ?_⟩
    rw [hret] at content
    unfold appended at content
    rw [← data, Option.getD_some] at content
    have offset : r.fdPos = (S.data n).length + count - 1 := by
      unfold sectorSize at fits
      rw [hpos, length]
      unfold u32
      omega
    rw [offset]
    refine shows.stored hn kind hg slot hfd hopen fsck like others (keeps.trans cnts) content ?_ ?_
    · rw [List.length_append]
      exact Nat.le_add_right _ _
    · rw [List.length_append, bytesOf, List.length_map, List.length_range]
      exact Nat.sub_le _ _

theorem Shows.sysWrite (shows : Shows aside s S) {heap : Bool} {fd : Int} {buf : Buf} {count : Nat}
    (hfd : fd < 8) (one : 1 ≤ count) {o : Int × Session sb}
    (h : s.sysWrite heap fd buf count = .ok o) :
    ∃ S', S.Serves (.write heap fd buf count) ⟨o.1, none⟩ S' ∧ Shows aside o.2 S' := by
  unfold Session.sysWrite at h
  split at h
  next neg =>
    cases h
    exact ⟨S, .refused (.inl (by omega)), shows⟩
  next nonneg =>
  split at h
  next std =>
    split at h
    · cases h
      subst std
      exact ⟨S, .printed, shows⟩
    · cases h
  next =>
  obtain ⟨k, rfl⟩ := Int.eq_ofNat_of_zero_le (show 0 ≤ fd by omega)
  rw [Int.toNat_natCast] at h
  obtain ⟨g, hglobal, h⟩ := bind_eq_ok.mp h
  rcases shows.descriptor (by omega) hglobal with ⟨small, none⟩ | ⟨n, pos, flag, hang, -, hg, hfd',
    slot, hopen, hn, kind⟩
  · dsimp only at h
    split at h
    · rw [noInode none] at h
      cases h
    · cases h
      exact ⟨S, .refused (.inl (show (k : Int) ≤ 2 by omega)), shows⟩
  · dsimp only at h
    rw [slot] at h
    dsimp only at h
    split at h
    next writes =>
      obtain ⟨r, hwrite, h⟩ := bind_eq_ok.mp h
      cases h
      have written := shows.fileWrite hn kind hg slot hfd' hopen one hwrite
      rw [slot] at written
      rcases written with ⟨hret, reason, same⟩ | ⟨hret, rfl, shows'⟩
      · dsimp only
        rw [hret, same]
        refine ⟨S, .refused ?_, shows⟩
        rcases reason with hheap | big
        · exact .inr (.inl hheap)
        · exact .inr (.inr ⟨n, pos, flag, _, ⟨hopen, rfl⟩, .inr big⟩)
      · dsimp only
        rw [hret]
        exact ⟨_, .wrote ⟨hopen, rfl⟩ writes, shows'⟩
    next reads =>
      cases h
      exact ⟨S, .refused (.inr (.inr ⟨n, pos, flag, _, ⟨hopen, rfl⟩, .inl reads⟩)), shows⟩

/-! ## `sys_read` -/

/-- The offset of a slot has moved. -/
theorem Shows.moved (shows : Shows aside s S) {fd g pos flag : Nat}
    (slot : s.file g = ⟨pos, flag, some n⟩) (hfd : s.fdTable fd = g)
    (hopen : S.fds fd = some ⟨n, pos, flag⟩) {pos' : Nat} (hpos : pos' ≤ (S.data n).length) :
    Shows aside { s with file := Function.update s.file g { s.file g with fdPos := pos' } }
      (S.setFd fd (some ⟨n, pos', flag⟩)) := by
  have same :
      Session.openFiles
        { s with file := Function.update s.file g { s.file g with fdPos := pos' } } = s.openFiles :=
    openFiles_same (f := { s.file g with fdPos := pos' }) rfl rfl
  exact {
    loaded := shows.loaded
    rootOpen := shows.rootOpen
    plain := shows.plain
    data := shows.data
    users m k hm kind := by
      rw [same]
      exact shows.users m k hm kind
    files m hm := shows.files m (by rwa [same] at hm)
    offsets k hk m hm := by
      change (Function.update s.file g _ k).fdInode = some m at hm
      show (Function.update s.file g _ k).fdPos ≤ (S.data m).length
      by_cases e : k = g
      · subst e
        rw [Function.update_self, slot] at hm
        cases hm
        rw [Function.update_self]
        exact hpos
      · rw [Function.update_of_ne e] at hm ⊢
        exact shows.offsets k hk m hm
    descriptors := shows.descriptors.seek hopen hfd pos' }

/-- The slot is what it was. -/
theorem Session.file_same {g pos flag : Nat} (slot : s.file g = ⟨pos, flag, some n⟩) :
    ({ s with file := Function.update s.file g ⟨pos, flag, some n⟩ } : Session sb) = s := by
  rw [← slot, Function.update_eq_self]

/-- What is known of a file from its inode. -/
theorem Shows.sized (shows : Shows aside s S) {hang : Hang Nat Name Nat} (hn : S.up n = some hang)
    (kind : hang.kind = ftRegular) :
    IsFile s.vol.part (s.vol.inode n) ∧ (S.data n).length = (s.vol.inode n).iSize ∧
    S.data n = contents s.vol.part (s.vol.inode n) := by
  have alike := shows.loaded.alike n
  have data := shows.data n hang hn kind
  obtain ⟨isFile, -⟩ := shows.loaded.fsck.files n hang hn kind
  refine ⟨isFile.alike shows.loaded.fsck.rootTaken alike, ?_, ?_⟩
  · rw [data, length_contents, alike.iSize]
  · rw [data, alike.contents]

theorem Shows.sysRead (shows : Shows aside s S) {heap : Bool} {fd : Int} {buf : Buf} {count : Nat}
    (hfd : fd < 8) (notKeyboard : fd ≠ 0) (hcount : count < 2 ^ 32) {o : (Int × Buf) × Session sb}
    (h : s.sysRead heap fd buf count = .ok o) :
    ∃ S', S.Serves (.read heap fd buf count) ⟨o.1.1, some o.1.2⟩ S' ∧ Shows aside o.2 S' := by
  unfold Session.sysRead at h
  split at h
  next std =>
    cases h
    exact ⟨S, .refused (.inl (by omega)), shows⟩
  next file =>
  obtain ⟨k, rfl⟩ := Int.eq_ofNat_of_zero_le (show 0 ≤ fd by omega)
  rw [Int.toNat_natCast] at h
  obtain ⟨g, hglobal, h⟩ := bind_eq_ok.mp h
  rcases shows.descriptor (by omega) hglobal with ⟨small, -⟩ | ⟨n, pos, flag, hang, -, hg, hfd',
    slot, hopen, hn, kind⟩
  · omega
  dsimp only at h
  rw [slot] at h
  obtain ⟨r, hread, h⟩ := bind_eq_ok.mp h
  cases h
  obtain ⟨isFile, length, data⟩ := shows.sized hn kind
  have small := isFile.small
  unfold sectorSize at small
  have within := shows.offsets g hg n (by rw [slot])
  rw [slot, length] at within
  dsimp only at within
  cases heap with
  | false =>
    cases fileRead_answer within (by omega) hcount hread with
    | failed => exact ⟨S, .refused (.inr (.inl rfl)), by rw [Session.file_same slot]; exact shows⟩
    | read heapOk => cases heapOk
  | true =>
    have well : ReadsWell true (s.vol.inode n) pos count := by
      cases fileRead_answer within (by omega) hcount hread with
      | failed reason => exact .inl ((reason.resolve_left nofun).imp_right .inr)
      | read heapOk nowrap fits => exact .inr ⟨heapOk, nowrap, fits⟩
    obtain ⟨r', hread', reads⟩ := fileRead_total isFile.table within (by omega) well
    obtain rfl : r = r' := Except.ok.inj (hread.symm.trans hread')
    have readable : readable (s.vol.inode n) pos count =
        min (pos + count) (S.data n).length - pos := by rw [length]; rfl
    have bytes := reads.bytes
    have offset := reads.offset
    have answer := reads.ret
    rw [readable] at bytes offset answer
    rw [← data] at bytes
    rw [← length] at answer
    dsimp only
    by_cases atEnd : 0 < count ∧ pos = (S.data n).length
    · rw [if_pos atEnd] at answer
      have none : min (pos + count) (S.data n).length - pos = 0 := by omega
      rw [none] at bytes offset
      rw [answer, bytes, memcpy_none, offset, Nat.add_zero, Session.file_same slot]
      exact ⟨S, .refused (.inr (.inr ⟨n, pos, flag, _, ⟨hopen, rfl⟩, atEnd⟩)), shows⟩
    · rw [if_neg atEnd] at answer
      have within' : r.fdPos ≤ (S.data n).length := by omega
      have moved := shows.moved slot hfd' hopen within'
      rw [slot] at moved
      rw [answer, bytes]
      refine ⟨_, .read ⟨hopen, rfl⟩ rfl, ?_⟩
      rw [← offset]
      exact moved

/-! ## `sys_lseek` -/

/-- The files are so small that no sum wraps but one that is refused. -/
theorem sysLseek_small {inode : Inode} {pos whence pos' : Nat} {offset : Int} {ret : Option Nat}
    (small : inode.iSize < 140 * 512) (within : pos ≤ inode.iSize)
    (hoff : -2 ^ 31 ≤ offset ∧ offset < 2 ^ 31)
    (h : Fs.sysLseek inode pos offset whence = .ok (pos', ret)) :
    ret = none ∧ pos' = pos ∧
    ¬ (0 ≤ seekTarget inode.iSize pos offset whence ∧
      seekTarget inode.iSize pos offset whence < inode.iSize) ∨
      ret = some pos' ∧ (pos' : Int) = seekTarget inode.iSize pos offset whence ∧
      pos' < inode.iSize := by
  have exact {k : Int} (h₁ : -2 ^ 31 ≤ k) (h₂ : k < 2 ^ 31) : toSigned 32 k = k := by
    unfold toSigned
    omega
  have wrapped {k : Int} (h₁ : 2 ^ 31 ≤ k) (h₂ : k < 2 ^ 32) : toSigned 32 k < 0 := by
    unfold toSigned
    omega
  -- a sum that wraps is negative
  have sum {base : Int} (h₁ : 0 ≤ base) (h₂ : base ≤ inode.iSize) : toSigned 32 (base + offset) =
      base + offset ∨
      toSigned 32 (base + offset) < 0 ∧ ¬ base + offset < inode.iSize := by
    by_cases big : base + offset < 2 ^ 31
    · exact .inl (exact (by omega) big)
    · exact .inr ⟨wrapped (by omega) (by omega), by omega⟩
  unfold Fs.sysLseek at h
  obtain ⟨_, _, h⟩ := bind_eq_ok.mp h
  dsimp only at h
  rw [exact (k := (inode.iSize : Int)) (by omega) (by omega),
    exact (k := (inode.iSize : Int) - 1) (by omega) (by omega),
    exact (k := (pos : Int)) (by omega) (by omega)] at h
  -- where the offset is set, if the sum does not wrap
  have target : (if whence = seekSet then offset
      else if whence = seekCur then toSigned 32 (pos + offset)
      else toSigned 32 (inode.iSize + offset)) = seekTarget inode.iSize pos offset whence ∨
      (if whence = seekSet then offset
      else if whence = seekCur then toSigned 32 (pos + offset)
      else toSigned 32 (inode.iSize + offset)) < 0 ∧
        ¬ seekTarget inode.iSize pos offset whence < inode.iSize := by
    unfold seekTarget
    split
    · exact .inl rfl
    split
    · exact sum (by omega) (by omega)
    · exact sum (by omega) (Int.le_refl _)
  generalize (if whence = seekSet then offset
    else if whence = seekCur then toSigned 32 (pos + offset)
    else toSigned 32 (inode.iSize + offset)) = newPos at h target
  split at h
  next outside =>
    cases h
    refine .inl ⟨rfl, rfl, ?_⟩
    rcases target with same | ⟨-, big⟩
    · rw [same] at outside
      omega
    · exact fun inside => big inside.2
  next inside =>
    cases h
    rcases target with same | ⟨wraps, -⟩
    · exact .inr ⟨rfl, by omega, by omega⟩
    · omega

theorem Shows.sysLseek (shows : Shows aside s S) {fd offset : Int} {whence : Nat} (hfd : fd < 8)
    (hoff : -2 ^ 31 ≤ offset ∧ offset < 2 ^ 31) {o : Int × Session sb}
    (h : s.sysLseek fd offset whence = .ok o) :
    ∃ S', S.Serves (.lseek fd offset whence) ⟨o.1, none⟩ S' ∧ Shows aside o.2 S' := by
  unfold Session.sysLseek at h
  split at h
  next neg =>
    cases h
    exact ⟨S, .refused (.inl (by omega)), shows⟩
  next nonneg =>
  obtain ⟨k, rfl⟩ := Int.eq_ofNat_of_zero_le (show 0 ≤ fd by omega)
  rw [Int.toNat_natCast] at h
  obtain ⟨_, hwhence, h⟩ := bind_eq_ok.mp h
  obtain ⟨g, hglobal, h⟩ := bind_eq_ok.mp h
  rcases shows.descriptor (by omega) hglobal with ⟨small, none⟩ | ⟨n, pos, flag, hang, -, hg, hfd',
    slot, hopen, hn, kind⟩
  · dsimp only at h
    rw [noInode none] at h
    cases h
  dsimp only at h
  rw [slot] at h
  obtain ⟨⟨pos', ret⟩, hseek, h⟩ := bind_eq_ok.mp h
  cases h
  obtain ⟨isFile, length, -⟩ := shows.sized hn kind
  have small := isFile.small
  unfold sectorSize at small
  have within := shows.offsets g hg n (by rw [slot])
  rw [slot] at within
  dsimp only at within
  rw [length] at within
  dsimp only
  rcases sysLseek_small small within hoff hseek with ⟨rfl, rfl, outside⟩ | ⟨rfl, target, inside⟩
  · rw [Session.file_same slot]
    refine ⟨S, .refused (.inr ⟨n, _, flag, _, ⟨hopen, rfl⟩, ?_⟩), shows⟩
    rw [length]
    exact outside
  · rw [← length] at target inside
    have moved := shows.moved slot hfd' hopen (Nat.le_of_lt inside)
    rw [slot] at moved
    exact ⟨_, .sought ⟨hopen, rfl⟩ target inside, moved⟩

/-! ## `sys_open` -/

/-- A directory of the tree is held open once more. -/
theorem Shows.held (shows : Shows aside s S) {ref : DirRef} (dir : S.up.Dir ref.inodeNo) :
    Shows aside { s with vol := s.vol.held ref } S := by
  cases ref with
  | root => exact shows
  | opened n =>
    have notFile {m : Nat} {k : Hang Nat Name Nat} (hm : S.up m = some k)
        (kind : k.kind = ftRegular) : m ≠ n := by
      rintro rfl
      exact shows.loaded.fsck.not_dir hm kind dir
    exact {
      loaded := by
        have like :
            Alike { s.vol.inode n with iOpenCnts := (s.vol.openInodes n).elim 0 (·.iOpenCnts) + 1 }
              (s.vol.inode n) := ⟨rfl, rfl, fun _ _ => rfl⟩
        exact shows.loaded.put dir.here (like.trans (shows.loaded.alike n)) (Nat.succ_pos _)
      rootOpen := by
        by_cases h0 : 0 = n
        · subst h0
          rw [show (s.vol.held (.opened 0)).openInodes 0 = some _ from Volume.put_self]
          rfl
        · rw [Volume.held_other h0]
          exact shows.rootOpen
      plain := shows.plain
      data := shows.data
      users m k hm kind := by
        show (s.vol.put n s.vol.part _).openCnts m = s.openFiles.count m
        rw [Volume.put_openCnts, if_neg (notFile hm kind)]
        exact shows.users m k hm kind
      files := shows.files
      offsets := shows.offsets
      descriptors := shows.descriptors }

/-- A directory may as well be closed before `pcb_fd_install`. -/
theorem Session.pcbFdInstall_dirClose (s : Session sb) (g : Nat) (ref : DirRef)
    {o : Int × Session sb} (h : s.pcbFdInstall g = o) :
    ({ s with vol := s.vol.dirClose ref } : Session sb).pcbFdInstall g =
      (o.1, { o.2 with vol := o.2.vol.dirClose ref }) := by
  subst h
  unfold Session.pcbFdInstall
  dsimp only
  split <;> rfl

theorem Shows.fileOpen (shows : Shows aside s S) {hang : Hang Nat Name Nat}
    (hn : S.up n = some hang) (kind : hang.kind = ftRegular)
    (bound : ∀ inode, s.vol.openInodes n = some inode → inode.iOpenCnts < 2 ^ 32 - 1) {flag : Nat}
    {o : Int × Session sb} (h : s.fileOpen n flag = .ok o) :
    (∃ fd : Nat, S.FreeFd fd ∧ o.1 = fd ∧ Shows aside o.2 (S.setFd fd (some ⟨n, 0, flag⟩))) ∨
    o.1 = -1 ∧ Shows aside o.2 S := by
  unfold Session.fileOpen at h
  split at h
  next =>
    cases h
    exact .inr ⟨rfl, shows⟩
  next g slot =>
  rw [Volume.inodeOpen_eq bound (shows.loaded.fsck.lt (here_of hn)), ok_bind] at h
  dsimp only at h
  split at h
  next =>
    split at h
    next =>
      cases h
      refine .inr ⟨rfl, shows.filled hn kind slot ?_ ?_ flag⟩
      · exact ⟨rfl, rfl, fun _ _ => rfl⟩
      · rfl
    next =>
      cases h
      refine (shows.installed hn kind slot ?_ ?_ rfl).imp_right And.right
      · exact ⟨rfl, rfl, fun _ _ => rfl⟩
      · rfl
  next =>
    cases h
    refine (shows.installed hn kind slot ?_ ?_ rfl).imp_right And.right
    · exact ⟨rfl, rfl, fun _ _ => rfl⟩
    · rfl

/-- A NEW FILE, and the directory that was open is closed. -/
theorem Shows.fileCreate (shows : Shows aside s S) (countable : s.vol.Countable)
    (given : GivenPath path) (room : RoomFor s.vol path) {ref : DirRef} (dir : S.up.Dir ref.inodeNo)
    (vacant : S.Vacant (components path) ref.inodeNo name) (mem : name ∈ components path)
    {heap : CreateHeap} {flag : Nat} {o : Int × Session sb}
    (h : Session.fileCreate { s with vol := s.vol.held ref } heap ref name flag = .ok o) :
    (o.1 = -1 ∧ o.2.vol.dirClose ref = s.vol ∧ o.2 = { s with vol := o.2.vol }) ∨
    ∃ n, S.New (components path) ref.inodeNo name n ∧
      ((∃ fd : Nat, S.FreeFd fd ∧ o.1 = fd ∧ Shows aside { o.2 with vol := o.2.vol.dirClose ref }
          (((S.hang n ref.inodeNo name ftRegular).setData n []).setFd fd (some ⟨n, 0, flag⟩))) ∨
        (∀ fd, ¬ S.FreeFd fd) ∧ o.1 = -1 ∧
        Shows aside { o.2 with vol := o.2.vol.dirClose ref }
        ((S.hang n ref.inodeNo name ftRegular).setData n [])) := by
  obtain ⟨proper, unused⟩ := vacant.proper
  have part : (s.vol.held ref).part = s.vol.part := Volume.held_part _
  unfold Session.fileCreate at h
  split at h
  next =>
    cases h
    exact .inl ⟨rfl, Shows.closes countable ref, rfl⟩
  next =>
  obtain ⟨r, halloc, h⟩ := bind_eq_ok.mp h
  have alloc := halloc
  unfold inodeBitmapAlloc at alloc
  obtain ⟨_, hscan, alloc⟩ := bind_eq_ok.mp alloc
  obtain ⟨n, rfl, hlt, hfree, -⟩ := bitmapScan_one hscan
  cases alloc
  -- the bit of the inode is cleared again
  have undone : ((s.vol.held ref).part.setInode n true).setInode n false =
      (s.vol.held ref).part := by
    unfold Part.setInode
    dsimp only
    congr 1
    exact NoDebug.bitmapSet_undo hlt hfree
  have back :
      ({ s.vol.held ref with part := ((s.vol.held ref).part.setInode n true).setInode n false } :
        Volume sb).dirClose ref = s.vol := by
    rw [undone]
    exact Shows.closes countable ref
  dsimp only [Option.map_some] at h
  split at h
  next =>
    cases h
    exact .inl ⟨rfl, back, rfl⟩
  next =>
  split at h
  next =>
    cases h
    exact .inl ⟨rfl, back, rfl⟩
  next g slot =>
  obtain ⟨pDe, hde, h⟩ := bind_eq_ok.mp h
  obtain ⟨⟨done, p₁, parent'⟩, hsync, h⟩ := bind_eq_ok.mp h
  obtain rfl := syncDirEntry_true hsync
  obtain ⟨p₂, hp₂, h⟩ := bind_eq_ok.mp h
  obtain ⟨p₃, hp₃, h⟩ := bind_eq_ok.mp h
  have create : Fs.createFile (s.vol.held ref).part ((s.vol.held ref).inode ref.inodeNo) name =
      .ok (some (inodeBitmapSync p₃ n, parent', inodeInit n)) := by
    unfold Fs.createFile
    rw [halloc, ok_bind]
    dsimp only [Option.map_some]
    rw [hde, ok_bind, hsync, ok_bind]
    dsimp only
    rw [hp₂, ok_bind, hp₃, ok_bind]
    rfl
  have roomy := room.held shows given vacant
  rw [part] at create roomy
  obtain ⟨enters, -, fsck, like', others, newDisk⟩ :=
    shows.loaded.fsck.createFile dir (shows.held_alike _) roomy (given.names name mem)
      proper unused create
  replace newDisk : diskInode (inodeBitmapSync p₃ n) n = (inodeInit n).pure := newDisk
  have nodir : n ≠ ref.inodeNo := by
    rintro rfl
    exact dir.here.elim enters.nonzero (· enters.free)
  have hung : Shows aside { s with vol := s.vol.changed ref.inodeNo (inodeBitmapSync p₃ n) parent' }
      ((S.hang n ref.inodeNo name ftRegular).setData n []) := by
    refine shows.hung enters (plain_of_mem mem) fsck like' others
      (fun m hm => Function.update_of_ne hm _ _) fun _ => ?_
    rw [Function.update_self, newDisk]
    rfl
  have closed : s.vol.openInodes n = none := shows.closed enters.nonzero enters.free
  have after : (s.vol.changed ref.inodeNo (inodeBitmapSync p₃ n) parent').openInodes n = none :=
    (Volume.changed_other nodir).trans closed
  have closes : ((s.vol.held ref).put ref.inodeNo (inodeBitmapSync p₃ n) parent').dirClose ref =
      s.vol.changed ref.inodeNo (inodeBitmapSync p₃ n) parent' :=
    Volume.dirClose_changed countable shows.rootOpen (syncDirEntry_cnts hsync)
  have opened :
      (((s.vol.held ref).put ref.inodeNo (inodeBitmapSync p₃ n) parent').openInodes
        ref.inodeNo).isSome = true := by
    rw [Volume.put_self]
    rfl
  have slot' : Session.getFreeSlotInGlobal
      { s with vol := s.vol.changed ref.inodeNo (inodeBitmapSync p₃ n) parent' } = some g := slot
  have new : S.New (components path) ref.inodeNo name n := ⟨vacant, enters.nonzero, enters.free⟩
  refine .inr ⟨n, new, ?_⟩
  have install := Session.pcbFdInstall_dirClose _ g ref (Except.ok.inj h)
  dsimp only at install
  rw [Volume.dirClose_put nodir opened, closes] at install
  refine hung.installed (h := ⟨ref.inodeNo, name, ftRegular⟩) hang_self rfl slot' ?_ ?_ install
  · rw [Volume.inode_closed after]
    show Alike _ (diskInode (inodeBitmapSync p₃ n) n)
    rw [newDisk]
    exact ⟨rfl, rfl, fun k hk => (if_pos hk).symm⟩
  · unfold Volume.openCnts
    rw [after]
    rfl

/-- A file that is found under the last name. -/
theorem SearchEnds.namedFile (ends : SearchEnds S.up (components path) ret record)
    (given : GivenPath path) (found : ret ≠ -1) (file : record.fileType ≠ ftDirectory)
    (same : pathDepthCnt record.searchedPath = pathDepthCnt path) :
    ∃ (n : Nat) (name : Name), ret = n ∧
      S.Named (components path) record.parentDir.inodeNo name n ftRegular := by
  cases ends with
  | missing => exact absurd rfl found
  | @file before name rest ref n split leads hn =>
    obtain rfl := given.whole split same
    exact ⟨n, name, rfl, before, split, leads, hn⟩
  | dir => exact absurd rfl file

theorem Shows.sysOpen (shows : Shows aside s S) (countable : s.vol.Countable)
    (given : GivenPath path) {flags : Nat} (room : flags &&& oCreate ≠ 0 → RoomFor s.vol path)
    {heap : CreateHeap} {o : Int × Session sb} (h : s.sysOpen heap dirE path flags = .ok o) :
    ∃ S', S.Serves (.open heap dirE path flags) ⟨o.1, none⟩ S' ∧ Shows aside o.2 S' := by
  unfold Session.sysOpen at h
  split at h
  · cases h
  split at h
  next =>
    cases h
    exact ⟨S, .refused trivial, shows⟩
  next =>
  obtain ⟨_, _, h⟩ := bind_eq_ok.mp h
  rw [pathDepthCnt_ok given.names, ok_bind] at h
  obtain ⟨⟨inodeNo, w⟩, hsearch, h⟩ := bind_eq_ok.mp h
  obtain ⟨hvol, dir, ends⟩ := shows.searched countable given hsearch
  dsimp only at hvol dir ends h
  rw [hvol] at h
  have refused {o : Int × Session sb}
      (ho :
        (.ok (-1, { s with vol := (s.vol.held w.record.parentDir).dirClose w.record.parentDir }) :
          Except Fault (Int × Session sb)) = .ok o) :
      ∃ S', S.Serves (.open heap dirE path flags) ⟨o.1, none⟩ S' ∧ Shows aside o.2 S' := by
    cases ho
    rw [Shows.closes countable]
    exact ⟨S, .refused trivial, shows⟩
  split at h
  next => exact refused h
  next hfile =>
  replace ends := ends.resolve_right fun root => hfile root.2.2
  obtain ⟨depth, hdepth, h⟩ := bind_eq_ok.mp h
  split at h
  next => exact refused h
  next whole =>
  obtain rfl := Classical.not_not.mp whole
  have same := hdepth.trans (pathDepthCnt_ok given.names).symm
  split at h
  next => exact refused h
  next wanted =>
  split at h
  next => exact refused h
  next unwanted =>
  split at h
  next create =>
    have missing : inodeNo = -1 := Classical.not_not.mp fun found => unwanted ⟨found, create⟩
    rw [missing] at ends
    obtain ⟨name, vacant, base, mem⟩ := ends.vacant given same
    rw [base] at h
    obtain ⟨⟨fd, s'⟩, hcreate, h⟩ := bind_eq_ok.mp h
    cases h
    rcases shows.fileCreate countable given (room create) dir vacant mem hcreate
      with ⟨ret, back, rest⟩ | ⟨n, new, install⟩
    · dsimp only at ret back rest ⊢
      rw [ret, back, rest]
      exact ⟨S, .refused trivial, shows⟩
    · rcases install with ⟨fd', free, ret, shows'⟩ | ⟨full, ret, shows'⟩
      · dsimp only at ret shows' ⊢
        rw [ret]
        exact ⟨_, .created create new free, shows'⟩
      · dsimp only at ret shows' ⊢
        rw [ret]
        exact ⟨_, .unheld create new full, shows'⟩
  next create =>
    have found : inodeNo ≠ -1 := fun missing => wanted ⟨missing, Classical.not_not.mp create⟩
    obtain ⟨n, name, rfl, named⟩ := ends.namedFile given found hfile same
    have hn := named.choose_spec.2.2
    rw [u32_small (shows.loaded.fsck.lt (here_of hn))] at h
    rcases (shows.held dir).fileOpen hn rfl (fun inode hi => (countable.held _ n inode hi).2) h
      with ⟨fd, free, ret, shows'⟩ | ⟨ret, shows'⟩
    · rw [ret]
      exact ⟨_, .opened (Classical.not_not.mp create) named free, shows'⟩
    · rw [ret]
      exact ⟨S, .refused trivial, shows'⟩

end SeekingOs.Fs
