import SeekingOs.Fs.InodeHeap

/-!
# Cached inodes live in kernel memory

`Runs h f Q`: code that runs on heap `h` leaves every inode in `open_inodes` in the kernel's heap,
frees each block where it was allocated, and its answer has `Q`. All code of the file system does,
but one path through it: a process whose `file_create` comes to its end.
-/

namespace SeekingOs.Fs.Cached

open Lib

/-- THE INVARIANT. Inodes that can be reached are the kernel's, and each block was freed where it
was from. -/
structure Good (s : InodeHeap) : Prop where
  linked : ∀ b ∈ s.openInodes, b.heap = .kernel
  slots : ∀ g b, s.slots g = some b → b.heap = .kernel
  root : s.rootInode.heap = .kernel
  frees : ∀ f ∈ s.frees, f.1 = f.2

/-- The same task runs, with the same `pgdir`, and the slots are what they were. -/
structure Same (s s' : InodeHeap) : Prop where
  cur : s'.cur = s.cur
  pgdir : s'.pgdir = s.pgdir
  slots : s'.slots = s.slots

variable {α β : Type} {s s' s'' : InodeHeap} {h : Heap} {f : Code α} {Q R : α → Prop}
  {b : Block} {dir : Dir}

theorem Same.refl (s : InodeHeap) : Same s s := ⟨rfl, rfl, rfl⟩

theorem Same.trans (a : Same s s') (c : Same s' s'') : Same s s'' :=
  ⟨c.cur.trans a.cur, c.pgdir.trans a.pgdir, c.slots.trans a.slots⟩

theorem Same.heap (a : Same s s') : s'.heap = s.heap := by
  unfold InodeHeap.heap
  rw [a.cur, a.pgdir]

/-- What code on heap `h` does. -/
def Runs (h : Heap) (f : Code α) (Q : α → Prop) : Prop :=
  ∀ s, Good s → s.heap = h →
    Ensures (· ≠ sysFreeAssert) (fun r => Good r.2 ∧ Same s r.2 ∧ Q r.1) (f s)

theorem Runs.mono (run : Runs h f Q) (imp : ∀ a, Q a → R a) : Runs h f R := fun s good hs =>
  (run s good hs).mono fun _ r => ⟨r.1, r.2.1, imp _ r.2.2⟩

theorem Runs.pure {a : α} (ha : Q a) : Runs h (pure a) Q := fun s good _ => ⟨good, .refl s, ha⟩

/-- THE SEQUENCE RULE. -/
theorem Runs.bind {g : α → Code β} {R : β → Prop} (run : Runs h f Q)
    (next : ∀ a, Q a → Runs h (g a) R) : Runs h (f >>= g) R := by
  intro s good hs
  refine Ensures.bind (run s good hs) ?_
  rintro ⟨a, s₁⟩ ⟨good₁, same, ha⟩
  refine (next a ha s₁ good₁ (same.heap.trans hs)).mono ?_
  rintro ⟨b, s₂⟩ ⟨good₂, same₂, hb⟩
  exact ⟨good₂, same.trans same₂, hb⟩

theorem Runs.get : Runs h (get : Code InodeHeap) Good := fun s good _ => ⟨good, .refl s, good⟩

theorem Runs.modify {g : InodeHeap → InodeHeap} (keep : ∀ s, Good s → Good (g s) ∧ Same s (g s)) :
    Runs h (modify g) fun _ => True := fun s good _ => ⟨(keep s good).1, (keep s good).2, trivial⟩

theorem Runs.ite {c : Prop} [Decidable c] {g : Code α} (hf : Runs h f Q) (hg : Runs h g Q) :
    Runs h (if c then f else g) Q := by
  split
  · exact hf
  · exact hg

/-! ## The functions -/

theorem sysMalloc_runs : Runs h sysMalloc fun b => b.heap = h := by
  intro s good hs
  exact ⟨⟨good.linked, good.slots, good.root, good.frees⟩, ⟨rfl, rfl, rfl⟩, hs⟩

theorem trySysMalloc_runs (answers : Bool) :
    Runs h (trySysMalloc answers) fun o => (∀ b, o = some b → b.heap = h) ∧ o.isSome = answers := by
  intro s good hs
  cases answers with
  | true =>
    refine ⟨⟨good.linked, good.slots, good.root, good.frees⟩, ⟨rfl, rfl, rfl⟩, fun b hb => ?_, rfl⟩
    rw [← Option.some.inj hb]
    exact hs
  | false => exact ⟨good, .refl s, nofun, rfl⟩

/-- A block is freed where it was allocated. -/
theorem sysFree_runs (hb : b.heap = h) : Runs h (sysFree b) fun _ => True := by
  intro s good hs
  unfold sysFree
  rw [if_neg]
  · refine ⟨⟨good.linked, good.slots, good.root, fun f hf => ?_⟩, ⟨rfl, rfl, rfl⟩, trivial⟩
    rcases List.mem_append.mp hf with hf | hf
    · exact good.frees f hf
    · rw [List.mem_singleton.mp hf]
      exact hb.trans hs.symm
  · rintro ⟨hpg, hne⟩
    refine hne (hb.trans (hs.symm.trans ?_))
    unfold InodeHeap.heap
    rw [hpg]
    rfl

/-- With `pgdir` cleared, code runs on the kernel's heap, whoever the caller is. -/
theorem withoutPgdir_runs (run : Runs .kernel f Q) : Runs h (withoutPgdir f) Q := by
  intro s good hs
  have good₀ : Good { s with pgdir := false } := ⟨good.linked, good.slots, good.root, good.frees⟩
  have inner := run { s with pgdir := false } good₀ rfl
  unfold withoutPgdir
  refine Ensures.bind (P := fun r => Good r.2 ∧ Same { s with pgdir := false } r.2 ∧ Q r.1) inner ?_
  rintro ⟨a, s₁⟩ ⟨good₁, same, ha⟩
  exact ⟨⟨good₁.linked, good₁.slots, good₁.root, good₁.frees⟩, ⟨same.cur, rfl, same.slots⟩, ha⟩

theorem inodeOpen_runs (inodeNo : Nat) : Runs h (inodeOpen inodeNo) fun b => b.heap = .kernel := by
  unfold inodeOpen
  refine Runs.bind Runs.get fun s good => ?_
  split
  next b hb =>
    have hmem : b.heap = .kernel := good.linked b (List.mem_of_find?_eq_some hb)
    refine Runs.bind (Runs.modify fun s good => ?_) fun _ _ => Runs.pure hmem
    exact ⟨⟨good.linked, good.slots, good.root, good.frees⟩, ⟨rfl, rfl, rfl⟩⟩
  next =>
    refine Runs.bind (withoutPgdir_runs sysMalloc_runs) fun retinode hret => ?_
    refine Runs.bind sysMalloc_runs fun inodeBuf hbuf => ?_
    refine Runs.bind (Runs.modify fun s good => ?_) fun _ _ => ?_
    · refine ⟨⟨fun b hb => ?_, good.slots, good.root, good.frees⟩, ⟨rfl, rfl, rfl⟩⟩
      rcases List.mem_cons.mp hb with rfl | hb
      · exact hret
      · exact good.linked b hb
    · exact Runs.bind (sysFree_runs hbuf) fun _ _ => Runs.pure hret

theorem inodeClose_runs (hb : b.heap = .kernel) : Runs h (inodeClose b) fun _ => True := by
  unfold inodeClose
  refine Runs.bind (Runs.modify fun s good => ?_) fun _ _ => ?_
  · exact ⟨⟨good.linked, good.slots, good.root, good.frees⟩, ⟨rfl, rfl, rfl⟩⟩
  refine Runs.bind Runs.get fun s _ => Runs.ite ?_ (Runs.pure trivial)
  refine Runs.bind (Runs.modify fun s good => ?_) fun _ _ => withoutPgdir_runs (sysFree_runs hb)
  exact ⟨⟨fun c hc => good.linked c (List.mem_of_mem_erase hc), good.slots, good.root, good.frees⟩,
    ⟨rfl, rfl, rfl⟩⟩

/-- The memory of a directory is the caller's, its inode the kernel's. -/
structure Dir.Fits (dir : Dir) (h : Heap) : Prop where
  block : ∀ b, dir.block = some b → b.heap = h
  inode : dir.inode.heap = .kernel

theorem dirOpen_runs (inodeNo : Nat) : Runs h (dirOpen inodeNo) fun dir => dir.Fits h := by
  unfold dirOpen
  refine Runs.bind sysMalloc_runs fun pdir hp => Runs.bind (inodeOpen_runs inodeNo) fun inode hi =>
    Runs.pure ?_
  refine ⟨fun b hb => ?_, hi⟩
  rw [← Option.some.inj hb]
  exact hp

theorem dirClose_runs (fits : dir.Fits h) : Runs h (dirClose dir) fun _ => True := by
  unfold dirClose
  split
  next => exact Runs.pure trivial
  next pdir hp =>
    exact Runs.bind (inodeClose_runs fits.inode) fun _ _ => sysFree_runs (fits.block pdir hp)

theorem inodeSync_runs (b : Block) : Runs h (inodeSync b) fun _ => True :=
  Runs.modify fun _ good => ⟨⟨good.linked, good.slots, good.root, good.frees⟩, ⟨rfl, rfl, rfl⟩⟩

theorem searchDirEntry_runs : Runs h searchDirEntry fun _ => True := by
  unfold searchDirEntry
  refine Runs.bind sysMalloc_runs fun allBlocks ha => Runs.bind sysMalloc_runs fun buf hb => ?_
  exact Runs.bind (sysFree_runs hb) fun _ _ => sysFree_runs ha

theorem searchDirs_runs (dirs : List Nat) (fits : dir.Fits h) (n : Nat) :
    Runs h (searchDirs dir n dirs) fun r => r.1.Fits h := by
  induction dirs generalizing dir n with
  | nil => exact Runs.pure fits
  | cons i dirs ih =>
    unfold searchDirs
    refine Runs.bind searchDirEntry_runs fun _ _ => Runs.bind Runs.get fun s _ => ?_
    refine Runs.bind (dirClose_runs fits) fun _ _ => Runs.bind (dirOpen_runs i) fun dir' fits' => ?_
    exact ih fits' _

/-- What `search_file` leaves its caller to close; whether it has found something depends on the
path alone. -/
structure Searched.Fits (searched : Searched) (path : Path) (h : Heap) : Prop where
  parent : searched.parentDir.Fits h
  missing : ∀ dirs allBlocks, path = .names dirs (.missing allBlocks) → searched.inodeNo = none ∧
    searched.directory = false
  found : (∀ dirs allBlocks, path ≠ .names dirs (.missing allBlocks)) → searched.inodeNo ≠ none

theorem searchFile_runs (path : Path) :
    Runs h (searchFile path) fun searched => searched.Fits path h := by
  unfold searchFile
  refine Runs.bind Runs.get fun s good => ?_
  have root : (⟨none, s.rootInode⟩ : Dir).Fits h := ⟨nofun, good.root⟩
  split
  next => exact Runs.pure ⟨root, nofun, fun _ => nofun⟩
  next dirs last =>
    refine Runs.bind (searchDirs_runs dirs root 0) ?_
    rintro ⟨parentDir, parentInodeNo⟩ fits
    cases last with
    | missing allBlocks =>
      have ends : (⟨none, false, parentDir⟩ : Searched).Fits (.names dirs (.missing allBlocks)) h :=
        ⟨fits, fun _ _ _ => ⟨rfl, rfl⟩, fun hne => absurd rfl (hne dirs allBlocks)⟩
      cases allBlocks with
      | true => exact Runs.bind searchDirEntry_runs fun _ _ => Runs.pure ends
      | false => exact Runs.pure ends
    | regular i =>
      refine Runs.bind searchDirEntry_runs fun _ _ => Runs.pure ?_
      exact ⟨fits, fun _ _ e => (by cases e), fun _ => nofun⟩
    | done i =>
      refine Runs.bind (dirClose_runs fits) fun _ _ =>
        Runs.bind (dirOpen_runs _) fun dir fits' => Runs.pure ?_
      exact ⟨fits', fun _ _ e => (by cases e), fun _ => nofun⟩

/-! ## The calls -/

/-- What a call does whose code may fill or empty a slot. -/
def Ends (h : Heap) (s : InodeHeap) (f : Code α) : Prop :=
  Ensures (· ≠ sysFreeAssert) (fun r => Good r.2 ∧ r.2.heap = h) (f s)

theorem Runs.ends (run : Runs h f Q) (good : Good s) (hs : s.heap = h) : Ends h s f :=
  (run s good hs).mono fun _ r => ⟨r.1, r.2.1.heap.trans hs⟩

/-- Code that leaves the slots alone comes first. -/
theorem Runs.bind_ends {g : α → Code β} (run : Runs h f Q) (good : Good s) (hs : s.heap = h)
    (next : ∀ a s', Q a → Good s' → Same s s' → s'.heap = h → Ends h s' (g a)) :
    Ends h s (f >>= g) := by
  refine Ensures.bind (run s good hs) ?_
  rintro ⟨a, s'⟩ ⟨good', same, ha⟩
  exact next a s' ha good' same (same.heap.trans hs)

theorem Ends.bind {g : α → Code β} (ends : Ends h s f)
    (next : ∀ a s', Good s' → s'.heap = h → Ends h s' (g a)) : Ends h s (f >>= g) := by
  refine Ensures.bind ends ?_
  rintro ⟨a, s'⟩ ⟨good', hs'⟩
  exact next a s' good' hs'

theorem setSlot_ends (g : Nat) {o : Option Block} (ho : ∀ b, o = some b → b.heap = .kernel)
    (good : Good s) (hs : s.heap = h) : Ends h s (setSlot g o) := by
  refine ⟨⟨good.linked, fun g' b hb => ?_, good.root, good.frees⟩, hs⟩
  change Function.update s.slots g o g' = some b at hb
  rw [Function.update_apply] at hb
  split at hb
  · exact ho b hb
  · exact good.slots g' b hb

theorem Ends.get {g : InodeHeap → Code α} (ends : Ends h s (g s)) : Ends h s (get >>= g) := ends

/-- A slot that is filled and emptied again might as well have been emptied at once. -/
theorem setSlot_setSlot (g : Nat) (o o' : Option Block) (f : Unit → Code α) :
    (setSlot g o >>= fun _ => setSlot g o' >>= f) = (setSlot g o' >>= f) := by
  funext s
  show f () { s with slots := Function.update (Function.update s.slots g o) g o' } =
    f () { s with slots := Function.update s.slots g o' }
  rw [Function.update_idem]

/-- `file_create` gets to its end: everything it asks for is there. -/
def CreateAnswers.complete (a : CreateAnswers) (slots : Slots) : Bool :=
  a.ioBuf && a.inodeNo.isSome && a.inode && (freeSlot slots).isSome && a.synced

theorem fileCreate_ends (dir : Dir) (a : CreateAnswers)
    (hc : h = .kernel ∨ a.complete s.slots = false) (good : Good s) (hs : s.heap = h) :
    Ends h s (fileCreate dir a) := by
  unfold fileCreate
  refine Runs.bind_ends (trySysMalloc_runs a.ioBuf) good hs fun ioBuf s₁ hio good₁ same₁ hs₁ => ?_
  split
  next ioBuf =>
    have free {s : InodeHeap} (good : Good s) (hs : s.heap = h) : Ends h s (sysFree ioBuf) :=
      (sysFree_runs (hio.1 ioBuf rfl)).ends good hs
    split
    next => exact free good₁ hs₁
    next inodeNo hino =>
      refine Runs.bind_ends (trySysMalloc_runs a.inode) good₁ hs₁
        fun inode s₂ hinode good₂ same₂ hs₂ => ?_
      split
      next => exact free good₂ hs₂
      next newFileInode =>
        have hnew : newFileInode.heap = h := hinode.1 newFileInode rfl
        have undo {s : InodeHeap} (good : Good s) (hs : s.heap = h) :
            Ends h s (sysFree newFileInode >>= fun _ => sysFree ioBuf) :=
          (Runs.bind (sysFree_runs hnew) fun _ _ => sysFree_runs (hio.1 ioBuf rfl)).ends good hs
        refine Ends.get ?_
        split
        next => exact undo good₂ hs₂
        next g hg =>
          by_cases hsync : a.synced = true
          · rw [if_pos hsync]
            have kernel : h = .kernel := by
              refine hc.resolve_right fun hf => ?_
              rw [← (same₁.trans same₂).slots] at hf
              rw [CreateAnswers.complete, ← hio.2, hino, ← hinode.2, hg, hsync] at hf
              cases hf
            subst kernel
            have slot {b : Block} (hb : some newFileInode = some b) : b.heap = .kernel := by
              rw [← Option.some.inj hb]
              exact hnew
            refine (setSlot_ends g (fun _ => slot) good₂ hs₂).bind fun _ s' good' hs' => ?_
            refine Runs.bind_ends (inodeSync_runs dir.inode) good' hs' fun _ s₃ _ good₃ _ hs₃ => ?_
            refine Runs.bind_ends (Runs.modify fun s good => ?_) good₃ hs₃ fun _ s₄ _ good₄ _ hs₄ =>
              free good₄ hs₄
            refine ⟨⟨fun b hb => ?_, good.slots, good.root, good.frees⟩, ⟨rfl, rfl, rfl⟩⟩
            rcases List.mem_cons.mp hb with rfl | hb
            · exact hnew
            · exact good.linked b hb
          · rw [if_neg hsync]
            rw [setSlot_setSlot]
            exact (setSlot_ends g (o := none) nofun good₂ hs₂).bind fun _ s' good' hs' =>
              undo good' hs'
  next => exact (Runs.pure (Q := fun _ => True) trivial).ends good₁ hs₁

theorem sysClose_ends (g : Nat) (good : Good s) (hs : s.heap = h) (en : s.slots g ≠ none) :
    Ends h s (sysClose g) := by
  obtain ⟨inode, hg⟩ := Option.ne_none_iff_exists'.mp en
  have body : sysClose g s = (inodeClose inode >>= fun _ => setSlot g none) s := by
    unfold sysClose
    rw [get_bind, hg]
  unfold Ends
  rw [body]
  refine Runs.bind_ends (inodeClose_runs (good.slots g inode hg)) good hs fun _ s' _ good' _ hs' =>
    ?_
  exact setSlot_ends g nofun good' hs'

theorem sysWrite_runs (ioBuf allBlocks : Bool) :
    Runs h (sysWrite ioBuf allBlocks) fun _ => True := by
  unfold sysWrite
  refine Runs.bind (trySysMalloc_runs ioBuf) fun ioBuf hio => ?_
  split
  next ioBuf =>
    refine Runs.bind (trySysMalloc_runs allBlocks) fun allBlocks hall => ?_
    split
    next allBlocks =>
      exact Runs.bind (sysFree_runs (hio.1 _ rfl)) fun _ _ => sysFree_runs (hall.1 _ rfl)
    next => exact Runs.pure trivial
  next => exact Runs.pure trivial

theorem sysMkdir_runs (ioBuf : Bool) (path : Path) (sameDepth : Bool) (made : Option Nat) :
    Runs h (sysMkdir ioBuf path sameDepth made) fun _ => True := by
  unfold sysMkdir
  refine Runs.bind (trySysMalloc_runs ioBuf) fun ioBuf hio => ?_
  split
  next ioBuf =>
    refine Runs.bind (searchFile_runs path) fun searched fits => ?_
    split
    next inodeNo _ =>
      refine Runs.bind (inodeSync_runs _) fun _ _ =>
        Runs.bind (Runs.modify fun s good => ?_) fun _ _ => ?_
      · exact ⟨⟨good.linked, good.slots, good.root, good.frees⟩, ⟨rfl, rfl, rfl⟩⟩
      · exact Runs.bind (sysFree_runs (hio.1 _ rfl)) fun _ _ => dirClose_runs fits.parent
    next => exact Runs.bind (dirClose_runs fits.parent) fun _ _ => sysFree_runs (hio.1 _ rfl)
  next => exact Runs.pure trivial

theorem rootDir_runs : Runs h rootDir fun dir => dir.Fits h :=
  Runs.bind Runs.get fun _ good => Runs.pure ⟨nofun, good.root⟩

theorem tryDirOpen_runs (inodeNo : Option Nat) : Runs h (tryDirOpen inodeNo) fun _ => True := by
  cases inodeNo with
  | none => exact Runs.pure trivial
  | some i => exact Runs.bind (dirOpen_runs i) fun _ _ => Runs.pure trivial

theorem sysOpendir_runs (path : Path) : Runs h (sysOpendir path) fun _ => True := by
  unfold sysOpendir
  split
  · exact Runs.bind rootDir_runs fun _ _ => Runs.pure trivial
  refine Runs.bind (searchFile_runs path) fun searched fits =>
    Runs.bind (tryDirOpen_runs _) fun ret _ => ?_
  exact Runs.bind (dirClose_runs fits.parent) fun _ _ => Runs.pure trivial

theorem sysStat_runs (path : Path) : Runs h (sysStat path) fun _ => True := by
  unfold sysStat
  split
  · exact Runs.pure trivial
  refine Runs.bind (searchFile_runs path) fun searched fits => ?_
  split
  · exact dirClose_runs fits.parent
  · refine Runs.bind (inodeOpen_runs _) fun inode hi => ?_
    exact Runs.bind (inodeClose_runs hi) fun _ _ => dirClose_runs fits.parent

theorem fileOpen_ends (inodeNo : Nat) (good : Good s) (hs : s.heap = h) :
    Ends h s (fileOpen inodeNo) := by
  unfold fileOpen
  refine Ends.get ?_
  split
  next => exact (Runs.pure (Q := fun _ => True) trivial).ends good hs
  next g hg =>
    refine Runs.bind_ends (inodeOpen_runs inodeNo) good hs fun inode s' hi good' _ hs' =>
      setSlot_ends g (fun b hb => ?_) good' hs'
    rw [← Option.some.inj hb]
    exact hi

/-- A `sys_open` that creates a file and has everything it asks for. -/
def InodeCall.createsFile (slots : Slots) : InodeCall → Bool
  | .sysOpen false (.names _ (.missing _)) true true a => a.complete slots
  | _ => false

theorem sysOpen_ends {slash : Bool} {path : Path} {sameDepth create : Bool} {a : CreateAnswers}
    (hc : h = .kernel ∨ (InodeCall.sysOpen slash path sameDepth create a).createsFile s.slots =
      false) (good : Good s) (hs : s.heap = h) :
    Ends h s (sysOpen slash path sameDepth create a) := by
  unfold sysOpen
  cases slash with
  | true => exact (Runs.pure (Q := fun _ => True) trivial).ends good hs
  | false =>
    refine Runs.bind_ends (searchFile_runs path) good hs fun searched s₁ fits good₁ same hs₁ => ?_
    have close {s : InodeHeap} (good : Good s) (hs : s.heap = h) :
        Ends h s (dirClose searched.parentDir) :=
      (dirClose_runs fits.parent).ends good hs
    cases hdir : searched.directory with
    | true => exact close good₁ hs₁
    | false =>
      cases sameDepth with
      | false => exact close good₁ hs₁
      | true =>
        cases create with
        | true =>
          cases hno : searched.inodeNo with
          | some inodeNo => exact close good₁ hs₁
          | none =>
            refine (fileCreate_ends searched.parentDir a (hc.imp_right fun hf => ?_) good₁ hs₁).bind
              fun _ s₂ good₂ hs₂ => close good₂ hs₂
            rw [same.slots]
            by_contra hne
            refine fits.found (fun dirs allBlocks hp => ?_) hno
            subst hp
            exact hne hf
        | false =>
          cases hno : searched.inodeNo with
          | some inodeNo => exact fileOpen_ends inodeNo good₁ hs₁
          | none => exact close good₁ hs₁

/-- THE STEP. A call keeps the invariant and does not fail at the assertion of `sys_free`, unless a
process makes a file. -/
theorem call_ends (call : InodeCall) (hc : h = .kernel ∨ call.createsFile s.slots = false)
    (en : ∀ g, call = .sysClose g → s.slots g ≠ none) (good : Good s) (hs : s.heap = h) :
    Ends h s call.code := by
  cases call with
  | sysOpen => exact sysOpen_ends hc good hs
  | sysClose g => exact sysClose_ends g good hs (en g rfl)
  | sysWrite ioBuf allBlocks => exact (sysWrite_runs ioBuf allBlocks).ends good hs
  | sysMkdir ioBuf path sameDepth made =>
    exact (sysMkdir_runs ioBuf path sameDepth made).ends good hs
  | sysOpendir path =>
    exact (Runs.bind (sysOpendir_runs path) fun _ _ => Runs.pure (Q := fun _ => True) trivial).ends
      good hs
  | sysStat path => exact (sysStat_runs path).ends good hs

/-! ## A process that makes a file -/

/-- An inode of a process's heap is linked. -/
def Links (s : InodeHeap) : Prop := ∃ b ∈ s.openInodes, b.heap ≠ .kernel

/-- The running task and its `pgdir`. -/
def InodeHeap.runner (s : InodeHeap) : Nat × Bool := (s.cur, s.pgdir)

theorem InodeHeap.heap_of_runner (e : s'.runner = s.runner) : s'.heap = s.heap := by
  obtain ⟨hcur, hpg⟩ := Prod.mk.inj e
  unfold InodeHeap.heap
  rw [hcur, hpg]

/-- Code that leaves such an inode behind, and does not fail at the assertion of `sys_free` either.
-/
def Leads (s : InodeHeap) (f : Code α) : Prop :=
  Ensures (· ≠ sysFreeAssert) (fun r => Links r.2 ∧ r.2.runner = s.runner) (f s)

theorem Runs.bind_leads {g : α → Code β} (run : Runs h f Q) (good : Good s) (hs : s.heap = h)
    (next : ∀ a s', Q a → Good s' → Same s s' → s'.heap = h → Leads s' (g a)) :
    Leads s (f >>= g) := by
  refine Ensures.bind (run s good hs) ?_
  rintro ⟨a, s'⟩ ⟨good', same, ha⟩
  refine (next a s' ha good' same (same.heap.trans hs)).mono fun r hr => ⟨hr.1, hr.2.trans ?_⟩
  exact Prod.ext same.cur same.pgdir

theorem Leads.bind {g : α → Code β} (leads : Leads s f)
    (next : ∀ a s', Links s' → s'.runner = s.runner → Leads s' (g a)) : Leads s (f >>= g) := by
  refine Ensures.bind leads ?_
  rintro ⟨a, s'⟩ ⟨links, same⟩
  exact (next a s' links same).mono fun r hr => ⟨hr.1, hr.2.trans same⟩

theorem Leads.get {g : InodeHeap → Code α} (leads : Leads s (g s)) : Leads s (get >>= g) := leads

theorem Leads.modify {g : InodeHeap → InodeHeap} {k : Unit → Code α}
    (same : (g s).runner = s.runner) (leads : Leads (g s) (k ())) : Leads s (modify g >>= k) :=
  Ensures.mono (r := k () (g s)) leads fun _ hr => ⟨hr.1, hr.2.trans same⟩

theorem sysFree_leads (hb : b.heap = s.heap) (links : Links s) : Leads s (sysFree b) := by
  unfold Leads sysFree
  rw [if_neg]
  · exact ⟨links, rfl⟩
  · rintro ⟨hpg, hne⟩
    refine hne (hb.trans ?_)
    unfold InodeHeap.heap
    rw [hpg]
    rfl

theorem withoutPgdir_leads (leads : Leads { s with pgdir := false } f) :
    Leads s (withoutPgdir f) := by
  unfold withoutPgdir
  refine Ensures.bind (P := fun r : α × InodeHeap => Links r.2 ∧
    r.2.runner = (s.cur, false)) leads ?_
  rintro ⟨_, s'⟩ ⟨links, same⟩
  exact ⟨links, Prod.ext (Prod.mk.inj same).1 rfl⟩

theorem inodeClose_leads (hb : b.heap = .kernel) (links : Links s) : Leads s (inodeClose b) := by
  obtain ⟨c, hc, hne⟩ := links
  have other : c ≠ b := fun e => hne (by rw [e, hb])
  have kept : c ∈ s.openInodes.erase b := (List.mem_erase_of_ne other).mpr hc
  unfold inodeClose
  refine Leads.modify rfl (Leads.get ?_)
  split
  · exact Leads.modify rfl (withoutPgdir_leads (sysFree_leads hb ⟨c, kept, hne⟩))
  · exact ⟨⟨c, hc, hne⟩, rfl⟩

theorem dirClose_leads (fits : dir.Fits s.heap) (links : Links s) : Leads s (dirClose dir) := by
  unfold dirClose
  split
  next => exact ⟨links, rfl⟩
  next pdir hp =>
    refine (inodeClose_leads fits.inode links).bind fun _ s' links' same => sysFree_leads ?_ links'
    rw [InodeHeap.heap_of_runner same]
    exact fits.block pdir hp

theorem fileCreate_leads {a : CreateAnswers} (hc : a.complete s.slots = true) (good : Good s)
    (hs : s.heap = h) (hh : h ≠ .kernel) : Leads s (fileCreate dir a) := by
  unfold fileCreate
  simp only [CreateAnswers.complete, Bool.and_eq_true] at hc
  obtain ⟨⟨⟨⟨hio, hno⟩, hin⟩, hfree⟩, hsync⟩ := hc
  obtain ⟨inodeNo, hno⟩ := Option.isSome_iff_exists.mp hno
  obtain ⟨g, hfree⟩ := Option.isSome_iff_exists.mp hfree
  refine (trySysMalloc_runs a.ioBuf).bind_leads good hs fun ioBuf s₁ hio' good₁ same₁ hs₁ => ?_
  obtain ⟨ioBuf, rfl⟩ := Option.isSome_iff_exists.mp (hio'.2.trans hio)
  rw [hno]
  refine (trySysMalloc_runs a.inode).bind_leads good₁ hs₁ fun inode s₂ hin' good₂ same₂ hs₂ => ?_
  obtain ⟨inode, rfl⟩ := Option.isSome_iff_exists.mp (hin'.2.trans hin)
  rw [← (same₁.trans same₂).slots] at hfree
  refine Leads.get ?_
  rw [hfree]
  refine Leads.modify rfl ?_
  rw [if_pos hsync]
  refine Leads.modify rfl (Leads.modify rfl ?_)
  refine sysFree_leads ((hio'.1 ioBuf rfl).trans hs₂.symm) ⟨inode, List.mem_cons_self, ?_⟩
  rw [hin'.1 inode rfl]
  exact hh

theorem createsFile_leads {call : InodeCall} (hc : call.createsFile s.slots = true) (good : Good s)
    (hs : s.heap = h) (hh : h ≠ .kernel) : Leads s call.code := by
  unfold InodeCall.createsFile at hc
  split at hc
  next dirs allBlocks a =>
    refine (searchFile_runs (.names dirs (.missing allBlocks))).bind_leads good hs
      fun searched s₁ fits good₁ same hs₁ => ?_
    obtain ⟨hno, hdir⟩ := fits.missing dirs allBlocks rfl
    rw [← same.slots] at hc
    rw [hno, hdir]
    refine (fileCreate_leads hc good₁ hs₁ hh).bind fun _ s₂ links same₂ => dirClose_leads ?_ links
    rw [InodeHeap.heap_of_runner same₂, hs₁]
    exact fits.parent
  next => cases hc

/-! ## Runs -/

/-- Each inode in `open_inodes` is from the kernel's heap, each block was given back to the heap it
is from, and no call that can be made fails at the assertion of `sys_free`. -/
structure InKernel (s : InodeHeap) : Prop where
  linked : ∀ b ∈ s.openInodes, b.heap = .kernel
  frees : ∀ f ∈ s.frees, f.1 = f.2
  asserts : ∀ e, inodeMachine.enabled s e → inodeMachine.step s e ≠ .error sysFreeAssert

/-- The step makes no file for a process. -/
def MakesNoFile (s : InodeHeap) (e : InodeEvent) : Prop :=
  e.process = true → e.call.createsFile s.slots = false

instance (s : InodeHeap) (e : InodeEvent) : Decidable (MakesNoFile s e) :=
  inferInstanceAs (Decidable (_ → _))

/-- The state in which the code of a call begins. -/
abbrev InodeHeap.begin (s : InodeHeap) (e : InodeEvent) : InodeHeap :=
  { s with cur := e.task, pgdir := e.process }

theorem Good.begin (good : Good s) (e : InodeEvent) : Good (s.begin e) :=
  ⟨good.linked, good.slots, good.root, good.frees⟩

theorem begin_heap_kernel {e : InodeEvent} (hp : e.process = false) :
    (s.begin e).heap = .kernel := by
  unfold InodeHeap.heap
  rw [show (s.begin e).pgdir = false from hp]
  rfl

theorem begin_heap_user {e : InodeEvent} (hp : e.process = true) : (s.begin e).heap ≠ .kernel := by
  unfold InodeHeap.heap
  rw [show (s.begin e).pgdir = true from hp]
  exact nofun

theorem step_ends {e : InodeEvent} (good : Good s) (en : inodeEnabled s e) (hc : MakesNoFile s e) :
    Ends (s.begin e).heap (s.begin e) e.call.code := by
  refine call_ends e.call ?_ (fun g hg => ?_) (good.begin e) rfl
  · cases hp : e.process with
    | true => exact .inr (hc hp)
    | false => exact .inl (begin_heap_kernel hp)
  · unfold inodeEnabled at en
    rw [hg] at en
    exact en

theorem step_leads {e : InodeEvent} (good : Good s) (hc : ¬ MakesNoFile s e) :
    Leads (s.begin e) e.call.code := by
  unfold MakesNoFile at hc
  rw [Classical.not_imp, Bool.not_eq_false] at hc
  exact createsFile_leads hc.2 (good.begin e) rfl (begin_heap_user hc.1)

theorem Good.inKernel (good : Good s) : InKernel s := by
  refine ⟨good.linked, good.frees, fun e en fault => ?_⟩
  have code : e.call.code (s.begin e) = .error sysFreeAssert := by
    change (e.call.code (s.begin e) >>= fun r => pure (r.2, ())) = _ at fault
    cases hr : e.call.code (s.begin e) with
    | error _ =>
      rw [hr] at fault
      exact congrArg Except.error (Except.error.inj fault)
    | ok _ =>
      rw [hr] at fault
      cases fault
  by_cases hc : MakesNoFile s e
  · exact (step_ends good en hc).of_error code rfl
  · exact (step_leads good hc).of_error code rfl

theorem step_code {e : InodeEvent} {o : Unit} (st : inodeMachine.step s e = .ok (s', o)) :
    e.call.code (s.begin e) = .ok ((), s') := by
  obtain ⟨r, hr, he⟩ := bind_eq_ok.mp st
  rw [hr, ← (Prod.mk.inj (Except.ok.inj he)).1]

theorem inodeStart_good (diskNo : Nat → Nat) : Good (inodeStart diskNo) :=
  ⟨fun _ h => (List.mem_singleton.mp h) ▸ rfl, nofun, rfl, nofun⟩

/-- CACHED INODES LIVE IN KERNEL MEMORY exactly in those runs in which no process makes a file. -/
theorem inodes_in_kernel_iff {diskNo : Nat → Nat} {tr : List (Entry InodeHeap InodeEvent Unit)}
    {s : InodeHeap} (path : inodeMachine.Path (inodeStart diskNo) tr s) :
    Machine.Always InKernel tr s ↔ Machine.Meets MakesNoFile tr := by
  refine path.always_iff_of_good (inodeStart_good diskNo) Good.inKernel (fun good en st hc => ?_)
    (fun good en st hc held => ?_)
  · exact ((step_ends good en hc).of_ok (step_code st)).1
  · obtain ⟨⟨b, hb, hne⟩, -⟩ := (step_leads good hc).of_ok (step_code st)
    exact hne (held.linked b hb)

/-- A kernel thread makes a file, and a process opens and closes it. -/
def kernelMakes : List InodeEvent :=
  [⟨0, false, .sysOpen false (.names [] (.missing true)) true true ⟨true, some 1, true, true⟩⟩,
    ⟨7, true, .sysOpen false (.names [] (.regular 1)) true false ⟨true, none, true, true⟩⟩,
    ⟨7, true, .sysClose 4⟩]

theorem inodes_in_kernel_iff_opens :
    ∃ tr s, inodeMachine.Path (inodeStart id) tr s ∧
      (Machine.Always InKernel tr s ↔ Machine.Meets MakesNoFile tr) := by
  have run : (inodeMachine.exec (inodeStart id) kernelMakes).isSome := by decide +kernel
  obtain ⟨s, run⟩ := Option.isSome_iff_exists.mp run
  obtain ⟨tr, path⟩ := Machine.exec_path (M := inodeMachine) run
  exact ⟨tr, s, path, inodes_in_kernel_iff path⟩

/-- A process makes a file. -/
def processMakes : InodeEvent :=
  ⟨7, true, .sysOpen false (.names [] (.missing true)) true true ⟨true, some 1, true, true⟩⟩

/-- It closes the file. -/
def processCloses : InodeEvent := ⟨7, true, .sysClose 3⟩

/-- The call fails at the assertion of `sys_free`. -/
def asserts (s : InodeHeap) (e : InodeEvent) : Bool :=
  match e.call.code (s.begin e) with
  | .ok _ => false
  | .error fault => fault == sysFreeAssert

theorem asserts_iff {e : InodeEvent} :
    asserts s e = true ↔ inodeMachine.step s e = .error sysFreeAssert := by
  change (match e.call.code (s.begin e) with
    | .ok _ => false
    | .error fault => fault == sysFreeAssert) = true ↔
    (e.call.code (s.begin e) >>= fun r => pure (r.2, ())) = _
  cases e.call.code (s.begin e) with
  | ok _ => exact iff_of_false nofun nofun
  | error fault =>
    rw [error_bind, Except.error.injEq]
    exact beq_iff_eq

/-- When the process closes its file, `inode_close` gives the inode to the kernel's heap: the
assertion of `sys_free` fails. -/
theorem process_close_asserts :
    ¬ ∀ (diskNo : Nat → Nat) (tr : List (Entry InodeHeap InodeEvent Unit)) (s : InodeHeap),
    inodeMachine.Path (inodeStart diskNo) tr s → InKernel s := by
  intro claim
  have run : (inodeMachine.exec (inodeStart id) [processMakes]).any fun s =>
      decide (inodeEnabled s processCloses) && asserts s processCloses := by decide +kernel
  obtain ⟨s, hs, fails⟩ := (Option.any_eq_true _ _).mp run
  rw [Bool.and_eq_true, decide_eq_true_eq] at fails
  obtain ⟨tr, path⟩ := Machine.exec_path (M := inodeMachine) hs
  exact (claim id tr s path).asserts processCloses fails.1 (asserts_iff.mp fails.2)

end SeekingOs.Fs.Cached
