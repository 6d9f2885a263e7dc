import SeekingOs.Fs.CrossLinks
import SeekingOs.Kernel.TableWords
import SeekingOs.Userprog.Exec
import SeekingOs.Userprog.ForkCopies

/-!
# What a program file asks for

A file asks `load` for pages and for bytes, in an order that depends on the file alone. `load`
serves these requests: a page that is there is left alone, another goes to `get_a_page`, whatever
its address is, and bytes go where the file says. What has been touched lies in the range of the
process exactly when the file asks for nothing outside of it that is not there, and for no bytes
outside.
-/

namespace SeekingOs

open Lib

namespace Memory

variable {m m' : Memory} {dirs : List Nat} {v w f i t : Nat}

/-! ## Which pages a new page brings in -/

/-- The pages from the kernel on, after a page of the process has got its words: the page of its
table is there, and the others are as they were. -/
theorem TableWords.there (words : TableWords m m' v) (ord : m.Ordered dirs) (ord' : m'.Ordered dirs)
    (run : m.cr3 ∈ dirs) (cr3 : m'.cr3 = m.cr3) (hv : v < kernelStart)
    (new : (m'.pageAt m'.cr3 v).isSome = true) (hw : kernelStart ≤ w) (hw' : w < 2 ^ 20) :
    (m'.pageAt m'.cr3 w).isSome = true ↔ (m.pageAt m.cr3 w).isSome = true ∨
    w = 1023 * 1024 + v / 1024 := by
  unfold kernelStart at hv hw
  by_cases hself : w / 1024 = 1023
  · have hw₁ : w = 1023 * 1024 + w % 1024 := by omega
    have self' := ord'.pageAt_self (.inr (cr3 ▸ run)) (Nat.mod_lt w (by decide : 0 < 1024))
    have self := ord.pageAt_self (.inr run) (Nat.mod_lt w (by decide : 0 < 1024))
    rw [hw₁, self', self]
    by_cases hj : w % 1024 = v / 1024
    · rw [hj]
      apply iff_of_true ?_ (.inr rfl)
      obtain ⟨frame, hframe⟩ := Option.isSome_iff_exists.mp new
      obtain ⟨table, htable, -⟩ := pageAt_some.mp hframe
      rw [htable]
      rfl
    · have same : m'.tableAt m'.cr3 (w % 1024) = m.tableAt m.cr3 (w % 1024) := by
        unfold tableAt
        rw [cr3, words.dir _ hj]
      rw [same, or_iff_left]
      omega
  · have hi : 768 ≤ w / 1024 := by omega
    have hi' : w / 1024 < 1023 := by omega
    have table : m'.tableAt m'.cr3 (w / 1024) = m.tableAt m.cr3 (w / 1024) := by
      unfold tableAt
      rw [cr3, words.dir _ (by omega)]
    have shared : m.tableAt m.cr3 (w / 1024) = m.tableAt kernelDir (w / 1024) := by
      unfold tableAt
      rw [ord.shared _ run _ hi hi']
    have same : m'.pageAt m'.cr3 w = m.pageAt m.cr3 w := by
      unfold pageAt
      rw [table]
      cases htable : m.tableAt m.cr3 (w / 1024) with
      | none => rfl
      | some t =>
        have low := ord.kernelTable_low hi (by omega) (shared ▸ htable)
        show target (m'.ram t _) = target (m.ram t _)
        rw [words.low t low]
    rw [same, or_iff_left]
    omega

/-- The bit of a page of the process. -/
theorem bitIdxOf_user {size : Nat} (hsize : userVaddrStart + size = kernelStart) :
    v < 2 ^ 20 → (bitIdxOf v userVaddrStart < size ↔ userVaddrStart ≤ v ∧ v < kernelStart) := by
  unfold bitIdxOf
  unfold userVaddrStart kernelStart at *
  omega

/-- One page that goes through the loop of `malloc_page`. -/
theorem mapPages_user {b : Bool} (ord : m.Ordered dirs) (run : m.cr3 ∈ dirs) (hv : v < kernelStart)
    (h : m.mapPages .user v 1 = .ok (b, m')) :
    b = true ∧ Maps m m' dirs m.cr3 v 1 ∧ TableWords m m' v := by
  have addr (w : Nat) (_ : v ≤ w) (hw : w < v + 1) : m.Addr dirs .user w :=
    ⟨run, Nat.lt_of_le_of_lt (Nat.le_of_lt_succ hw) hv⟩
  obtain ⟨hb, maps⟩ := mapPages_ok ord (.inr run) addr h
  unfold mapPages at h
  obtain ⟨⟨f, m₁⟩, hpalloc, h⟩ := bind_eq_ok.mp h
  have grant := palloc_ok ord.layout hpalloc
  dsimp only at h
  rw [if_neg (grant.ne_zero ord.layout)] at h
  obtain ⟨m₂, hadd, h⟩ := bind_eq_ok.mp h
  cases h
  have words := pageTableAdd_words (grant.ordered ord) (grant.cr3 ▸ run) hv hadd
  refine ⟨hb, maps, ?_, ?_⟩
  · intro i hi
    have later := words.dir i hi
    rw [grant.cr3, grant.ram] at later
    exact later
  · intro g hg
    rw [words.low g (by rw [grant.shape.kernelStart]; exact hg), grant.ram]

theorem reserve_one (bitIdx : Nat) :
    ({ m with userVaddr := bitmapSet m.userVaddr bitIdx true } : Memory) =
      m.reserve bitIdx true 1 .user := rfl

/-- `get_a_page` FOR A PAGE OF THE PROCESS. When it answers, the page is there, and beside it only
the page of its table. -/
theorem getAPage_user {b : Bool} (ord : m.Ordered dirs) (run : m.cr3 ∈ dirs)
    (hbit : bitIdxOf v userVaddrStart < m.userVaddr.size) (hv : v < kernelStart)
    (h : m.getAPage v = .ok (b, m')) :
    b = true ∧ m'.Ordered dirs ∧ m'.cr3 = m.cr3 ∧ m'.userVaddr.size = m.userVaddr.size ∧
      ∀ w < 2 ^ 20, w ≠ v → ((m'.pageAt m'.cr3 w).isSome = true ↔ (m.pageAt m.cr3 w).isSome = true ∨
        w = 1023 * 1024 + v / 1024) := by
  have hmap : (m.reserve (bitIdxOf v userVaddrStart) true 1 .user).mapPages .user v 1 =
      .ok (b, m') := by
    rw [← reserve_one]
    exact (if_pos hbit).symm.trans h
  generalize bitIdxOf v userVaddrStart = bitIdx at hmap
  have ord₀ : (m.reserve bitIdx true 1 .user).Ordered dirs := reserve_ordered ord
  obtain ⟨hb, maps, words⟩ := mapPages_user ord₀ run hv hmap
  have cr3 : m'.cr3 = m.cr3 := maps.cr3
  obtain ⟨frame, hframe, -⟩ := maps.new v (Nat.le_refl v) (Nat.lt_succ_self v)
  have new : (m'.pageAt m'.cr3 v).isSome = true := by
    rw [cr3]
    exact Option.isSome_iff_exists.mpr ⟨frame, hframe⟩
  have before (w : Nat) : (m.reserve bitIdx true 1 .user).pageAt m.cr3 w = m.pageAt m.cr3 w :=
    reserve_frameIn (p := .page m.cr3 w)
  refine ⟨hb, maps.ordered, cr3, ?_, fun w hw hne => ?_⟩
  · rw [maps.userVaddr]
    exact size_setBits _ _ _ _
  · by_cases high : kernelStart ≤ w
    · have there := words.there ord₀ maps.ordered run cr3 hv new high hw
      rw [← before w]
      exact there
    · have valid : (m.reserve bitIdx true 1 .user).Valid dirs (.page m.cr3 w) :=
        Or.inl ⟨run, Nat.lt_of_not_le high⟩
      have same :=
        maps.pages m.cr3 w valid fun h => hne (Nat.le_antisymm (Nat.le_of_lt_succ h.2.2) h.2.1)
      rw [cr3, same, before w, or_iff_left]
      unfold kernelStart at high
      omega

/-- A page whose entry is there has its table there, as a page. -/
theorem Ordered.table_page (ord : m.Ordered dirs) (run : m.cr3 ∈ dirs) (hw : w < 2 ^ 20)
    (h : (m.pageAt m.cr3 w).isSome = true) :
    (m.pageAt m.cr3 (1023 * 1024 + w / 1024)).isSome = true := by
  rw [ord.pageAt_self (.inr run) (by omega)]
  obtain ⟨frame, hframe⟩ := Option.isSome_iff_exists.mp h
  obtain ⟨table, htable, -⟩ := pageAt_some.mp hframe
  rw [htable]
  rfl

end Memory

namespace Exec

open Fs Memory

variable {sb : SuperBlock}

/-! ## The requests of a file -/

/-- What a file asks for: that a page is there, and that bytes are copied to an address. -/
inductive Request where
  | page (vaddrPage : Nat)
  | bytes (vaddr count : Nat)
  deriving DecidableEq, Repr

/-- The requests of `exec.c`. -/
abbrev FilePlan := Plan Fault Request

/-- The pages of a segment. -/
def planPages (vaddrPage : Nat) : Nat → FilePlan Bool
  | 0 => return true
  | left + 1 => do
    let mapped ← Plan.ask (.page vaddrPage) true
    if mapped = true then planPages ((vaddrPage + 1) % 2 ^ 20) left else return false

/-- What `sys_read` copies. -/
def planRead (prog : Program sb) (k fdPos vaddr count : Nat) : FilePlan Nat := do
  Plan.of (assertThat false (vaddr ≠ 0) "sys_read" "buf != NULL")
  Plan.ask (.bytes vaddr (copied (prog.heap k) prog.part prog.inode fdPos count)) ()
  let r ← Plan.of (fileRead (prog.heap k) prog.part prog.inode fdPos zeros count)
  return r.fdPos

/-- A segment. -/
def planSegment (prog : Program sb) (k fdPos : Nat) (ph : Elf32Phdr) : FilePlan (Option Nat) := do
  let mapped ← planPages (ph.pVaddr / 4096) (occupyPages ph.pFilesz ph.pVaddr)
  if mapped = true then do
    let (fdPos, _) ← Plan.of (seekTo prog.inode fdPos ph.pOffset)
    let fdPos ← planRead prog k fdPos ph.pVaddr ph.pFilesz
    return some fdPos
  else return none

/-- A header. -/
def planHeader (prog : Program sb) (h : Elf32Ehdr) (progIdx progHeaderOff fdPos : Nat) :
    FilePlan (Option Nat) := do
  let (fdPos, _) ← Plan.of (seekTo prog.inode fdPos progHeaderOff)
  let r ← Plan.of (fileRead (prog.heap (2 * progIdx + 1)) prog.part prog.inode fdPos
      zeros h.ePhentsize)
  if r.ret ≠ some h.ePhentsize then return none
  else if (phdrAt r.buf).pType = ptLoad then
    planSegment prog (2 * progIdx + 2) r.fdPos (phdrAt r.buf)
  else return some r.fdPos

/-- The headers. -/
def planHeaders (prog : Program sb) (h : Elf32Ehdr) :
    (left progIdx progHeaderOff fdPos : Nat) → FilePlan Int
  | 0, _, _, _ => return toSigned 32 h.eEntry
  | left + 1, progIdx, progHeaderOff, fdPos => do
    let loaded ← planHeader prog h progIdx progHeaderOff fdPos
    match loaded with
    | none => return -1
    | some fdPos => planHeaders prog h left (progIdx + 1) (u32 (progHeaderOff + h.ePhentsize)) fdPos

/-- WHAT THE FILE ASKS FOR, from its content alone. -/
def planLoad (prog : Option (Program sb)) : FilePlan Int :=
  match prog with
  | none => return -1
  | some prog => do
    let r ← Plan.of (fileRead (prog.heap 0) prog.part prog.inode 0 zeros ehdrSize)
    if r.ret ≠ some ehdrSize then return -1
    else if ¬ (ehdrAt r.buf).Checked then return -1
    else planHeaders prog (ehdrAt r.buf) (ehdrAt r.buf).ePhnum 0 (ehdrAt r.buf).ePhoff r.fdPos

/-! ## The range of the process -/

/-- A page from `USER_VADDR_START` to `0xc0000000`. -/
def UserPage (v : Nat) : Prop := userVaddrStart ≤ v ∧ v < kernelStart

/-- An address there. -/
def UserAddr (a : Nat) : Prop := UserPage (a / 4096)

instance (v : Nat) : Decidable (UserPage v) := inferInstanceAs (Decidable (_ ∧ _))
instance (a : Nat) : Decidable (UserAddr a) := inferInstanceAs (Decidable (UserPage _))

/-- The page of a table that a page asked for before has brought in. -/
def BroughtIn (before : List Request) (v : Nat) : Prop :=
  ∃ w, .page w ∈ before ∧ v = 1023 * 1024 + w / 1024

/-- A REQUEST OUTSIDE: a page outside of the range that is not there, or bytes of which one goes
outside. -/
def Outside (m : Memory) (before : List Request) : Request → Prop
  | .page v => ¬ UserPage v ∧ ¬ There m v ∧ ¬ BroughtIn before v
  | .bytes vaddr count => ∃ k < count, ¬ UserAddr (u32 (vaddr + k))

/-- What may be touched: pages of the range, with a bit inside the bitmap of the process, and
addresses of the range. -/
def Inside (m : Memory) : Touch → Prop
  | .mapped v bitIdx => UserPage v ∧ bitIdx < m.userVaddr.size
  | .written vaddr count => ∀ k < count, UserAddr (u32 (vaddr + k))

/-- The frames are in order, and outside of the range the pages are those of `m₀` and the tables
brought in. -/
structure Serving (m₀ : Memory) (dirs : List Nat) (before : List Request) (m : Memory) : Prop where
  ordered : m.Ordered dirs
  cr3 : m.cr3 = m₀.cr3
  size : m.userVaddr.size = m₀.userVaddr.size
  there : ∀ v < 2 ^ 20, ¬ UserPage v → (There m v ↔ There m₀ v ∨ BroughtIn before v)

/-- What `exec.c` is measured against. -/
def execBounds (m₀ : Memory) (dirs : List Nat) : Bounds Request Memory Touch where
  outside := Outside m₀
  inside := Inside m₀
  inv := Serving m₀ dirs

/-! ## The loader serves the requests -/

variable {m₀ m : Memory} {dirs : List Nat} {before : List Request} {v : Nat}

theorem broughtIn_page {w : Nat} : BroughtIn (before ++ [.page v]) w ↔ BroughtIn before w ∨
    w = 1023 * 1024 + v / 1024 := by
  unfold BroughtIn
  constructor
  · rintro ⟨u, hu, e⟩
    rcases List.mem_append.mp hu with hu | hu
    · exact .inl ⟨u, hu, e⟩
    · cases List.mem_singleton.mp hu
      exact .inr e
  · rintro (⟨u, hu, e⟩ | e)
    · exact ⟨u, List.mem_append_left _ hu, e⟩
    · exact ⟨v, List.mem_append_right _ (List.mem_singleton.mpr rfl), e⟩

theorem broughtIn_bytes {a n w : Nat} : BroughtIn (before ++ [.bytes a n]) w ↔
    BroughtIn before w := by
  unfold BroughtIn
  constructor
  · rintro ⟨u, hu, e⟩
    rcases List.mem_append.mp hu with hu | hu
    · exact ⟨u, hu, e⟩
    · cases List.mem_singleton.mp hu
  · rintro ⟨u, hu, e⟩
    exact ⟨u, List.mem_append_left _ hu, e⟩

/-- The test of `segment_load` finds out whether the page is there. -/
theorem pageThere_run (ord : m.Ordered dirs) (run : m.cr3 ∈ dirs) (hv : v < 2 ^ 20)
    (touched : List Touch) :
    pageThere v ⟨m, touched⟩ = (.ok (decide (There m v)), ⟨m, touched⟩) := by
  have self := ord.pageAt_self (.inr run) (show v / 1024 < 1024 by omega)
  unfold pageThere
  dsimp only
  rw [ord.read_pde (.inr run), ok_bind]
  cases hpde : present (m.ram m.cr3 (v / 1024)) with
  | false =>
    have none : m.tableAt m.cr3 (v / 1024) = none := target_eq_none.mpr hpde
    have absent : ¬ There m v := by
      unfold There pageAt
      rw [none]
      exact Bool.false_ne_true
    rw [decide_eq_false absent]
    rfl
  | true =>
    have table : m.tableAt m.cr3 (v / 1024) = some (frameOf (m.ram m.cr3 (v / 1024))) := if_pos hpde
    have hread : m.read "segment_load" (ptePtr v) =
        .ok (m.ram (frameOf (m.ram m.cr3 (v / 1024))) (v % 1024)) := by
      unfold Memory.read
      rw [show m.pageAt m.cr3 (ptePtr v).1 = _ from self, table]
      rfl
    have there : There m v ↔ present (m.ram (frameOf (m.ram m.cr3 (v / 1024))) (v % 1024)) =
        true := by
      unfold There
      rw [pageAt_table table]
      unfold target
      split
      next h => exact iff_of_true rfl h
      next h => exact iff_of_false Bool.false_ne_true h
    rw [if_pos rfl, hread, ok_bind]
    cases hpte : present (m.ram (frameOf (m.ram m.cr3 (v / 1024))) (v % 1024)) with
    | false =>
      rw [hpte] at there
      rw [decide_eq_false fun h => Bool.false_ne_true (there.mp h)]
      rfl
    | true =>
      rw [decide_eq_true (there.mpr hpte)]
      rfl

theorem pageThere_touched (v : Nat) (s : Recorded Memory Touch) : (pageThere v s).2 = s := rfl

theorem recordMapped_touched (s : Recorded Memory Touch) (t : Touch)
    (r : Except Fault (Bool × Memory)) : (recordMapped s t r).2.touched = s.touched ++ [t] := by
  cases r with
  | ok r => rfl
  | error e => rfl

theorem servePage_absent {s : Recorded Memory Touch} (h : pageThere v s = (.ok false, s)) :
    servePage v s = getAPage v s := by
  unfold servePage
  rw [Acts.bind_ok h]
  exact congrFun (if_neg Bool.false_ne_true) s

theorem servePage_present {s : Recorded Memory Touch} (h : pageThere v s = (.ok true, s)) :
    servePage v s = (.ok true, s) := by
  unfold servePage
  rw [Acts.bind_ok h]
  rfl

theorem servePage_grows (v : Nat) (s : Recorded Memory Touch) :
    ∀ t ∈ s.touched, t ∈ (servePage v s).2.touched := by
  intro t ht
  rcases h : pageThere v s with ⟨r, s'⟩
  obtain rfl : s' = s := by
    have same := pageThere_touched v s
    rw [h] at same
    exact same
  cases r with
  | error e =>
    unfold servePage
    rw [Acts.bind_error h]
    exact ht
  | ok there =>
    cases there with
    | true =>
      rw [servePage_present h]
      exact ht
    | false =>
      rw [servePage_absent h]
      unfold getAPage
      rw [recordMapped_touched]
      exact List.mem_append_left _ ht

/-- The page that is asked for is there. -/
theorem Serving.present (serving : Serving m₀ dirs before m) (run : m₀.cr3 ∈ dirs) (hv : v < 2 ^ 20)
    (there : There m v) :
    ¬ Outside m₀ before (.page v) ∧ Serving m₀ dirs (before ++ [.page v]) m := by
  constructor
  · rintro ⟨notUser, absent, notBrought⟩
    exact ((serving.there v hv notUser).mp there).elim absent notBrought
  · refine ⟨serving.ordered, serving.cr3, serving.size, fun w hw notUser => ?_⟩
    rw [broughtIn_page, ← or_assoc, ← serving.there w hw notUser]
    constructor
    · exact .inl
    · rintro (h | rfl)
      · exact h
      · exact serving.ordered.table_page (serving.cr3 ▸ run) hv there

/-- `get_a_page` HAS MAPPED the page of the process that is asked for. -/
theorem Serving.mapped {m' : Memory} {b : Bool} (serving : Serving m₀ dirs before m)
    (run : m₀.cr3 ∈ dirs) (hbit : bitIdxOf v userVaddrStart < m.userVaddr.size) (user : UserPage v)
    (h : m.getAPage v = .ok (b, m')) : b = true ∧ Serving m₀ dirs (before ++ [.page v]) m' := by
  obtain ⟨hb, ordered, cr3, size, there⟩ :=
    getAPage_user serving.ordered (serving.cr3 ▸ run) hbit user.2 h
  refine ⟨hb, ordered, cr3.trans serving.cr3, size.trans serving.size, fun w hw notUser => ?_⟩
  have hne : w ≠ v := by
    rintro rfl
    exact notUser user
  rw [broughtIn_page, ← or_assoc, ← serving.there w hw notUser]
  exact there w hw hne

/-- A PAGE. It is left alone when it is there, and goes to `get_a_page` otherwise. -/
theorem follows_servePage (run : m₀.cr3 ∈ dirs)
    (size : userVaddrStart + m₀.userVaddr.size = kernelStart) (hv : v < 2 ^ 20) :
    Follows (execBounds m₀ dirs) (servePage v) (Plan.ask (.page v) true) where
  grows := servePage_grows v
  serves := by
    intro before s serving inside
    obtain ⟨m, touched⟩ := s
    have serving : Serving m₀ dirs before m := serving
    have test := pageThere_run serving.ordered (serving.cr3 ▸ run) hv touched
    have hbit : bitIdxOf v userVaddrStart < m.userVaddr.size ↔ UserPage v := by
      rw [serving.size]
      exact bitIdxOf_user size hv
    by_cases there : There m v
    · rw [decide_eq_true there] at test
      rw [servePage_present test]
      obtain ⟨fine, next⟩ := serving.present run hv there
      exact .served ⟨fine, trivial⟩ next inside rfl
    rw [decide_eq_false there] at test
    rw [servePage_absent test]
    by_cases user : UserPage v
    · have inside' : ∀ t ∈ touched ++ [.mapped v (bitIdxOf v userVaddrStart)], Inside m₀ t := by
        intro t ht
        rcases List.mem_append.mp ht with ht | ht
        · exact inside t ht
        · rw [List.mem_singleton.mp ht]
          exact ⟨user, serving.size ▸ hbit.mpr user⟩
      unfold getAPage
      cases h : m.getAPage v with
      | ok r =>
        obtain ⟨b, m'⟩ := r
        obtain ⟨rfl, next⟩ := serving.mapped run (hbit.mpr user) user h
        exact .served ⟨fun out => out.1 user, trivial⟩ next inside' rfl
      | error e =>
        exact .faulted e rfl inside'
    · have notThere := (not_congr (serving.there v hv user)).mp there
      rw [not_or] at notThere
      refine .touched ?_ (.mapped v (bitIdxOf v userVaddrStart)) ?_ ?_
      · intro none
        exact none.1 ⟨user, notThere⟩
      · unfold getAPage
        rw [recordMapped_touched]
        exact List.mem_append_right _ (List.mem_singleton.mpr rfl)
      · intro h
        exact user h.1

/-- BYTES. They go where the file says. -/
theorem follows_copyOut (vaddr count : Nat) :
    Follows (execBounds m₀ dirs) (copyOut vaddr count) (Plan.ask (.bytes vaddr count) ()) where
  grows := by
    intro s t ht
    unfold copyOut
    dsimp only
    split
    · exact List.mem_append_left _ ht
    · exact List.mem_append_left _ ht
  serves := by
    intro before s serving inside
    have serving : Serving m₀ dirs before s.state := serving
    have hle : bytesThere s.state vaddr count ≤ count := by
      unfold bytesThere
      apply Nat.le_trans (List.takeWhile_prefix _).length_le
      rw [List.length_range]
    unfold copyOut
    dsimp only
    have inside' (h : ∀ k < bytesThere s.state vaddr count, UserAddr (u32 (vaddr + k))) :
        ∀ t ∈ s.touched ++ [.written vaddr (bytesThere s.state vaddr count)], Inside m₀ t := by
      intro t ht
      rcases List.mem_append.mp ht with ht | ht
      · exact inside t ht
      · rw [List.mem_singleton.mp ht]
        exact h
    by_cases all : ∀ k < bytesThere s.state vaddr count, UserAddr (u32 (vaddr + k))
    · split
      next => exact .faulted _ rfl (inside' all)
      next hge =>
        have heq : bytesThere s.state vaddr count = count := by omega
        refine .served ⟨?_, trivial⟩ ?_ (inside' all) rfl
        · rintro ⟨k, hk, out⟩
          exact out (all k (heq.symm ▸ hk))
        · refine ⟨serving.ordered, serving.cr3, serving.size, fun w hw notUser => ?_⟩
          show There s.state w ↔ There m₀ w ∨ BroughtIn (before ++ [.bytes vaddr count]) w
          rw [broughtIn_bytes]
          exact serving.there w hw notUser
    · have some : ¬ (execBounds m₀ dirs).NoneOutside before [.bytes vaddr count] := by
        intro none
        apply all
        intro k hk
        by_contra out
        exact none.1 ⟨k, Nat.lt_of_lt_of_le hk hle, out⟩
      refine .touched some (.written vaddr (bytesThere s.state vaddr count)) ?_ all
      split
      · exact List.mem_append_right _ (List.mem_singleton.mpr rfl)
      · exact List.mem_append_right _ (List.mem_singleton.mpr rfl)

/-! ## `segment_load` and `load` -/

section

variable (run : m₀.cr3 ∈ dirs) (size : userVaddrStart + m₀.userVaddr.size = kernelStart)

include run size

theorem follows_mapSegment {v : Nat} (hv : v < 2 ^ 20) (left : Nat) :
    Follows (execBounds m₀ dirs) (mapSegment v left) (planPages v left) := by
  induction left generalizing v with
  | zero => exact follows_pure true
  | succ left ih =>
    apply (follows_servePage run size hv).bind
    intro mapped
    apply Follows.ite
    · intro _
      exact ih (Nat.mod_lt _ (by decide))
    · intro _
      exact follows_pure false

omit run size in
theorem follows_sysRead (prog : Program sb) (k fdPos vaddr count : Nat) :
    Follows (execBounds m₀ dirs) (sysRead prog k fdPos vaddr count)
      (planRead prog k fdPos vaddr count) := by
  apply (follows_of _).bind
  intro _
  apply (follows_copyOut _ _).bind
  intro _
  apply (follows_of _).bind
  intro r
  exact follows_pure r.fdPos

theorem follows_segmentLoad (prog : Program sb) (k fdPos : Nat) {ph : Elf32Phdr}
    (hv : ph.pVaddr < 2 ^ 32) :
    Follows (execBounds m₀ dirs) (segmentLoad prog k fdPos ph) (planSegment prog k fdPos ph) := by
  have hpage : ph.pVaddr / 4096 < 2 ^ 20 := Nat.div_lt_of_lt_mul hv
  apply (follows_mapSegment run size hpage _).bind
  intro mapped
  apply Follows.ite
  · intro _
    apply (follows_of _).bind
    intro sought
    apply (follows_sysRead _ _ _ _ _).bind
    intro fdPos
    exact follows_pure (some fdPos)
  · intro _
    exact follows_pure none

theorem follows_loadHeader (prog : Program sb) (h : Elf32Ehdr) (progIdx progHeaderOff fdPos : Nat) :
    Follows (execBounds m₀ dirs) (loadHeader prog h progIdx progHeaderOff fdPos)
      (planHeader prog h progIdx progHeaderOff fdPos) := by
  apply (follows_of _).bind
  intro sought
  apply (follows_of _).bind
  intro r
  apply Follows.ite
  · intro _
    exact follows_pure none
  intro _
  apply Follows.ite
  · intro _
    exact follows_segmentLoad run size _ _ _ (rd32_lt _ _)
  · intro _
    exact follows_pure (some r.fdPos)

theorem follows_loadHeaders (prog : Program sb) (h : Elf32Ehdr)
    (left progIdx progHeaderOff fdPos : Nat) :
    Follows (execBounds m₀ dirs) (loadHeaders prog h left progIdx progHeaderOff fdPos)
      (planHeaders prog h left progIdx progHeaderOff fdPos) := by
  induction left generalizing progIdx progHeaderOff fdPos with
  | zero => exact follows_pure (toSigned 32 h.eEntry)
  | succ left ih =>
    apply (follows_loadHeader run size prog h progIdx progHeaderOff fdPos).bind
    intro loaded
    cases loaded with
    | none => exact follows_pure (-1)
    | some fdPos => exact ih _ _ _

/-- THE LOADER SERVES THE REQUESTS OF THE FILE. -/
theorem follows_load (prog : Option (Program sb)) :
    Follows (execBounds m₀ dirs) (load prog) (planLoad prog) := by
  cases prog with
  | none => exact follows_pure (-1)
  | some prog =>
    apply (follows_of _).bind
    intro r
    apply Follows.ite
    · intro _
      exact follows_pure (-1)
    intro _
    apply Follows.ite
    · intro _
      exact follows_pure (-1)
    · intro _
      exact follows_loadHeaders run size _ _ _ _ _ _

end

/-! ## Which files are loaded to the range of the process -/

/-- The file asks for nothing outside. -/
def AsksInside (m : Memory) (prog : Option (Program sb)) : Prop :=
  ∀ before r after, (planLoad prog).1 = before ++ r :: after → ¬ Outside m before r

/-- What `load` touches lies in the range, with bits inside the bitmap; for a file that asks for
something outside it answers −1. -/
def LoadsInside (m : Memory) (prog : Option (Program sb)) : Prop :=
  (∀ t ∈ (load prog ⟨m, []⟩).2.touched, Inside m t) ∧
    (¬ AsksInside m prog → (load prog ⟨m, []⟩).1 = .ok (-1))

theorem asksInside_iff (dirs : List Nat) {prog : Option (Program sb)} :
    AsksInside m₀ prog ↔ (execBounds m₀ dirs).NoneOutside [] (planLoad prog).1 := by
  rw [Bounds.noneOutside_iff]
  rfl

/-- A process begins to load. -/
theorem serving_start (ag : m₀.Agrees dirs) : Serving m₀ dirs [] m₀ where
  ordered := ag.ordered
  cr3 := rfl
  size := rfl
  there v _ _ := by
    rw [or_iff_left]
    rintro ⟨w, hw, -⟩
    exact List.not_mem_nil hw

/-- A FILE THAT ASKS FOR SOMETHING OUTSIDE is not refused: something outside is touched, or the
loader faults. -/
theorem load_outside {prog : Option (Program sb)} (ag : m₀.Agrees dirs) (run : m₀.cr3 ∈ dirs)
    (asks : ¬ AsksInside m₀ prog) :
    (∃ t ∈ (load prog ⟨m₀, []⟩).2.touched, ¬ Inside m₀ t) ∨
    ∃ e, (load prog ⟨m₀, []⟩).1 = .error e := by
  rw [asksInside_iff dirs] at asks
  exact ((follows_load run (ag.userSize run) prog).verdict (serving_start ag)).2 asks

/-- A file that asks for nothing outside. -/
theorem load_inside {prog : Option (Program sb)} (ag : m₀.Agrees dirs) (run : m₀.cr3 ∈ dirs)
    (asks : AsksInside m₀ prog) : ∀ t ∈ (load prog ⟨m₀, []⟩).2.touched, Inside m₀ t := by
  rw [asksInside_iff dirs] at asks
  exact ((follows_load run (ag.userSize run) prog).verdict (serving_start ag)).1 asks

theorem not_loadsInside {prog : Option (Program sb)} (ag : m₀.Agrees dirs) (run : m₀.cr3 ∈ dirs)
    (asks : ¬ AsksInside m₀ prog) : ¬ LoadsInside m₀ prog := by
  rintro ⟨inside, answer⟩
  rcases load_outside ag run asks with ⟨t, ht, out⟩ | ⟨e, he⟩
  · exact out (inside t ht)
  · have := answer asks
    rw [he] at this
    cases this

/-- THE RANGE OF THE PROCESS. `load` keeps to it exactly for the files that ask for nothing outside.
-/
theorem loads_user_memory (dirs : List Nat) (m : Memory) (prog : Option (Program sb))
    (ag : m.Agrees dirs) (run : m.cr3 ∈ dirs) : LoadsInside m prog ↔ AsksInside m prog := by
  constructor
  · intro loads
    by_contra asks
    exact not_loadsInside ag run asks loads
  · intro asks
    exact ⟨load_inside ag run asks, fun outside => absurd asks outside⟩

/-! ### A segment in the kernel -/

/-- An ELF header with one program header after it, of a segment that is the whole file, at
`0xc0000000`. -/
def kernelFile : List Byte :=
  [127, 69, 76, 70, 1, 1, 1, 0, 0, 0, 0, 0, 0, 0, 0, 0, 2, 0, 3, 0, 1, 0, 0, 0, 0, 0, 0, 192, 52, 0,
    0, 0, 0, 0, 0, 0, 0, 0, 0, 0, 52, 0,
    32, 0, 1, 0, 0, 0, 0, 0, 0, 0, 1, 0, 0, 0, 0, 0, 0, 0, 0, 0, 0, 192, 0, 0, 0, 0, 84, 0, 0, 0,
    84, 0, 0, 0, 7, 0, 0, 0, 0, 16, 0, 0]

/-- The file on a disk: its block is 700. -/
def kernelProgram : Program smallDisk where
  part :=
    { fullPart with disk := fun a => if a / 512 = 700 then kernelFile.getD (a % 512) 0 else 0 }
  inode :=
    { iNo := 1, iSize := 84, iOpenCnts := 1, writenDeny := false,
      iSectors := fun k => if k = 0 then 700 else 0 }
  heap := fun _ => true

theorem kernelProgram_plan :
    (planLoad (some kernelProgram)).1 = [.page 0xc0000, .bytes 0xc0000000 84] := by
  decide +kernel

/-- It asks for bytes outside. -/
theorem kernelProgram_asks : ¬ AsksInside m (some kernelProgram) := by
  intro asks
  apply asks [.page 0xc0000] (.bytes 0xc0000000 84) []
  · exact kernelProgram_plan
  · exact ⟨0, by decide, by decide⟩

/-- The theorem for the first process and this file. -/
theorem loads_user_memory_kernel : ∃ m, LoadsInside m (some kernelProgram) ↔
    AsksInside m (some kernelProgram) := by
  obtain ⟨m, c, p, runs, -⟩ := first_process
  exact ⟨m, loads_user_memory [c] m (some kernelProgram) runs.agrees runs.run⟩

/-- THE SEGMENT AT `0xc0000000` is not refused. -/
theorem kernel_segment_loads :
    ¬ ∀ (dirs : List Nat) (m : Memory) (prog : Option (Program smallDisk)), m.Agrees dirs →
      m.cr3 ∈ dirs →
    LoadsInside m prog := by
  intro claim
  obtain ⟨m, c, p, runs, -⟩ := first_process
  exact not_loadsInside runs.agrees runs.run kernelProgram_asks
    (claim [c] m (some kernelProgram) runs.agrees runs.run)

end Exec

end SeekingOs
