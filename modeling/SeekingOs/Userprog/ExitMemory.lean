import SeekingOs.Userprog.ForkCopies

/-!
# The memory of a process that ends

`sys_exit` gives back the frames of the process and the pages of its bitmap, and `sys_wait` of the
parent the page directory and the task structure. The entries of the tables stay as they are. Open
files and pipes, which the parent has open as well, are not part of this state.
-/

namespace SeekingOs

open Lib

/-! ## The code -/

namespace Memory

variable (m : Memory)

/-- A turn of the inner loop of `release_prog_resource`. -/
def releasePte (pdeIdx pteIdx : Nat) (m : Memory) : Except Fault Memory := do
  let pte ← m.read "release_prog_resource" ((ptePtr (pdeIdx * 1024)).1, pteIdx)
  if present pte then m.pfree (frameOf pte) else .ok m

/-- A turn of the outer loop. -/
def releasePde (pgdirVaddr pdeIdx : Nat) (m : Memory) : Except Fault Memory := do
  let pde ← m.read "release_prog_resource" (pgdirVaddr, pdeIdx)
  if present pde then do
    let m ← upTo (releasePte pdeIdx) 1024 m
    m.pfree (frameOf pde)
  else .ok m

/-- `release_prog_resource` -/
def releaseProgResource (releaseThread : Proc) : Except Fault Memory := do
  let m ← upTo (releasePde releaseThread.pgdir) 768 m
  m.mfreePage .kernel releaseThread.vaddrBits (releaseThread.vaddrBitmap.btmpBytesLen / 4096)

/-- `thread_exit`, of a process that is not running. -/
def threadExit (threadOver : Proc) : Except Fault Memory := do
  let m ← m.mfreePage .kernel threadOver.pgdir 1
  m.mfreePage .kernel threadOver.pcb 1

/-- `process_activate`, with the bitmap of the process. -/
def processActivate (pthread : Proc) : Except Fault Memory := do
  let m ← m.pageDirActivate (some pthread.pgdir)
  return { m with userVaddr := pthread.vaddrBitmap }

/-- `get_a_page`, called by a process for a page of its own. -/
def getAPage (v : Nat) : Except Fault (Bool × Memory) :=
  let bitIdx := bitIdxOf v userVaddrStart
  if bitIdx < m.userVaddr.size then
    mapPages { m with userVaddr := bitmapSet m.userVaddr bitIdx true } .user v 1
  else .error (.outOfBounds "bitmap_set")

end Memory

open Memory

/-- The calls by which a process takes and gives back pages. -/
inductive UserCall where
  | getUserPages (pgCnt : Nat)
  | getAPage (vaddr : Nat)
  | mfreePage (vaddr pgCnt : Nat)

/-- What a call does to the memory. -/
def UserCall.run (m : Memory) : UserCall → Except Fault Memory
  | .getUserPages n => do
    let (_, m) ← m.getUserPages n
    return m
  | .getAPage v => do
    let (_, m) ← m.getAPage v
    return m
  | .mfreePage v n => m.mfreePage .user v n

/-- `parentThread` forks; the child runs, makes the calls and exits; the parent runs again and waits
for it. `none` when the `fork` answers −1. -/
def forkExitWait (m : Memory) (parentThread : Proc) (calls : List UserCall) :
    Except Fault (Option Memory) := do
  let (child, m) ← m.sysFork parentThread
  match child with
  | none => return none
  | some child =>
    let m ← m.processActivate child
    let m ← calls.foldlM UserCall.run m
    let m ← m.releaseProgResource child
    let m ← m.processActivate parentThread
    let m ← m.threadExit child
    return some m

/-! ## The bits of the kernel heap -/

namespace Memory

variable {m m' : Memory} {K : Bitmap} {v n : Nat} {func : String}

/-- What a computation answers has the bits `K` of the kernel heap. -/
abbrev HasBits (K : Bitmap) (r : Except Fault Memory) : Prop :=
  Ensures (fun _ => True) (fun m' => m'.kernelVaddr = K) r

theorem hasBits_write {place : Nat × Nat} {w : Nat} :
    HasBits m.kernelVaddr (m.write func place w) := by
  unfold write
  split
  next => trivial
  next => rfl

theorem hasBits_writePage {words : Nat → Nat} :
    HasBits m.kernelVaddr (m.writePage func v words) := by
  unfold writePage
  split
  next => trivial
  next => rfl

theorem HasBits.bind {r : Except Fault Memory} {f : Memory → Except Fault Memory} (h : HasBits K r)
    (next : ∀ m', m'.kernelVaddr = K → HasBits K (f m')) : HasBits K (r >>= f) :=
  Ensures.bind h next

/-- A value that is read first. -/
theorem HasBits.after {α : Type} {r : Except Fault α} {f : α → Except Fault Memory}
    (next : ∀ a, HasBits K (f a)) : HasBits K (r >>= f) := by
  cases r with
  | error e => trivial
  | ok a => exact next a

theorem hasBits_palloc {pf : PoolFlags} {f : Nat × Memory → Except Fault Memory}
    (next : ∀ r, r.2.kernelVaddr = m.kernelVaddr → HasBits m.kernelVaddr (f r)) :
    HasBits m.kernelVaddr (m.palloc pf >>= f) := by
  unfold palloc
  cases bitmapScan false (m.pool pf).poolBitmap 1 with
  | error e => trivial
  | ok r =>
    cases r with
    | none => exact next (0, m) rfl
    | some bitIdx => exact next (_, m.setPoolBit bitIdx true pf) setPoolBit_kernelVaddr

theorem hasBits_addToTable {frame : Nat} (h : m.kernelVaddr = K) :
    HasBits K (m.addToTable v frame) := by
  unfold addToTable
  refine .after fun _ => .after fun _ => ?_
  rw [← h]
  exact hasBits_write

theorem hasBits_pageTableAdd {frame : Nat} (h : m.kernelVaddr = K) :
    HasBits K (m.pageTableAdd v frame) := by
  unfold pageTableAdd
  refine .after fun pde => ?_
  split
  next => exact hasBits_addToTable h
  next =>
    subst h
    refine hasBits_palloc fun r hr => ?_
    rw [← hr]
    refine hasBits_write.bind fun m₁ h₁ => ?_
    rw [← h₁]
    exact hasBits_writePage.bind fun m₂ h₂ => hasBits_addToTable h₂

theorem ensures_mapPages {pf : PoolFlags} (h : m.kernelVaddr = K) :
    Ensures (fun _ => True) (fun r => r.2.kernelVaddr = K) (m.mapPages pf v n) := by
  induction n generalizing m v with
  | zero => exact h
  | succ n ih =>
    unfold mapPages palloc
    cases bitmapScan false (m.pool pf).poolBitmap 1 with
    | error e => trivial
    | ok r =>
      cases r with
      | none => exact h
      | some bitIdx =>
        show Ensures _ _ (if _ then _ else _)
        split
        next => exact setPoolBit_kernelVaddr.trans h
        next =>
          exact Ensures.bind (hasBits_pageTableAdd (setPoolBit_kernelVaddr.trans h)) fun m₁ h₁ =>
            ih h₁

theorem ensures_vaddrGet_user (h : m.kernelVaddr = K) :
    Ensures (fun _ => True) (fun r => ∀ v m', r = some (v, m') →
      m'.kernelVaddr = K) (m.vaddrGet .user n) := by
  unfold vaddrGet
  dsimp only
  cases bitmapScan false m.userVaddr n with
  | error e => trivial
  | ok r =>
    rw [ok_bind]
    cases r with
    | none => exact nofun
    | some i =>
      dsimp only
      refine (ensures_assertThat (fun _ => trivial) fun _ =>
        trivial : Ensures (fun _ => True) (fun _ => True) _).bind fun _ _ => ?_
      refine ensures_pure.mpr fun v m' e => ?_
      cases e
      exact h

theorem ensures_mallocPage_user (h : m.kernelVaddr = K) :
    Ensures (fun _ => True) (fun r => r.2.kernelVaddr = K) (m.mallocPage .user n) := by
  unfold mallocPage
  refine (ensures_assertThat (fun _ => trivial) fun _ =>
    trivial : Ensures (fun _ => True) (fun _ => True) _).bind fun _ _ => ?_
  refine (ensures_vaddrGet_user h).bind fun r hr => ?_
  cases r with
  | none => exact h
  | some r => exact (ensures_mapPages (hr r.1 r.2 rfl)).bind fun r hr => ensures_pure.mpr hr

theorem hasBits_clearPages (h : m.kernelVaddr = K) : HasBits K (m.clearPages func v n) := by
  induction n generalizing m v with
  | zero => exact h
  | succ n ih =>
    subst h
    exact hasBits_writePage.bind fun m₁ h₁ => ih h₁

theorem hasBits_pfree {frame : Nat} (h : m.kernelVaddr = K) : HasBits K (m.pfree frame) := by
  unfold pfree
  dsimp only
  generalize (if m.userPool.phyAddrStart ≤ frame then PoolFlags.user else .kernel) = pf
  split
  next => exact setPoolBit_kernelVaddr.trans h
  next => trivial

theorem hasBits_freePages {pf : PoolFlags} (h : m.kernelVaddr = K) :
    HasBits K (m.freePages pf v n) := by
  induction n generalizing m v with
  | zero => exact h
  | succ n ih =>
    unfold freePages
    refine .after fun frame => .after fun _ => (hasBits_pfree h).bind fun m₁ h₁ => ?_
    refine HasBits.bind ?_ fun m₂ h₂ => ih h₂
    unfold pageTablePteRemove
    refine .after fun pte => ?_
    rw [← h₁]
    exact hasBits_write

theorem hasBits_mfreePage_user (h : m.kernelVaddr = K) : HasBits K (m.mfreePage .user v n) := by
  unfold mfreePage
  refine .after fun _ => .after fun _ => .after fun _ => (hasBits_freePages h).bind fun m₁ h₁ => ?_
  unfold vaddrRemove
  dsimp only
  split
  next => exact h₁
  next => trivial

theorem hasBits_mfreePage_kernel (h : m.kernelVaddr = K) :
    HasBits (setBits K (bitIdxOf v kHeapStart) false n) (m.mfreePage .kernel v n) := by
  unfold mfreePage
  refine .after fun _ => .after fun _ => .after fun _ =>
    Ensures.bind (hasBits_freePages h) fun m₁ h₁ => ?_
  unfold vaddrRemove
  dsimp only
  split
  next => exact congrArg (setBits · _ false n) h₁
  next => trivial

/-- What a process does to its own pages leaves the bits of the kernel heap. -/
theorem hasBits_userCall (h : m.kernelVaddr = K) (call : UserCall) : HasBits K (call.run m) := by
  cases call with
  | getUserPages n =>
    show HasBits K (m.getUserPages n >>= fun r => pure r.2)
    unfold getUserPages
    rw [bind_assoc]
    refine (ensures_mallocPage_user h).bind fun r hr => ?_
    obtain ⟨vaddr, m₁⟩ := r
    cases vaddr with
    | none => exact hr
    | some v =>
      show HasBits K (m₁.clearPages "get_user_pages" v n >>= _ >>= _)
      rw [bind_assoc]
      exact Ensures.bind (hasBits_clearPages hr) fun m₂ h₂ => h₂
  | getAPage v =>
    show HasBits K (m.getAPage v >>= fun r => pure r.2)
    unfold getAPage
    dsimp only
    split
    next =>
      have h' :
          ({ m with userVaddr := bitmapSet m.userVaddr (bitIdxOf v userVaddrStart) true } :
            Memory).kernelVaddr = K := h
      exact (ensures_mapPages h').bind fun r hr => ensures_pure.mpr hr
    next => trivial
  | mfreePage v n => exact hasBits_mfreePage_user h

theorem hasBits_userCalls (h : m.kernelVaddr = K) (calls : List UserCall) :
    HasBits K (calls.foldlM UserCall.run m) := by
  induction calls generalizing m with
  | nil => exact h
  | cons call calls ih =>
    rw [List.foldlM_cons]
    exact (hasBits_userCall h call).bind fun m₁ h₁ => ih h₁

theorem hasBits_upTo {step : Nat → Memory → Except Fault Memory}
    (keep : ∀ i m, m.kernelVaddr = K → HasBits K (step i m)) (h : m.kernelVaddr = K) :
    HasBits K (upTo step n m) :=
  Ensures.upTo (I := fun _ m => m.kernelVaddr = K) h fun i _ m h => keep i m h

theorem hasBits_releasePte (h : m.kernelVaddr = K) (i j : Nat) : HasBits K (releasePte i j m) := by
  unfold releasePte
  refine .after fun pte => ?_
  split
  next => exact hasBits_pfree h
  next => exact h

theorem hasBits_releasePde (h : m.kernelVaddr = K) (pgdir i : Nat) :
    HasBits K (releasePde pgdir i m) := by
  unfold releasePde
  refine .after fun pde => ?_
  split
  next =>
    exact (hasBits_upTo (fun j m h => hasBits_releasePte h i j) h).bind fun m₁ h₁ =>
      hasBits_pfree h₁
  next => exact h

theorem hasBits_releaseProgResource (h : m.kernelVaddr = K) (p : Proc) :
    HasBits (setBits K (bitIdxOf p.vaddrBits kHeapStart) false (p.vaddrBitmap.btmpBytesLen / 4096))
      (m.releaseProgResource p) := by
  unfold releaseProgResource
  exact Ensures.bind (hasBits_upTo (fun i m h => hasBits_releasePde h p.pgdir i) h) fun m₁ h₁ =>
    hasBits_mfreePage_kernel h₁

theorem hasBits_processActivate (h : m.kernelVaddr = K) (p : Proc) :
    HasBits K (m.processActivate p) := by
  unfold processActivate pageDirActivate
  rw [bind_assoc]
  exact .after fun _ => h

theorem hasBits_threadExit (h : m.kernelVaddr = K) (p : Proc) :
    HasBits (setBits (setBits K (bitIdxOf p.pgdir kHeapStart) false 1) (bitIdxOf p.pcb kHeapStart)
      false 1) (m.threadExit p) :=
  Ensures.bind (hasBits_mfreePage_kernel h) fun _ h₁ => hasBits_mfreePage_kernel h₁

end Memory

end SeekingOs
