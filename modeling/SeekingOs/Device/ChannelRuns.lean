import SeekingOs.Device.Channel
import SeekingOs.Thread.LockExclusion

/-!
# The disk interface over whole runs

One thread at most is at work. What `expecting_intr`, `disk_done` and the controller are depends
only on where it is: before its command nothing is expected; after it an interrupt is coming, or has
come and is in `disk_done`; and when it goes on from `sema_down`, the command is carried out. This
is so when each transfer is of one sector: then a command raises one interrupt.
-/

namespace SeekingOs.Device

open Lib Thread

variable {α : Type} {img image : Image α} {drive : Bool} {lba n m : Nat} {data data' : List α}
  {c : Controller α} {j : Job α}
  {s s' : Channel α} {sched : Sched} {regs : Registers} {secs : SectorSpan} {job : Addr → Job α}

/-! ## SectorSpan -/

theorem loaded_succ :
    loaded img drive lba n ++ [some (img drive (lba + n))] = loaded img drive lba (n + 1) := by
  unfold loaded
  rw [List.range'_1_concat, List.map_append]
  rfl

theorem stored_nil : stored img drive lba [] = img := by
  funext d k
  unfold stored
  split <;> rfl

theorem stored_append : stored (stored img drive lba data) drive (lba + data.length) data' =
    stored img drive lba (data ++ data') := by
  funext d k
  unfold stored
  by_cases hd : d = drive
  · by_cases hk : lba ≤ k
    · by_cases hk' : lba + data.length ≤ k
      · have behind : data.length ≤ k - lba := by omega
        rw [if_pos ⟨hd, hk'⟩, if_pos ⟨hd, hk⟩, if_pos ⟨hd, hk⟩, List.getElem?_append_right behind,
          List.getElem?_eq_none behind,
          show k - (lba + data.length) = k - lba - data.length by omega]
        rfl
      · rw [if_neg (fun h => hk' h.2), if_pos ⟨hd, hk⟩, if_pos ⟨hd, hk⟩,
          List.getElem?_append_left (by omega)]
    · rw [if_neg (fun h => hk (by omega)), if_neg (fun h => hk h.2), if_neg (fun h => hk h.2)]
  · rw [if_neg (fun h => hd h.1), if_neg (fun h => hd h.1), if_neg (fun h => hd h.1)]

/-- One round of a write after another. -/
theorem stored_data {t : Transfer α} :
    stored (stored img drive lba (t.data 0 n)) drive (lba + n) [t.buf n] =
      stored img drive lba (t.data 0 (n + 1)) := by
  have length : (t.data 0 n).length = n := by
    unfold Transfer.data
    rw [List.length_map, List.length_range']
  have next : t.data 0 n ++ [t.buf n] = t.data 0 (n + 1) := by
    unfold Transfer.data
    rw [List.range'_1_concat, List.map_append, Nat.zero_add]
    rfl
  have h := @stored_append α img drive lba (t.data 0 n) [t.buf n]
  rwa [length, next] at h

/-! ## Where the thread at work is -/

/-- What the drives hold when so many sectors of the call are done. -/
def Job.sofar (j : Job α) (done : Nat) (img : Image α) : Image α :=
  if j.write then stored img j.drive j.lba (j.data 0 done) else img

/-- The sector of this round. -/
structure Job.Names (j : Job α) (secs : SectorSpan) : Prop where
  lba : secs.lba = j.lba + j.secsDone
  count : secs.count = 1
  drive : secs.drive = j.drive

/-- So many sectors are done of the one that there is. -/
structure Job.Begun (j : Job α) (img : Image α) : Prop where
  one : j.secCnt = 1
  done : j.secsDone ≤ j.secCnt
  got : j.got = if j.write then [] else loaded img j.drive j.lba j.secsDone

/-- The controller carries out the command of this round. -/
def Job.Working (j : Job α) (img : Image α) (c : Controller α) : Prop :=
  ∃ secs, j.Names secs ∧ c.state =
    (if j.write then .writing (j.buf j.secsDone) secs else .reading secs) ∧
    c.image = j.sofar j.secsDone img

/-- It has carried it out. -/
def Job.Finished (j : Job α) (img : Image α) (c : Controller α) : Prop :=
  ∃ secs, j.Names secs ∧ c.state =
    (if j.write then .idle else .full (img j.drive (j.lba + j.secsDone)) secs) ∧
    c.image = j.sofar (j.secsDone + 1) img

/-- No interrupt is expected, and none is coming. -/
structure Calm (s : Channel α) : Prop where
  expecting : s.expectingIntr = false
  sema : s.lock.sched.semaphores diskDone = ⟨0, []⟩
  intrq : s.controller.intrq = false

/-- An interrupt is expected. -/
structure Expects (s : Channel α) (waiters : List Addr) : Prop where
  expecting : s.expectingIntr = true
  sema : s.lock.sched.semaphores diskDone = ⟨0, waiters⟩

/-- The interrupt of the command is coming, or it has come and is in `disk_done`. -/
inductive Signal (s : Channel α) (j : Job α) (img : Image α) (waiters : List Addr) : Prop
  | coming (expects : Expects s waiters)
      (controller : j.Working img s.controller ∧ s.controller.intrq = false ∨
        j.Finished img s.controller ∧ s.controller.intrq = true)
  | come (expecting : s.expectingIntr = false) (sema : s.lock.sched.semaphores diskDone = ⟨1, []⟩)
      (finished : j.Finished img s.controller) (intrq : s.controller.intrq = false)

/-- A write has given its command, and the controller gets ready for the data, or is ready. -/
structure Takes (s : Channel α) (j : Job α) (img : Image α) (ready : Bool) : Prop where
  expects : Expects s []
  intrq : s.controller.intrq = false
  image : s.controller.image = j.sofar j.secsDone img
  state : ∃ secs, j.Names secs ∧
    (s.controller.state = .empty secs ∨ ready = false ∧ s.controller.state = .preparing secs)

/-- What holds while the thread at work is at a place. -/
def At (s : Channel α) (j : Job α) (t : Addr) (img : Image α) : ChannelPoint → Prop
  | .selectDisk | .loop => Calm s ∧ s.controller.state = .idle ∧
      s.controller.image = j.sofar j.secsDone img
  | .expect =>
    j.secsDone < j.secCnt ∧ Calm s ∧ s.controller.state = .idle ∧
      s.controller.image = j.sofar j.secsDone img ∧
      j.Names s.controller.regs.sectors
  | .command =>
    j.secsDone < j.secCnt ∧ Expects s [] ∧ s.controller.intrq = false ∧ s.controller.state = .idle ∧
      s.controller.image = j.sofar j.secsDone img ∧ j.Names s.controller.regs.sectors
  | .sleep => j.secsDone < j.secCnt ∧ Signal s j img []
  | .asleep =>
    j.secsDone < j.secCnt ∧
      (InDiskDone (s.lock.sched.tasks t).resume ∧ Signal s j img [t] ∨
        ¬ InDiskDone (s.lock.sched.tasks t).resume ∧ Calm s ∧ j.Finished img s.controller)
  | .busyWait n =>
    j.secsDone < j.secCnt ∧ if j.write then Takes s j img false else n = 30 * 1000 ∧ Calm s ∧
      j.Finished img s.controller
  | .move moved => j.secsDone < j.secCnt ∧ moved = 0 ∧ if j.write then Takes s j img true
      else Calm s ∧ j.Finished img s.controller
  | .out | .acquire | .release => True

/-- The thread at work is where it should be. -/
structure Works (s : Channel α) (t : Addr) (img : Image α) : Prop where
  begun : (s.job t).Begun img
  place : At s (s.job t) t img (s.point t)

/-- Nobody is at work. -/
structure Rests (s : Channel α) (img : Image α) : Prop where
  calm : Calm s
  state : s.controller.state = .idle
  image : s.controller.image = img

/-- THE INVARIANT. -/
structure Driven (image : Image α) (s : Channel α) : Prop where
  sectioned : ∃ owner, Sectioned s.lock owner fun t => (s.point t).stage
  sleepers : ∀ t, InDiskDone (s.lock.sched.tasks t).resume → s.point t = .asleep
  fresh : ∀ t, s.point t = .acquire → (s.job t).secCnt = 1 ∧ (s.job t).secsDone = 0 ∧
    (s.job t).got = []
  turn : ∃ before, Serial Transfer.perform image s.history before ∧
    (∀ t, (s.point t).stage = .inside → Works s t before) ∧
    ((∀ t, (s.point t).stage ≠ .inside) → Rests s before)

/-- What is around the thread is the same. -/
theorem At.congr {t : Addr} {p : ChannelPoint} (h : At s j t img p)
    (controller : s'.controller = s.controller) (expecting : s'.expectingIntr = s.expectingIntr)
    (sema : s'.lock.sched.semaphores diskDone = s.lock.sched.semaphores diskDone)
    (resume : InDiskDone (s'.lock.sched.tasks t).resume ↔
      InDiskDone (s.lock.sched.tasks t).resume) : At s' j t img p := by
  have calm (c : Calm s) : Calm s' :=
    ⟨expecting.trans c.expecting, sema.trans c.sema, by rw [controller]; exact c.intrq⟩
  have expects {waiters : List Addr} (e : Expects s waiters) : Expects s' waiters :=
    ⟨expecting.trans e.expecting, sema.trans e.sema⟩
  have signal {waiters : List Addr} (g : Signal s j img waiters) : Signal s' j img waiters := by
    cases g with
    | coming e c => exact .coming (expects e) (by rw [controller]; exact c)
    | come e m f q =>
      exact .come (expecting.trans e) (sema.trans m) (by rw [controller]; exact f)
        (by rw [controller]; exact q)
  have takes {ready : Bool} (k : Takes s j img ready) : Takes s' j img ready :=
    ⟨expects k.expects, by rw [controller]; exact k.intrq, by rw [controller]; exact k.image,
      by rw [controller]; exact k.state⟩
  cases p with
  | out => trivial
  | acquire => trivial
  | release => trivial
  | selectDisk => exact ⟨calm h.1, by rw [controller]; exact h.2⟩
  | loop => exact ⟨calm h.1, by rw [controller]; exact h.2⟩
  | expect => exact ⟨h.1, calm h.2.1, by rw [controller]; exact h.2.2⟩
  | command => exact ⟨h.1, expects h.2.1, by rw [controller]; exact h.2.2⟩
  | sleep => exact ⟨h.1, signal h.2⟩
  | asleep =>
    refine ⟨h.1, h.2.imp ?_ ?_⟩
    · rintro ⟨hr, g⟩
      exact ⟨resume.mpr hr, signal g⟩
    · rintro ⟨hr, c, f⟩
      exact ⟨mt resume.mp hr, calm c, by rw [controller]; exact f⟩
  | busyWait n =>
    obtain ⟨more, k⟩ := h
    refine ⟨more, ?_⟩
    rw [controller]
    split
    next hw => exact takes (by rwa [if_pos hw] at k)
    next hw =>
      rw [if_neg hw] at k
      exact ⟨k.1, calm k.2.1, k.2.2⟩
  | move moved =>
    obtain ⟨more, hmoved, k⟩ := h
    refine ⟨more, hmoved, ?_⟩
    rw [controller]
    split
    next hw => exact takes (by rwa [if_pos hw] at k)
    next hw =>
      rw [if_neg hw] at k
      exact ⟨calm k.1, k.2⟩

/-! ## The controller -/

/-- A round is of the one sector. -/
theorem Job.Begun.secsOp (begun : j.Begun img) (more : j.secsDone < j.secCnt) : j.secsOp = 1 := by
  obtain ⟨pos, -, within⟩ := secsOp_bounds more
  have one := begun.one
  have spell : j.secsOp = Device.secsOp j.secCnt j.secsDone := rfl
  omega

/-- The registers that `select_sector` writes. -/
theorem selectSector_names (begun : j.Begun img) (more : j.secsDone < j.secCnt) {r : Registers}
    (h : selectSector j.hd (j.lba + j.secsDone) (BitVec.ofNat 8 j.secsOp) = .ok r) :
    j.Names r.sectors := by
  have hlba : j.lba + j.secsDone < maxLba := by
    unfold selectSector at h
    obtain ⟨_, hassert, -⟩ := bind_eq_ok.mp h
    exact assertThat_ok hassert
  obtain ⟨_, h', hcnt, haddress, hdrive, -⟩ := address_registers j.hd hlba (BitVec.ofNat 8 j.secsOp)
  cases h'.symm.trans h
  refine ⟨haddress, ?_, hdrive⟩
  show r.count = 1
  unfold Registers.count
  rw [hcnt, begun.secsOp more]
  rfl

theorem work_idle (h : c.state = .idle) : c.work = c := by
  unfold Controller.work
  rw [h]

theorem work_reading (h : c.state = .reading secs) :
    c.work = { c with state := .full (c.image secs.drive secs.lba) secs, intrq := true } := by
  unfold Controller.work
  rw [h]

theorem work_full {sector : α} (h : c.state = .full sector secs) : c.work = c := by
  unfold Controller.work
  rw [h]

theorem work_preparing (h : c.state = .preparing secs) :
    c.work = { c with state := .empty secs } := by
  unfold Controller.work
  rw [h]

theorem work_empty (h : c.state = .empty secs) : c.work = c := by
  unfold Controller.work
  rw [h]

/-- The last sector of a command is written. -/
theorem work_writing {sector : α} (h : c.state = .writing sector secs) (last : secs.count = 1) :
    c.work =
      { c with state := .idle, intrq := true,
               image := stored c.image secs.drive secs.lba [sector] } := by
  unfold Controller.work
  rw [h]
  dsimp only
  rw [if_pos (Nat.le_of_eq last)]

/-- The controller finishes the command, and raises its interrupt. -/
theorem Job.Working.work (h : j.Working img c) : j.Finished img c.work ∧ c.work.intrq = true := by
  obtain ⟨secs, names, hstate, himage⟩ := h
  unfold Job.Finished
  unfold Job.sofar at himage ⊢
  cases hw : j.write with
  | false =>
    rw [hw, if_neg (by decide)] at hstate himage
    rw [work_reading hstate, if_neg (by decide)]
    refine ⟨⟨secs, names, ?_, himage⟩, rfl⟩
    rw [if_neg (by decide), himage, names.drive, names.lba]
  | true =>
    rw [hw, if_pos rfl] at hstate himage
    rw [work_writing hstate names.count, if_pos rfl]
    refine ⟨⟨secs, names, rfl, ?_⟩, rfl⟩
    rw [himage, names.drive, names.lba]
    exact stored_data

theorem Job.Finished.work (h : j.Finished img c) : c.work = c := by
  obtain ⟨secs, -, hstate, -⟩ := h
  cases hw : j.write with
  | false =>
    rw [hw, if_neg (by decide)] at hstate
    exact work_full hstate
  | true =>
    rw [hw, if_pos rfl] at hstate
    exact work_idle hstate

/-! ## Steps of the thread at work -/

@[simp] theorem channel_goTo_cur (p : ChannelPoint) : (s.goTo p).point s.cur = p :=
  Function.update_self ..

theorem channel_goTo_ne (p : ChannelPoint) {t : Addr} (ht : t ≠ s.cur) :
    (s.goTo p).point t = s.point t := Function.update_of_ne ht ..

theorem channel_goTo_stage (p : ChannelPoint) :
    (fun t => ((s.goTo p).point t).stage) =
      Function.update (fun t => (s.point t).stage) s.lock.sched.cur p.stage := by
  funext t
  show (Function.update s.point s.lock.sched.cur p t).stage = _
  rw [Function.apply_update fun _ (q : ChannelPoint) => q.stage]

theorem not_inDiskDone {r : Resume} (h : r = .run) : ¬ InDiskDone r := by
  rw [h]
  exact id

/-- The thread at work is somewhere else then, and so it is with what is around it; nobody comes in
and nobody leaves. -/
theorem Driven.step (h : Driven image s) {w : Addr} (hin : (s.point w).stage = .inside)
    (sectioned : ∃ owner, Sectioned s'.lock owner fun t => (s'.point t).stage)
    (stages : ∀ t, (s'.point t).stage = (s.point t).stage)
    (sleepers : ∀ t, InDiskDone (s'.lock.sched.tasks t).resume → s'.point t = .asleep)
    (jobs : ∀ t, t ≠ w → s'.job t = s.job t) (acquires : ∀ t, s'.point t = .acquire →
      s.point t = .acquire) (history : s'.history = s.history) (works : ∀ before, Works s w before →
      Works s' w before) : Driven image s' := by
  obtain ⟨before, serial, working, -⟩ := h.turn
  refine ⟨sectioned, sleepers, fun t ht => ?_, before, history ▸ serial, fun t ht => ?_,
    fun none => ?_⟩
  · have hacq := acquires t ht
    have hne : t ≠ w := by
      rintro rfl
      rw [hacq] at hin
      cases hin
    rw [jobs t hne]
    exact h.fresh t hacq
  · obtain ⟨_, sectioned⟩ := sectioned
    rw [sectioned.alone ht ((stages w).trans hin)]
    exact works before (working w hin)
  · exact absurd ((stages w).trans hin) (none w)

/-- A statement of the thread at work, which has the processor and keeps it. -/
theorem Driven.statement (h : Driven image s) (hrun : (s.lock.sched.tasks s.cur).resume = .run)
    (hin : (s.point s.cur).stage = .inside) {p : ChannelPoint} (hp : p.stage = .inside)
    (lock : s'.lock = s.lock) (point : s'.point = (s.goTo p).point)
    (jobs : ∀ t, t ≠ s.cur → s'.job t = s.job t) (history : s'.history = s.history)
    (works : ∀ before, (s.job s.cur).Begun before →
      At s (s.job s.cur) s.cur before (s.point s.cur) → (s'.job s.cur).Begun before ∧
      At s' (s'.job s.cur) s.cur before p) : Driven image s' := by
  obtain ⟨owner, sectioned⟩ := h.sectioned
  have stages (t : Addr) : (s'.point t).stage = (s.point t).stage := by
    rw [point]
    refine (congrFun (channel_goTo_stage p) t).trans ?_
    rw [hp, ← hin]
    exact congrFun (Function.update_eq_self _ _) t
  refine h.step hin ⟨owner, ?_⟩ stages (fun t ht => ?_) jobs (fun t ht => ?_) history
    fun before w => ?_
  · rw [lock, funext stages]
    exact sectioned
  · rw [lock] at ht
    have hne : t ≠ s.cur := by
      rintro rfl
      exact not_inDiskDone hrun ht
    rw [point, channel_goTo_ne p hne]
    exact h.sleepers t ht
  · rw [point] at ht
    by_cases e : t = s.cur
    · rw [e, channel_goTo_cur] at ht
      rw [ht] at hp
      cases hp
    · rwa [channel_goTo_ne p e] at ht
  · obtain ⟨begun, place⟩ := works before w.begun w.place
    refine ⟨begun, ?_⟩
    rw [point, channel_goTo_cur]
    exact place

/-- Somebody who was not at work goes on, and is not at work. -/
theorem Driven.aside (h : Driven image s) (hrun : (s.lock.sched.tasks s.cur).resume = .run)
    (hcur : (s.point s.cur).stage ≠ .inside) {p : ChannelPoint} (hp : p.stage ≠ .inside)
    (sched : s'.lock.sched = s.lock.sched) (point : s'.point = (s.goTo p).point)
    (sectioned : ∃ owner, Sectioned s'.lock owner fun t => (s'.point t).stage)
    (jobs : ∀ t, t ≠ s.cur → s'.job t = s.job t)
    (fresh : p = .acquire → (s'.job s.cur).secCnt = 1 ∧ (s'.job s.cur).secsDone = 0 ∧
      (s'.job s.cur).got = []) (history : s'.history = s.history)
    (controller : s'.controller = s.controller) (expecting : s'.expectingIntr = s.expectingIntr) :
    Driven image s' := by
  obtain ⟨before, serial, working, rests⟩ := h.turn
  have calm (c : Calm s) : Calm s' :=
    ⟨expecting.trans c.expecting, by rw [sched]; exact c.sema, by rw [controller]; exact c.intrq⟩
  have other {t : Addr} (ht : (s'.point t).stage = .inside) : t ≠ s.cur := by
    rintro rfl
    rw [point, channel_goTo_cur] at ht
    exact hp ht
  refine ⟨sectioned, fun t ht => ?_, fun t ht => ?_, before, history ▸ serial, fun t ht => ?_,
    fun none => ?_⟩
  · rw [sched] at ht
    have hne : t ≠ s.cur := by
      rintro rfl
      exact not_inDiskDone hrun ht
    rw [point, channel_goTo_ne p hne]
    exact h.sleepers t ht
  · by_cases e : t = s.cur
    · rw [e, point, channel_goTo_cur] at ht
      rw [e]
      exact fresh ht
    · rw [jobs t e]
      rw [point, channel_goTo_ne p e] at ht
      exact h.fresh t ht
  · have hne := other ht
    rw [point, channel_goTo_ne p hne] at ht
    obtain ⟨begun, place⟩ := working t ht
    refine ⟨by rw [jobs t hne]; exact begun, ?_⟩
    rw [jobs t hne, point, channel_goTo_ne p hne]
    exact At.congr place controller expecting (by rw [sched]) (by rw [sched])
  · obtain ⟨c, state, img⟩ := rests fun t ht => by
      have hne : t ≠ s.cur := fun e => hcur (e ▸ ht)
      refine none t ?_
      rw [point, channel_goTo_ne p hne]
      exact ht
    exact ⟨calm c, by rw [controller]; exact state, by rw [controller]; exact img⟩

/-- The command is given to a controller that has nothing to do. -/
theorem command_starts (hstate : c.state = .idle) :
    (c.command j.cmd).state =
      (if j.write then .preparing c.regs.sectors else .reading c.regs.sectors) ∧
      (c.command j.cmd).intrq = false ∧
      (c.command j.cmd).image = c.image := by
  unfold Controller.command Transfer.cmd
  rw [hstate]
  cases j.write
  · exact ⟨rfl, rfl, rfl⟩
  · exact ⟨rfl, rfl, rfl⟩

/-- `sema_down` on `disk_done`, at its beginning or at the top of its loop: the thread goes to
sleep, or takes the value that the interrupt left. -/
theorem Driven.semaDown (h : Driven image s) (hp : s.point s.cur = .sleep ∨ s.point s.cur = .asleep)
    (hsleep : s.point s.cur = .asleep → InDiskDone (s.lock.sched.tasks s.cur).resume)
    (hother : NoOther (s.lock.sched.tasks s.cur).resume ∨
      InDiskDone (s.lock.sched.tasks s.cur).resume) (old : Bool) :
    ∃ sched, semaDownLoop s.lock.sched diskDone old = .ok sched ∧
      Driven image { s.goTo .asleep with lock := { s.lock with sched } } := by
  obtain ⟨owner, sectioned⟩ := h.sectioned
  have hin : (s.point s.cur).stage = .inside := by rcases hp with e | e <;> rw [e] <;> rfl
  have hidle : s.lock.sched.cur ≠ s.lock.sched.idleThread := by
    refine sectioned.held.not_idle (.inr ?_)
    have fits := sectioned.fits s.lock.sched.cur
    rw [show (s.point s.lock.sched.cur).stage = .inside from hin] at fits
    rw [fits.2]
    exact Nat.one_ne_zero
  have hnot : s.cur ∉ (s.lock.sched.semaphores diskDone).waiters :=
    sectioned.held.queues.cur_unqueued.waiters diskDone
  have queued {waiters : List Addr} : Expects s waiters → s.cur ∉ waiters := fun e => by
    rw [e.sema] at hnot
    exact hnot
  -- where the thread is, and what it is waiting for
  have signal (before : Image α) (place : At s (s.job s.cur) s.cur before (s.point s.cur)) :
      (s.job s.cur).secsDone < (s.job s.cur).secCnt ∧ Signal s (s.job s.cur) before [] := by
    rcases hp with e | e <;> rw [e] at place
    · exact place
    · refine ⟨place.1, ?_⟩
      rcases place.2 with ⟨-, g⟩ | ⟨hno, -⟩
      · cases g with
        | coming e _ => exact absurd (List.mem_singleton_self _) (queued e)
        | come e m f q => exact .come e m f q
      · exact absurd (hsleep e) hno
  have small : (s.lock.sched.semaphores diskDone).value ≤ 1 := by
    obtain ⟨before, -, working, -⟩ := h.turn
    cases (signal before (working _ hin).place).2 with
    | coming e _ => rw [e.sema]; exact Nat.zero_le 1
    | come _ m => rw [m]
  obtain ⟨sched, hs, queues, tree, others, hzero, way⟩ :=
    sectioned.held.queues.semaDownLoop hidle diskDone old small
  have lockSame (t : Addr) : InSemaDown (sched.tasks t).resume ↔
      InSemaDown (s.lock.sched.tasks t).resume := by
    by_cases e : t = s.lock.sched.cur
    · rw [e]
      refine iff_of_false ?_ ?_
      · rcases way with ⟨-, -, hr⟩ | ⟨-, -, hr⟩ <;> rw [hr]
        · exact fun e => (by cases e)
        · exact id
      · rcases hother with no | yes
        · intro hl
          have := sectioned.held.waits _ hl
          have fits := sectioned.fits s.lock.sched.cur
          rw [show (s.point s.lock.sched.cur).stage = .inside from hin] at fits
          rw [fits.1] at this
          cases this
        · intro hl
          revert yes hl
          unfold InDiskDone InSemaDown Channel.cur
          cases (s.lock.sched.tasks s.lock.sched.cur).resume <;> try exact fun _ => id
          rintro rfl e
          cases e
    · rw [others t e]
  have stages (t : Addr) : ((s.goTo .asleep).point t).stage = (s.point t).stage := by
    refine (congrFun (channel_goTo_stage .asleep) t).trans ?_
    rw [show ChannelPoint.asleep.stage = .inside from rfl, ← hin]
    exact congrFun (Function.update_eq_self _ _) t
  refine ⟨sched, hs, h.step hin ⟨owner, ?_⟩ stages (fun t ht => ?_) (fun _ _ => rfl)
    (fun t ht => ?_) rfl fun before w => ?_⟩
  · show Sectioned { s.lock with sched } owner fun t => ((s.goTo .asleep).point t).stage
    rw [funext stages]
    exact sectioned.apart queues tree (semaDownLoop_others hs (by decide)) lockSame
  · show (s.goTo .asleep).point t = .asleep
    by_cases e : t = s.cur
    · rw [e, channel_goTo_cur]
    · rw [channel_goTo_ne _ e]
      refine h.sleepers t ?_
      rw [← others t e]
      exact ht
  · change (s.goTo .asleep).point t = .acquire at ht
    by_cases e : t = s.cur
    · rw [e, channel_goTo_cur] at ht
      cases ht
    · rwa [channel_goTo_ne _ e] at ht
  · obtain ⟨more, g⟩ := signal before w.place
    refine ⟨w.begun, ?_⟩
    show At _ (s.job s.cur) s.cur before ((s.goTo .asleep).point s.cur)
    rw [channel_goTo_cur]
    refine ⟨more, ?_⟩
    show InDiskDone (sched.tasks s.cur).resume ∧ _ ∨ ¬ InDiskDone (sched.tasks s.cur).resume ∧ _
    have sema (v : Semaphore) (hv : v.value = 0)
        (hw : (sched.semaphores diskDone).waiters = v.waiters) :
        sched.semaphores diskDone = v := by
      cases v
      cases hx : sched.semaphores diskDone
      rw [hx] at hzero hw
      cases hzero
      cases hw
      cases hv
      rfl
    rcases way with ⟨h0, hwait, hr⟩ | ⟨h1, hwait, hr⟩
    · -- the value is 0: the interrupt is yet to come
      cases g with
      | come _ m => rw [m] at h0; cases h0
      | coming e k =>
        refine .inl ⟨?_, .coming ⟨e.expecting, sema ⟨0, [s.cur]⟩ rfl ?_⟩ k⟩
        · rw [show (sched.tasks s.cur).resume = _ from hr]
          exact rfl
        · rw [hwait, e.sema]
          rfl
    · cases g with
      | coming e _ => rw [e.sema] at h1; cases h1
      | come e m f q =>
        refine .inr ⟨not_inDiskDone hr, ⟨e, sema ⟨0, []⟩ rfl ?_, q⟩, f⟩
        rw [hwait, m]

/-- The faults of the thread at work: an assertion on the parameters, or a write for which the
controller is not ready in time. -/
def Gives (f : Fault) : Prop :=
  f = .assert "select_sector" "lba < max_lba" ∨ ∃ msg, f = .panic "ide_write" msg

theorem selectSector_error {hd : Disk} {secCnt : Byte} {f : Fault}
    (h : selectSector hd lba secCnt = .error f) :
    f = .assert "select_sector" "lba < max_lba" := by
  unfold selectSector assertThat at h
  split at h
  · cases h
  · cases h
    rfl

/-! ## The statements of `ide_read` and `ide_write` -/

/-- A write gives the controller a sector. -/
theorem outsw_empty {sector : α} (hstate : c.state = .empty secs) :
    c.outsw sector = { c with state := .writing sector secs } := by
  unfold Controller.outsw
  rw [hstate]

/-- A read gets the last sector of a command, and the controller has nothing to do. -/
theorem insw_full {sector : α} (hstate : c.state = .full sector secs) (last : secs.count = 1) :
    c.insw = (some sector, { c with state := .idle }) := by
  unfold Controller.insw
  rw [hstate]
  dsimp only
  rw [if_pos (Nat.le_of_eq last)]

/-- The one sector that is moved is the last of its round. -/
theorem Driven.moves (h : Driven image s) (hp : ∃ moved, s.point s.cur = .move moved) :
    s.point s.cur = .move 0 ∧
    decide (0 + 1 < sizeInBytes (BitVec.ofNat 8 s.curJob.secsOp) / 512) = false := by
  obtain ⟨moved, hp⟩ := hp
  obtain ⟨before, -, working, -⟩ := h.turn
  obtain ⟨begun, place⟩ := working s.cur (by rw [hp]; rfl)
  rw [hp] at place
  refine ⟨by rw [hp, place.2.1], ?_⟩
  rw [show s.curJob = s.job s.cur from rfl, begun.secsOp place.1]
  rfl

section Statements

variable (h : Driven image s) (hrun : (s.lock.sched.tasks s.cur).resume = .run)

include h hrun

/-- The lock is acquired: nobody else is at work. -/
theorem Driven.acquired (hfree : s.lock.point s.cur = .out) (hp : s.point s.cur = .acquire) :
    Driven image (s.goTo .selectDisk) := by
  obtain ⟨owner, sectioned⟩ := h.sectioned
  have entered := sectioned.enter (by show (s.point s.cur).stage = _; rw [hp]; rfl) hfree
  obtain ⟨before, serial, -, rests⟩ := h.turn
  obtain ⟨hone, hdone, hgot⟩ := h.fresh _ hp
  have stages := channel_goTo_stage (s := s) .selectDisk
  rw [show ChannelPoint.selectDisk.stage = .inside from rfl] at stages
  rw [← stages] at entered
  have self : ((s.goTo .selectDisk).point s.cur).stage = .inside := by rw [channel_goTo_cur]; rfl
  have none (t : Addr) : (s.point t).stage ≠ .inside := fun ht => by
    have hne : t ≠ s.cur := fun e => by rw [e, hp] at ht; cases ht
    refine hne (entered.alone ?_ self)
    show ((s.goTo .selectDisk).point t).stage = .inside
    rw [channel_goTo_ne _ hne]
    exact ht
  obtain ⟨calm, state, himage⟩ := rests none
  refine ⟨⟨owner, entered⟩, fun t ht => ?_, fun t ht => ?_, before, serial, fun t ht => ?_,
    fun no => absurd self (no s.cur)⟩
  · have hne : t ≠ s.cur := fun e => not_inDiskDone hrun (e ▸ ht)
    rw [channel_goTo_ne _ hne]
    exact h.sleepers t ht
  · by_cases e : t = s.cur
    · rw [e, channel_goTo_cur] at ht
      cases ht
    · rw [channel_goTo_ne _ e] at ht
      exact h.fresh t ht
  · rw [entered.alone ht self]
    refine ⟨⟨hone, ?_, ?_⟩, ?_⟩
    · show (s.job s.cur).secsDone ≤ _
      rw [hdone]
      exact Nat.zero_le _
    · show (s.job s.cur).got = if _ then [] else loaded before _ _ (s.job s.cur).secsDone
      rw [hgot, hdone]
      split <;> rfl
    · rw [channel_goTo_cur]
      refine ⟨⟨calm.expecting, calm.sema, calm.intrq⟩, state, ?_⟩
      show s.controller.image = (s.job s.cur).sofar (s.job s.cur).secsDone before
      rw [himage, hdone]
      unfold Job.sofar
      split
      · exact stored_nil.symm
      · rfl

/-- The call is over, and joins the history. -/
theorem Driven.finished (hp : s.point s.cur = .loop)
    (more : ¬ s.curJob.secsDone < s.curJob.secCnt) :
    ∃ lock, s.lock.lockRelease = .ok lock ∧
      Driven image { s.goTo .release with
        lock, history := s.history ++ [(s.curJob.toTransfer, s.curJob.got)] } := by
  obtain ⟨owner, sectioned⟩ := h.sectioned
  have hin : (s.point s.cur).stage = .inside := by rw [hp]; rfl
  obtain ⟨lock, hl, hsched, released⟩ := sectioned.release hrun hin
  obtain ⟨before, serial, working, -⟩ := h.turn
  obtain ⟨⟨-, hle, hgot⟩, place⟩ := working _ hin
  rw [hp] at place
  obtain ⟨calm, state, himage⟩ := place
  have all : (s.job s.cur).secsDone = (s.job s.cur).secCnt := by
    have : ¬ (s.job s.cur).secsDone < (s.job s.cur).secCnt := more
    omega
  have none (t : Addr) : ((s.goTo .release).point t).stage ≠ .inside := fun ht => by
    by_cases e : t = s.cur
    · rw [e, channel_goTo_cur] at ht
      cases ht
    · rw [channel_goTo_ne _ e] at ht
      exact e (sectioned.alone ht hin)
  refine ⟨lock, hl, ⟨owner, ?_⟩, fun t ht => ?_, fun t ht => ?_, s.controller.image, ?_,
    fun t ht => absurd ht (none t), fun _ => ?_⟩
  · show Sectioned lock owner fun t => ((s.goTo .release).point t).stage
    rw [channel_goTo_stage]
    exact released
  · change InDiskDone (lock.sched.tasks t).resume at ht
    rw [hsched] at ht
    have hne : t ≠ s.cur := fun e => not_inDiskDone hrun (e ▸ ht)
    show (s.goTo .release).point t = _
    rw [channel_goTo_ne _ hne]
    exact h.sleepers t ht
  · change (s.goTo .release).point t = .acquire at ht
    by_cases e : t = s.cur
    · rw [e, channel_goTo_cur] at ht
      cases ht
    · rw [channel_goTo_ne _ e] at ht
      exact h.fresh t ht
  · refine serial.next_of ?_ ?_
    · show (Transfer.perform (s.job s.cur).toTransfer before).2 = (s.job s.cur).got
      rw [hgot, all]
      unfold Transfer.perform
      split <;> rfl
    · show (Transfer.perform (s.job s.cur).toTransfer before).1 = s.controller.image
      rw [himage, all]
      unfold Transfer.perform Job.sofar
      split <;> rfl
  · refine ⟨⟨calm.expecting, ?_, calm.intrq⟩, state, rfl⟩
    show lock.sched.semaphores diskDone = _
    rw [hsched]
    exact calm.sema

/-- A round begins. -/
theorem Driven.looped (hp : s.point s.cur = .loop) : Ensures Gives (Driven image) s.go := by
  unfold Channel.go
  dsimp only
  rw [hp]
  dsimp only
  split
  next more =>
    cases hregs : selectSector s.curJob.hd (s.curJob.lba + s.curJob.secsDone)
      (BitVec.ofNat 8 s.curJob.secsOp) with
    | error f => exact .inl (selectSector_error hregs)
    | ok regs =>
      refine h.statement hrun (by rw [hp]; rfl) (p := .expect) rfl rfl rfl (fun _ _ => rfl) rfl
        fun before begun place => ?_
      rw [hp] at place
      exact ⟨begun, more, ⟨place.1.expecting, place.1.sema, place.1.intrq⟩, place.2.1, place.2.2,
        selectSector_names begun more hregs⟩
  next more =>
    obtain ⟨lock, hl, driven⟩ := h.finished hrun hp more
    rw [hl]
    exact driven

/-- The command is given. -/
theorem Driven.commanded (hp : s.point s.cur = .command) : Ensures Gives (Driven image) s.go := by
  unfold Channel.go
  dsimp only
  rw [hp]
  have inside : (if s.curJob.write then ChannelPoint.busyWait (30 * 1000) else .sleep).stage =
      .inside := by split <;> rfl
  refine h.statement hrun (by rw [hp]; rfl) inside rfl rfl (fun _ _ => rfl) rfl
    fun before begun place => ?_
  rw [hp] at place
  obtain ⟨more, expects, -, state, himage, names⟩ := place
  obtain ⟨starts, quiet, same⟩ := command_starts (j := s.job s.cur) state
  refine ⟨begun, ?_⟩
  show At _ (s.job s.cur) s.cur before (if (s.job s.cur).write then _ else _)
  cases hw : (s.job s.cur).write with
  | true =>
    rw [hw, if_pos rfl] at starts
    refine ⟨more, ?_⟩
    rw [hw, if_pos rfl]
    exact ⟨⟨expects.expecting, expects.sema⟩, quiet, same.trans himage, _, names,
      .inr ⟨rfl, starts⟩⟩
  | false =>
    rw [hw, if_neg (by decide)] at starts
    refine ⟨more, .coming ⟨expects.expecting, expects.sema⟩
      (.inl ⟨⟨_, names, ?_, same.trans himage⟩, quiet⟩)⟩
    show (s.controller.command (s.job s.cur).cmd).state = if (s.job s.cur).write then _ else _
    rw [hw, if_neg (by decide)]
    exact starts

/-- The command is carried out: a write has finished its round. -/
theorem Driven.woken (hp : s.point s.cur = .asleep) : Ensures Gives (Driven image) s.go := by
  have awake : ¬ InDiskDone (s.lock.sched.tasks s.cur).resume := not_inDiskDone hrun
  have place' (before : Image α) (place : At s (s.job s.cur) s.cur before (s.point s.cur)) :
      (s.job s.cur).secsDone < (s.job s.cur).secCnt ∧ Calm s ∧
        (s.job s.cur).Finished before s.controller := by
    rw [hp] at place
    exact ⟨place.1, (place.2.resolve_left fun e => awake e.1).2⟩
  unfold Channel.go
  dsimp only
  rw [hp]
  dsimp only
  split
  next hw =>
    have hw : (s.job s.cur).write = true := hw
    refine h.statement hrun (by rw [hp]; rfl) (p := .loop) rfl rfl rfl
      (fun t ht => Function.update_of_ne ht _ _) rfl
      fun before begun place => ?_
    obtain ⟨more, calm, secs, -, state, himage⟩ := place' before place
    rw [hw, if_pos rfl] at state
    rw [← begun.secsOp more] at himage
    have job :
        ((s.goTo .loop).setJob
          { s.curJob with secsDone := s.curJob.secsDone + s.curJob.secsOp }).job s.cur =
        { s.job s.cur with secsDone := (s.job s.cur).secsDone + (s.job s.cur).secsOp } :=
          Function.update_self ..
    rw [job]
    refine ⟨⟨begun.one, (secsOp_bounds more).2.2, ?_⟩, ⟨calm.expecting, calm.sema, calm.intrq⟩,
      state, himage⟩
    have got := begun.got
    rw [hw, if_pos rfl] at got
    dsimp only
    rw [hw, if_pos rfl]
    exact got
  next hw =>
    have hw : ¬ (s.job s.cur).write = true := hw
    refine h.statement hrun (by rw [hp]; rfl) (p := .busyWait (30 * 1000)) rfl rfl rfl
      (fun _ _ => rfl) rfl fun before begun place => ?_
    obtain ⟨more, calm, finished⟩ := place' before place
    refine ⟨begun, more, ?_⟩
    show if (s.job s.cur).write then _ else _
    rw [if_neg hw]
    exact ⟨rfl, ⟨calm.expecting, calm.sema, calm.intrq⟩, finished⟩

/-- A read has its data already. -/
theorem Driven.busyWaited_read {n : Nat} (hp : s.point s.cur = .busyWait n)
    (hw : (s.job s.cur).write = false) : Ensures Gives (Driven image) s.go := by
  have hin : (s.point s.cur).stage = .inside := by rw [hp]; rfl
  have ready (before : Image α) (place : At s (s.job s.cur) s.cur before (s.point s.cur)) :
      (s.job s.cur).secsDone < (s.job s.cur).secCnt ∧ n = 30 * 1000 ∧ Calm s ∧
        (s.job s.cur).Finished before s.controller := by
    rw [hp] at place
    obtain ⟨more, place⟩ := place
    rw [hw, if_neg (by decide)] at place
    exact ⟨more, place⟩
  obtain ⟨before₀, -, working, -⟩ := h.turn
  obtain ⟨-, hn, -, secs, -, hstate, -⟩ := ready before₀ (working _ hin).place
  rw [hw, if_neg (by decide)] at hstate
  have free : s.controller.bsy = false ∧ s.controller.drq = true := by
    unfold Controller.bsy Controller.drq
    rw [hstate]
    exact ⟨rfl, rfl⟩
  unfold Channel.go
  dsimp only
  rw [hp]
  dsimp only
  rw [if_neg (by omega), if_neg (by rw [free.1]; decide), if_pos free.2]
  refine h.statement hrun hin (p := .move 0) rfl rfl rfl (fun _ _ => rfl) rfl
    fun before begun place => ?_
  obtain ⟨more, -, calm, finished⟩ := ready before place
  refine ⟨begun, more, rfl, ?_⟩
  show if (s.job s.cur).write then _ else _
  rw [hw, if_neg (by decide)]
  exact ⟨⟨calm.expecting, calm.sema, rfl⟩, finished⟩

/-- A write waits for the controller. -/
theorem Driven.busyWaited_write {n : Nat} (hp : s.point s.cur = .busyWait n)
    (hw : (s.job s.cur).write = true) : Ensures Gives (Driven image) s.go := by
  have hin : (s.point s.cur).stage = .inside := by rw [hp]; rfl
  have func : s.curJob.func = "ide_write" := if_pos hw
  have taking (before : Image α) (place : At s (s.job s.cur) s.cur before (s.point s.cur)) :
      (s.job s.cur).secsDone < (s.job s.cur).secCnt ∧ Takes s (s.job s.cur) before false := by
    rw [hp] at place
    obtain ⟨more, place⟩ := place
    rw [hw, if_pos rfl] at place
    exact ⟨more, place⟩
  unfold Channel.go
  dsimp only
  rw [hp]
  dsimp only
  split
  · exact .inr ⟨_, by rw [func]⟩
  · split
    · -- it gets ready: the thread looks again
      refine h.statement hrun hin (p := .busyWait (n - 1)) rfl rfl rfl (fun _ _ => rfl) rfl
        fun before begun place => ?_
      obtain ⟨more, k⟩ := taking before place
      refine ⟨begun, more, ?_⟩
      show if (s.job s.cur).write then _ else _
      rw [hw, if_pos rfl]
      exact ⟨⟨k.expects.expecting, k.expects.sema⟩, rfl, k.image, k.state⟩
    next hbsy =>
      split
      · refine h.statement hrun hin (p := .move 0) rfl rfl rfl (fun _ _ => rfl) rfl
          fun before begun place => ?_
        obtain ⟨more, k⟩ := taking before place
        obtain ⟨r, names, hstate⟩ := k.state
        refine ⟨begun, more, rfl, ?_⟩
        show if (s.job s.cur).write then _ else _
        rw [hw, if_pos rfl]
        refine ⟨⟨k.expects.expecting, k.expects.sema⟩, rfl, k.image, r, names,
          .inl (hstate.resolve_right ?_)⟩
        rintro ⟨-, e⟩
        refine hbsy ?_
        unfold Controller.bsy
        rw [e]
      · exact .inr ⟨_, by rw [func]⟩

/-- The data of a write goes to the controller. -/
theorem Driven.moved_write (hp : ∃ moved, s.point s.cur = .move moved)
    (hw : (s.job s.cur).write = true) : Ensures Gives (Driven image) s.go := by
  obtain ⟨hp, last⟩ := h.moves hp
  have hin : (s.point s.cur).stage = .inside := by rw [hp]; rfl
  unfold Channel.go
  dsimp only
  rw [hp]
  dsimp only
  rw [if_pos (show s.curJob.write = true from hw), last]
  refine h.statement hrun hin (p := .sleep) rfl rfl rfl (fun _ _ => rfl) rfl
    fun before begun place => ?_
  rw [hp] at place
  obtain ⟨more, -, place⟩ := place
  rw [hw, if_pos rfl] at place
  obtain ⟨secs, names, hstate⟩ := place.state
  have hstate := hstate.resolve_right fun e => (by cases e.1)
  refine ⟨begun, more, .coming ⟨place.expects.expecting, place.expects.sema⟩ (.inl ?_)⟩
  show (s.job s.cur).Working before (s.controller.outsw _) ∧ (s.controller.outsw _).intrq = false
  rw [outsw_empty hstate]
  refine ⟨⟨secs, names, ?_, place.image⟩, place.intrq⟩
  rw [hw, if_pos rfl]
  rfl

/-- The data of a read comes from the controller, and the round is finished. -/
theorem Driven.moved_read (hp : ∃ moved, s.point s.cur = .move moved)
    (hw : (s.job s.cur).write = false) : Ensures Gives (Driven image) s.go := by
  obtain ⟨hp, last⟩ := h.moves hp
  have hin : (s.point s.cur).stage = .inside := by rw [hp]; rfl
  unfold Channel.go
  dsimp only
  rw [hp]
  dsimp only
  have hneg : ¬ s.curJob.write = true := by
    rw [show s.curJob.write = false from hw]
    decide
  rw [if_neg hneg, last]
  refine h.statement hrun hin (p := .loop) rfl rfl rfl
    (fun t ht => Function.update_of_ne ht _ _) rfl
    fun before begun place => ?_
  rw [hp] at place
  obtain ⟨more, -, place⟩ := place
  rw [hw, if_neg (by decide)] at place
  obtain ⟨calm, secs, names, hstate, himage⟩ := place
  rw [hw, if_neg (by decide)] at hstate
  rw [insw_full hstate names.count]
  have job (j' : Job α) : ((s.goTo .loop).setJob j').job s.cur = j' := Function.update_self ..
  show (((s.goTo .loop).setJob _).job s.cur).Begun before ∧
    At _ (((s.goTo .loop).setJob _).job s.cur) s.cur before .loop
  rw [job]
  have got := begun.got
  rw [hw, if_neg (by decide)] at got
  have op : (s.job s.cur).secsOp = 1 := begun.secsOp more
  rw [← op] at himage
  refine ⟨⟨begun.one, (secsOp_bounds more).2.2, ?_⟩,
    ⟨calm.expecting, calm.sema, calm.intrq⟩, rfl, himage⟩
  show (s.job s.cur).got ++ _ = if (s.job s.cur).write then []
    else loaded before _ _ ((s.job s.cur).secsDone + (s.job s.cur).secsOp)
  rw [hw, if_neg (by decide), got, op]
  exact loaded_succ

end Statements

/-- A STATEMENT of `ide_read` and `ide_write`. -/
theorem channelGo_keeps (h : Driven image s) (en : channelEnabled s .go) :
    Ensures Gives (Driven image) s.go := by
  obtain ⟨hrun, hout, hfree⟩ := en
  cases hp : s.point s.cur with
  | out => exact absurd hp hout
  | acquire =>
    unfold Channel.go
    rw [hp]
    exact h.acquired hrun hfree hp
  | selectDisk =>
    unfold Channel.go
    rw [hp]
    refine h.statement hrun (by rw [hp]; rfl) (p := .loop) rfl rfl rfl (fun _ _ => rfl) rfl
      fun before begun place => ?_
    rw [hp] at place
    exact ⟨begun, ⟨place.1.expecting, place.1.sema, place.1.intrq⟩, place.2⟩
  | loop => exact h.looped hrun hp
  | expect =>
    unfold Channel.go
    rw [hp]
    refine h.statement hrun (by rw [hp]; rfl) (p := .command) rfl rfl rfl (fun _ _ => rfl) rfl
      fun before begun place => ?_
    rw [hp] at place
    obtain ⟨more, calm, state, himage, names⟩ := place
    exact ⟨begun, more, ⟨rfl, calm.sema⟩, calm.intrq, state, himage, names⟩
  | command => exact h.commanded hrun hp
  | sleep =>
    unfold Channel.go Thread.semaDown
    rw [hp]
    obtain ⟨sched, hs, keeps⟩ :=
      h.semaDown (.inl hp) (by rw [hp]; exact fun e => (by cases e))
        (.inl (by rw [hrun]; exact fun _ _ _ => nofun))
      s.lock.sched.intr
    dsimp only
    rw [hs]
    exact keeps
  | asleep => exact h.woken hrun hp
  | busyWait n =>
    cases hw : (s.job s.cur).write with
    | false => exact h.busyWaited_read hrun hp hw
    | true => exact h.busyWaited_write hrun hp hw
  | move moved =>
    cases hw : (s.job s.cur).write with
    | false => exact h.moved_read hrun ⟨moved, hp⟩ hw
    | true => exact h.moved_write hrun ⟨moved, hp⟩ hw
  | release =>
    unfold Channel.go
    rw [hp]
    obtain ⟨owner, sectioned⟩ := h.sectioned
    have left := sectioned.leave (by show (s.point s.cur).stage = _; rw [hp]; rfl) hfree
    refine h.aside hrun (by rw [hp]; decide) (p := .out) (by decide) rfl rfl ⟨owner, ?_⟩
      (fun _ _ => rfl) nofun rfl rfl rfl
    rw [channel_goTo_stage]
    exact left

/-! ## The other steps -/

/-- The processor, the controller and the interrupt handler: no thread moves in `ide_read` and
`ide_write`. -/
theorem Driven.around (h : Driven image s)
    (lock : ∀ owner, Sectioned s.lock owner (fun t => (s.point t).stage) →
      ∃ owner', Sectioned s'.lock owner' fun t => (s.point t).stage)
    (resume : ∀ t, InDiskDone (s'.lock.sched.tasks t).resume ↔
      InDiskDone (s.lock.sched.tasks t).resume) (point : s'.point = s.point) (job : s'.job = s.job)
    (history : s'.history = s.history) (rest : ∀ before, Rests s before → Rests s' before)
    (works : ∀ before t, (s.point t).stage = .inside → At s (s.job t) t before (s.point t) →
      At s' (s.job t) t before (s.point t)) : Driven image s' := by
  obtain ⟨owner, sectioned⟩ := h.sectioned
  obtain ⟨before, serial, working, rests⟩ := h.turn
  refine ⟨?_, fun t ht => ?_, fun t ht => ?_, before, history ▸ serial, fun t ht => ?_,
    fun none => ?_⟩
  · rw [point]
    exact lock owner sectioned
  · rw [point]
    exact h.sleepers t ((resume t).mp ht)
  · rw [point] at ht
    rw [job]
    exact h.fresh t ht
  · rw [point] at ht
    have w := working t ht
    refine ⟨by rw [job]; exact w.begun, ?_⟩
    rw [job, point]
    exact works before t ht w.place
  · rw [point] at none
    exact rest before (rests none)

theorem semaUp_resumes {old : Sched} {k : Nat} (q : Queues old)
    (hvalue : (old.semaphores k).value = 0) :
    ∃ new, Thread.semaUp old k = .ok new ∧ Queues new ∧ SameTree old new ∧
      (∀ t, (new.tasks t).resume = (old.tasks t).resume) ∧
      new.semaphores k = ⟨1, (old.semaphores k).waiters.tail⟩ ∧ ∀ j, j ≠ k →
        new.semaphores j = old.semaphores j := by
  obtain ⟨new, hs, hq, htree, -, hresume, hone, hwaiters⟩ := q.semaUp k hvalue
  refine ⟨new, hs, hq, htree, hresume, ?_, fun j hj => semaUp_others hs hj⟩
  cases hx : new.semaphores k
  rw [hx] at hone hwaiters
  cases hone
  cases hwaiters
  rfl

/-- Where the interrupt finds the thread at work: its command is carried out, and it is to sleep, or
it sleeps. -/
theorem At.interrupted {t : Addr} {p : ChannelPoint} (place : At s j t img p)
    (hin : p.stage = .inside) (hintrq : s.controller.intrq = true) :
    j.secsDone < j.secCnt ∧ j.Finished img s.controller ∧
      (p = .sleep ∧ Expects s [] ∨ p = .asleep ∧ InDiskDone (s.lock.sched.tasks t).resume ∧
        Expects s [t]) := by
  have raised (quiet : s.controller.intrq = false) : False := by
    rw [hintrq] at quiet
    cases quiet
  have coming {waiters : List Addr} (g : Signal s j img waiters) : Expects s waiters ∧
      j.Finished img s.controller := by
    cases g with
    | coming e k => exact ⟨e, (k.resolve_left fun k => raised k.2).1⟩
    | come _ _ _ quiet => exact (raised quiet).elim
  cases p with
  | out => cases hin
  | acquire => cases hin
  | release => cases hin
  | selectDisk => exact (raised place.1.intrq).elim
  | loop => exact (raised place.1.intrq).elim
  | expect => exact (raised place.2.1.intrq).elim
  | command => exact (raised place.2.2.1).elim
  | sleep =>
    obtain ⟨e, f⟩ := coming place.2
    exact ⟨place.1, f, .inl ⟨rfl, e⟩⟩
  | asleep =>
    obtain ⟨hr, g⟩ := place.2.resolve_right fun c => raised c.2.1.intrq
    obtain ⟨e, f⟩ := coming g
    exact ⟨place.1, f, .inr ⟨rfl, hr, e⟩⟩
  | busyWait n =>
    have place := place.2
    split at place
    · exact (raised place.intrq).elim
    · exact (raised place.2.1.intrq).elim
  | move moved =>
    have place := place.2.2
    split at place
    · exact (raised place.intrq).elim
    · exact (raised place.1.intrq).elim

/-- THE INTERRUPT wakes the thread that expects it, or comes before the thread is asleep; then
`disk_done` keeps it. -/
theorem intrHdHandler_keeps (h : Driven image s) (en : channelEnabled s .intr) :
    Ensures (fun _ => False) (Driven image) s.intrHdHandler := by
  obtain ⟨-, -, hintrq⟩ := en
  have calm (c : Calm s) : False := by
    have quiet := c.intrq
    rw [hintrq] at quiet
    cases quiet
  -- it is only raised while somebody is at work
  obtain ⟨w, before, hin, works⟩ : ∃ w before, (s.point w).stage = .inside ∧ Works s w before := by
    obtain ⟨before, -, working, rests⟩ := h.turn
    by_contra no
    exact calm (rests fun t ht => no ⟨t, before, ht, working t ht⟩).calm
  obtain ⟨waiters, expects, short⟩ : ∃ waiters, Expects s waiters ∧ waiters.tail = [] := by
    obtain ⟨-, -, ⟨-, e⟩ | ⟨-, -, e⟩⟩ := works.place.interrupted hin hintrq
    · exact ⟨[], e, rfl⟩
    · exact ⟨[w], e, rfl⟩
  unfold Channel.intrHdHandler
  rw [if_pos expects.expecting]
  obtain ⟨owner, sectioned⟩ := h.sectioned
  obtain ⟨sched, hs, queues, tree, resume, hup, others⟩ :=
    semaUp_resumes sectioned.held.queues (show (s.lock.sched.semaphores diskDone).value =
      0 by rw [expects.sema])
  rw [expects.sema] at hup
  dsimp only at hup
  rw [short] at hup
  rw [hs]
  refine h.around (fun owner sectioned => ⟨owner, ?_⟩) (fun t => ?_) rfl rfl rfl
    (fun _ r => (calm r.calm).elim) fun before t hin place => ?_
  · exact sectioned.apart queues tree (others _ (by decide)) fun t => by rw [resume]
  · show InDiskDone (sched.tasks t).resume ↔ _
    rw [resume]
  · obtain ⟨more, f, ⟨hp, -⟩ | ⟨hp, hr, -⟩⟩ := place.interrupted hin hintrq
    · rw [hp]
      exact ⟨more, .come rfl hup f rfl⟩
    · rw [hp]
      refine ⟨more, .inl ⟨?_, .come rfl hup f rfl⟩⟩
      show InDiskDone (sched.tasks t).resume
      rw [resume]
      exact hr

/-- The controller gets on: it finishes the command, or gets ready for the data of a write. -/
theorem work_keeps (h : Driven image s) :
    Driven image { s with controller := s.controller.work } := by
  refine h.around (fun owner sectioned => ⟨owner, sectioned⟩) (fun _ => Iff.rfl) rfl rfl rfl
    (fun before r => ?_) fun before t _ place => ?_
  · rw [work_idle r.state]
    exact r
  · have same (state : s.controller.state = .idle) (p : ChannelPoint)
        (place : At s (s.job t) t before p) :
        At { s with controller := s.controller.work } (s.job t) t before p := by
      rw [work_idle state]
      exact place
    have finished (f : (s.job t).Finished before s.controller) (p : ChannelPoint)
        (place : At s (s.job t) t before p) :
        At { s with controller := s.controller.work } (s.job t) t before p := by
      rw [f.work]
      exact place
    have signal {waiters : List Addr} (g : Signal s (s.job t) before waiters) :
        Signal { s with controller := s.controller.work } (s.job t) before waiters := by
      cases g with
      | come e m f q => exact .come e m (by rw [f.work]; exact f) (by rw [f.work]; exact q)
      | coming e k =>
        refine .coming ⟨e.expecting, e.sema⟩ (.inr ?_)
        rcases k with ⟨k, -⟩ | ⟨f, q⟩
        · exact k.work
        · show (s.job t).Finished before s.controller.work ∧ s.controller.work.intrq = true
          rw [f.work]
          exact ⟨f, q⟩
    cases hp : s.point t <;> rw [hp] at place
    case out => trivial
    case acquire => trivial
    case release => trivial
    case selectDisk => exact same place.2.1 _ place
    case loop => exact same place.2.1 _ place
    case expect => exact same place.2.2.1 _ place
    case command => exact same place.2.2.2.1 _ place
    case sleep => exact ⟨place.1, signal place.2⟩
    case asleep =>
      refine ⟨place.1, place.2.imp (And.imp_right signal) ?_⟩
      rintro ⟨hr, c, f⟩
      refine ⟨hr, ⟨c.expecting, c.sema, ?_⟩, ?_⟩
      · show s.controller.work.intrq = false
        rw [f.work]
        exact c.intrq
      · show (s.job t).Finished before s.controller.work
        rw [f.work]
        exact f
    case busyWait n =>
      obtain ⟨more, k⟩ := place
      refine ⟨more, ?_⟩
      split
      next hw =>
        rw [if_pos hw] at k
        obtain ⟨r, names, state | ⟨-, state⟩⟩ := k.state
        · rw [work_empty state]
          exact k
        · rw [work_preparing state]
          exact ⟨⟨k.expects.expecting, k.expects.sema⟩, k.intrq, k.image, r, names, .inl rfl⟩
      next hw =>
        rw [if_neg hw] at k
        obtain ⟨hn, c, f⟩ := k
        rw [f.work]
        exact ⟨hn, c, f⟩
    case move moved =>
      obtain ⟨more, hmoved, k⟩ := place
      refine ⟨more, hmoved, ?_⟩
      split
      next hw =>
        rw [if_pos hw] at k
        obtain ⟨r, names, state⟩ := k.state
        have state := state.resolve_right fun e => (by cases e.1)
        rw [work_empty state]
        exact k
      next hw =>
        rw [if_neg hw] at k
        rw [k.2.work]
        exact k

theorem Gives.not_sync {f : Fault} (h : Gives f) : f ∉ syncAsserts := by
  rcases h with rfl | ⟨msg, rfl⟩ <;> simp [syncAsserts]

/-- ONE STEP. The invariant is kept, and no assertion of `sync.c` fails. -/
theorem channelStep_keeps (h : Driven image s) {e : ChannelEvent α} (en : channelEnabled s e)
    (one : OneSector s e) :
    Ensures (fun f => f ∉ syncAsserts) (fun p => Driven image p.1) (channelStep s e) := by
  unfold channelStep
  obtain ⟨owner, sectioned⟩ := h.sectioned
  cases e with
  | call t =>
    obtain ⟨hrun, hidle, hout⟩ := en
    have hfunc : t.func = "ide_write" ∨ t.func = "ide_read" := by
      unfold Transfer.func
      split
      · exact .inl rfl
      · exact .inr rfl
    have passes {cond : Prop} [Decidable cond] {text : String} (P : Unit → Prop) (hP : P ()) :
        Ensures (· ∉ syncAsserts) P (assertThat false cond t.func text) := by
      refine ensures_assertThat (fun _ => ?_) fun _ => hP
      rcases hfunc with e | e <;> rw [e] <;> simp [syncAsserts]
    refine Ensures.bind (P := Driven image) ?_ fun s' h' => h'
    unfold Channel.call
    refine Ensures.bind (passes (fun _ => True) trivial) fun _ _ =>
      Ensures.bind (passes (fun _ => True) trivial) fun _ _ => ?_
    have acquired :=
      sectioned.acquire hrun hidle (by show (s.point s.cur).stage = _; rw [hout]; rfl)
    refine h.aside hrun (by rw [hout]; decide) (p := .acquire) (by decide) ?_ rfl ⟨owner, ?_⟩
      (fun u hu => Function.update_of_ne hu _ _)
      (fun _ => ?_) rfl rfl rfl
    · show s.lock.lockAcquire.sched = _
      unfold LockSched.lockAcquire
      split <;> rfl
    · show Sectioned s.lock.lockAcquire owner fun u => ((s.goTo .acquire).point u).stage
      rw [channel_goTo_stage]
      exact acquired
    · have job : ((s.goTo .acquire).setJob { t with secsDone := 0, got := [] }).job s.cur =
          { t with secsDone := 0, got := [] } :=
        Function.update_self ..
      show (((s.goTo .acquire).setJob { t with secsDone := 0, got := [] }).job s.cur).secCnt = 1 ∧
        (((s.goTo .acquire).setJob { t with secsDone := 0, got := [] }).job s.cur).secsDone = 0 ∧
          (((s.goTo .acquire).setJob { t with secsDone := 0, got := [] }).job s.cur).got = []
      rw [job]
      exact ⟨one, rfl, rfl⟩
  | go => exact Ensures.bind ((channelGo_keeps h en).weaken fun f hf => hf.not_sync) fun s' h' => h'
  | wake =>
    have point := h.sleepers _ en
    unfold goOn
    dsimp only
    have sleeping : InDiskDone (s.lock.sched.tasks s.cur).resume := en
    cases hr : (s.lock.sched.tasks s.lock.sched.cur).resume <;>
      rw [show s.cur = s.lock.sched.cur from rfl, hr] at sleeping
    case semaDown k old =>
      obtain rfl : k = diskDone := sleeping
      obtain ⟨sched, hs, keeps⟩ := h.semaDown (.inr point) (fun _ => en) (.inr en) old
      dsimp only
      rw [hs]
      have stays : s.goTo .asleep = s := by
        unfold Channel.goTo
        rw [← point, Function.update_eq_self]
      rw [stays] at keeps
      exact keeps
    all_goals exact sleeping.elim
  | intr =>
    exact Ensures.bind ((intrHdHandler_keeps h en).weaken fun f hf => hf.elim) fun s' h' => h'
  | work => exact work_keeps h
  | lock e =>
    have quiet := sectioned.quiet en.1 en.2
    dsimp only
    cases hst : lockStep s.lock e with
    | error f =>
      rw [hst] at quiet
      exact quiet
    | ok p =>
      rw [hst] at quiet
      obtain ⟨lock, _⟩ := p
      have aside := quiet_aside sectioned.held en.1 en.2 hst
      have resume (t : Addr) : InDiskDone (lock.sched.tasks t).resume ↔
          InDiskDone (s.lock.sched.tasks t).resume := by
        have iff (old : Bool) := aside.resumes t diskDone old (by decide)
        have spell (r : Resume) : InDiskDone r ↔ ∃ old, r = .semaDown diskDone old := by
          constructor
          · cases r <;> try exact False.elim
            rintro rfl
            exact ⟨_, rfl⟩
          · rintro ⟨old, rfl⟩
            exact rfl
        rw [spell, spell]
        exact exists_congr iff
      have sema := aside.semaphores diskDone (by decide)
      refine h.around (fun _ _ => quiet) resume rfl rfl rfl (fun before r => ?_)
        fun before t _ place => ?_
      · exact ⟨⟨r.calm.expecting, sema.trans r.calm.sema, r.calm.intrq⟩, r.state, r.image⟩
      · exact place.congr rfl rfl sema (resume t)

/-! ## Runs -/

theorem Calm.wakes (c : Calm s) : Wakes s := by
  constructor <;> rw [c.sema]
  · exact .inl rfl
  · exact fun e => absurd rfl e

theorem Expects.wakes (e : Expects s []) : Wakes s := by
  constructor <;> rw [e.sema]
  · exact .inl rfl
  · exact fun e => absurd rfl e

theorem Signal.wakes {waiters : List Addr} (g : Signal s j img waiters) : Wakes s := by
  cases g with
  | come e m f q =>
    constructor <;> rw [m]
    · exact .inr rfl
    · exact fun e => absurd rfl e
  | coming e k =>
    refine ⟨.inl (by rw [e.sema]), fun _ => ⟨e.expecting, k.imp ?_ And.right⟩⟩
    rintro ⟨⟨r, -, hstate, -⟩, -⟩
    unfold Controller.bsy
    rw [hstate]
    cases j.write <;> rfl

/-- Wherever the thread at work is. -/
theorem At.wakes {t : Addr} {p : ChannelPoint} (place : At s j t img p) (hin : p.stage = .inside) :
    Wakes s := by
  cases p with
  | out => cases hin
  | acquire => cases hin
  | release => cases hin
  | selectDisk => exact place.1.wakes
  | loop => exact place.1.wakes
  | expect => exact place.2.1.wakes
  | command => exact place.2.1.wakes
  | sleep => exact place.2.wakes
  | asleep =>
    rcases place.2 with ⟨-, g⟩ | ⟨-, c, -⟩
    · exact g.wakes
    · exact c.wakes
  | busyWait n =>
    obtain ⟨-, k⟩ := place
    split at k
    · exact k.expects.wakes
    · exact k.2.1.wakes
  | move moved =>
    obtain ⟨-, -, k⟩ := place
    split at k
    · exact k.expects.wakes
    · exact k.1.wakes

theorem Driven.safe (h : Driven image s) : ChannelSafe image s := by
  obtain ⟨owner, sectioned⟩ := h.sectioned
  obtain ⟨before, serial, working, rests⟩ := h.turn
  have wakes : Wakes s := by
    by_cases none : ∀ t, (s.point t).stage ≠ .inside
    · exact (rests none).calm.wakes
    · obtain ⟨t, ht⟩ := not_forall.mp none
      have ht := not_not.mp ht
      exact (working t ht).place.wakes ht
  refine ⟨wakes, fun t u ht hu => sectioned.alone ht hu, fun t ht => ?_, fun none => ?_, before,
    serial, fun none => (rests none).image⟩
  · have place := (working t (by rw [ht]; rfl)).place
    rw [ht] at place
    obtain ⟨-, -, hintrq, hstate, -⟩ := place
    unfold Controller.bsy Controller.drq
    rw [hstate]
    exact ⟨rfl, rfl, hintrq⟩
  · obtain ⟨calm, hstate, -⟩ := rests none
    refine ⟨calm.expecting, calm.sema, ?_, calm.intrq⟩
    unfold Controller.bsy
    rw [hstate]

theorem channelInit_driven (q : Queues sched)
    (fresh : ∀ t k old, (sched.tasks t).resume ≠ .semaDown k old) :
    Driven image (channelInit sched regs image job) := by
  have inDown {t : Addr} : ¬ InSemaDown (sched.tasks t).resume := fun h => by
    unfold InSemaDown at h
    split at h
    next k old e => exact fresh t k old e
    next => exact h
  have inDone {t : Addr} : ¬ InDiskDone (sched.tasks t).resume := fun h => by
    unfold InDiskDone at h
    split at h
    next k old e => exact fresh t k old e
    next => exact h
  have queues : Queues (sched.setSema diskDone fun _ => ⟨0, []⟩) := q.setSema (List.nil_sublist _)
  refine ⟨⟨none, lockInit_sectioned (lockInit_held queues fun t => inDown)⟩,
    fun t ht => absurd ht inDone, fun t ht => (by cases ht), image,
    .start, fun t ht => (by cases ht), fun _ => ⟨⟨rfl, ?_, rfl⟩, rfl, rfl⟩⟩
  show ((sched.setSema diskDone fun _ => ⟨0, []⟩).setSema lockSema fun _ => ⟨1, []⟩).semaphores
    diskDone = _
  rw [setSema_semaphores, if_neg (by decide), setSema_semaphores, if_pos rfl]

/-- THE RUN LEMMA. -/
theorem channel_driven (q : Queues sched)
    (fresh : ∀ t k old, (sched.tasks t).resume ≠ .semaDown k old)
    {tr : List (Entry (Channel α) (ChannelEvent α) Unit)}
    (path : (channelMachine α).Path (channelInit sched regs image job) tr s)
    (meets : Machine.Meets OneSector tr) : Driven image s :=
  path.invariant_of_meets (channelInit_driven q fresh) meets fun h en st one =>
    (channelStep_keeps h en one).of_ok st

/-- DISK TRANSFERS ARE WHOLE AND NO INTERRUPT IS LOST, for transfers of one sector each, any tasks
and any order of their statements, of the controller's work and of its interrupts. No assertion of
`sync.c` fails, and no read panics. -/
theorem channel_safe (q : Queues sched)
    (fresh : ∀ t k old, (sched.tasks t).resume ≠ .semaDown k old)
    {tr : List (Entry (Channel α) (ChannelEvent α) Unit)}
    (path : (channelMachine α).Path (channelInit sched regs image job) tr s)
    (meets : Machine.Meets OneSector tr) :
    ChannelSafe image s ∧
      (∀ e f, channelEnabled s e → OneSector s e → channelStep s e = .error f → f ∉ syncAsserts) ∧
      ∀ f msg, channelEnabled s .go → s.go = .error f → f ≠ .panic "ide_read" msg := by
  have driven := channel_driven q fresh path meets
  refine ⟨driven.safe, fun e f en one fault => (channelStep_keeps driven en one).of_error fault,
    fun f msg en fault => ?_⟩
  rcases (channelGo_keeps driven en).of_error fault with rfl | ⟨msg', rfl⟩
  · exact fun e => (by cases e)
  · exact fun e => absurd (Fault.panic.inj e).1 (by decide)

set_option maxRecDepth 8192 in
/-- `main` reads a sector, and the interrupt comes while the processor is idle; `init` has wanted
the channel meanwhile. It writes a sector of the other drive, and that interrupt comes before it is
asleep. -/
theorem channel_safe_contended :
    ∃ tr s, (channelMachine Nat).Path
        (channelInit (boot 0xc0101000 0xc0102000 fun _ => 1) ⟨0, 0, 0, 0, 0⟩ (fun _ lba => lba)
          fun _ => ⟨⟨false, ⟨"sdb", 1⟩, 0, 0, id⟩, 0, []⟩) tr s ∧
      (s.history.map (·.2) = [[some 5], []] ∧ s.controller.image false 9 = 77) ∧
      ChannelSafe (fun _ lba => lba) s := by
  obtain ⟨tr, s, path, -, meets, done⟩ := Machine.replay_path (channelMachine Nat) OneSector
    (channelInit (boot 0xc0101000 0xc0102000 fun _ => 1) ⟨0, 0, 0, 0, 0⟩ (fun _ lba => lba)
      fun _ => ⟨⟨false, ⟨"sdb", 1⟩, 0, 0, id⟩, 0, []⟩)
    [.call ⟨false, ⟨"sdb", 1⟩, 5, 1, id⟩, .lock .statement, .lock .statement, .lock .statement,
      .go, .go, .go, .go, .go, .go,
      -- `init` finds the lock taken, and there is nothing else to run
      .lock (.sched .goOn), .call ⟨true, ⟨"sda", 0⟩, 9, 1, fun _ => 77⟩, .lock .statement,
      .lock (.sched .goOn), .lock (.sched .idleBlock), .work, .lock (.sched .goOn),
      .lock (.sched .intrEnable), .intr,
      .lock (.sched .idleBlock), .wake, .go, .go, .go, .go, .lock .statement, .lock .statement,
      .lock .statement, .go,
      .lock (.sched .yield), .lock (.sched .goOn), .lock .statement, .lock .statement,
      .go, .go, .go, .go, .go, .work, .go, .go, .work, .intr, .go, .go, .go]
    (fun _ s => s.history.map (·.2) = [[some 5], []] ∧ s.controller.image false 9 = 77)
      (by decide +kernel)
  refine ⟨tr, s, path, done, (channel_safe (boot_queues (by decide)) ?_ path meets).1⟩
  intro t k old
  show (if t = _ then _ else if t = _ then _ else _ : Task).resume ≠ _
  split
  · exact fun e => (by cases e)
  · split <;> exact fun e => (by cases e)

/-- Of two sectors, the second is moved before the controller has read it. -/
example : (((channelMachine Nat).replay (fun _ _ => True)
    (channelInit (boot 0xc0101000 0xc0102000 fun _ => 1) ⟨0, 0, 0, 0, 0⟩ (fun _ lba => lba)
      fun _ => ⟨⟨false, ⟨"sdb", 1⟩, 0, 0, id⟩, 0, []⟩)
    [.call ⟨false, ⟨"sdb", 1⟩, 5, 2, id⟩, .lock .statement, .lock .statement, .lock .statement,
      .go, .go, .go, .go, .go, .go, .lock (.sched .goOn), .work, .intr,
      .lock (.sched .yield), .wake,
      .go, .go, .go, .go, .go]).map fun r => decide (r.2.history.map (·.2) = [[some 5, none]])) =
      some true := by
  decide +kernel

end SeekingOs.Device
