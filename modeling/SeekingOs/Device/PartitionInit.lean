import Mathlib.Data.List.Nodup
import SeekingOs.Device.PartitionScan

/-!
# The partitions of all disks

`ide_init` scans the second drive of each channel. The indices start again for each disk; the
address that the tables of logical partitions count from does not, so an extended partition of a
later disk is looked for where it would be if its start were counted from that of an earlier one.
-/

namespace SeekingOs.Device

open Lib

/-- `channel_cnt` -/
def channelCnt (hdCnt : Byte) : Nat := divRoundUp hdCnt.toNat 2

/-- One drive: the first of a channel is not scanned. -/
def initDrive (disks : Drive → Sectors) (levels : Nat) (hd : Drive) (s : Ide) : Scanned :=
  (if hd.devNo ≠ 0 then partitionScan hd (disks hd) levels 0 s else some (.ok s)).andThen fun s =>
    some (.ok s.restart)

/-- The two drives of a channel; there are two elements in `channels`. -/
def initChannel (disks : Drive → Sectors) (levels channelNo : Nat) (s : Ide) : Scanned :=
  if channelNo < 2 then
    (initDrive disks levels ⟨channelNo, 0⟩ s).andThen (initDrive disks levels ⟨channelNo, 1⟩)
  else some (.error (.outOfBounds "ide_init"))

/-- The loop of `ide_init`, up to a channel. -/
def initChannels (disks : Drive → Sectors) (levels : Nat) : Nat → Ide → Scanned
  | 0, s => some (.ok s)
  | n + 1, s => (initChannels disks levels n s).andThen (initChannel disks levels n)

/-- `ide_init`, with the number of disks that the BIOS has found. -/
def ideInit (disks : Drive → Sectors) (levels : Nat) (hdCnt : Byte) : Scanned :=
  match assertThat false (0 < hdCnt.toNat) "ide_init" "hd_cnt > 0" with
  | .ok _ => initChannels disks levels (channelCnt hdCnt) Ide.init
  | .error fault => some (.error fault)

/-! ## What is on a disk -/

/-- The entries that are used. -/
def used (es : List TableEntry) : List TableEntry := es.filter (·.fsType ≠ 0)

/-- The extended ones. -/
def extendedOf (es : List TableEntry) : List TableEntry := es.filter (·.fsType = 0x5)

/-- The primary partitions of a disk. -/
def primsOf (es : List TableEntry) : List (Nat × Nat) := (es.filter (·.Plain)).map (·.part 0)

/-- The chain of the extended partition at `base`, from the table at `lba` on: each table has a
partition, counted from the table, and all but the last a link, counted from `base`. -/
inductive Chain (disk : Sectors) (base : Nat) : Nat → List Nat → List (Nat × Nat) → Prop where
  | last {lba : Nat} {p : TableEntry} (table : used (partitionTable disk lba) = [p])
      (plain : p.Plain) (fits : lba + p.startLba < 2 ^ 32) :
      Chain disk base lba [lba] [(lba + p.startLba, p.secCnt)]
  | link {lba : Nat} {p l : TableEntry} {tables : List Nat} {logics : List (Nat × Nat)}
      (table : used (partitionTable disk lba) = [p, l])
      (plain : p.Plain) (ext : l.fsType = 0x5) (fits : lba + p.startLba < 2 ^ 32)
        (fits' : base + l.startLba < 2 ^ 32)
      (rest : Chain disk base (base + l.startLba) tables logics) :
      Chain disk base lba (lba :: tables) ((lba + p.startLba, p.secCnt) :: logics)

/-- A well-formed disk: where its extended partition is, the tables in it and the logical
partitions. -/
inductive WellFormed (disk : Sectors) : Option Nat → List Nat → List (Nat × Nat) → Prop where
  | none (plain : extendedOf (partitionTable disk 0) = []) : WellFormed disk none [] []
  | empty {e : TableEntry} (one : extendedOf (partitionTable disk 0) = [e]) (pos : 0 < e.startLba)
      (table : used (partitionTable disk e.startLba) = []) :
        WellFormed disk (some e.startLba) [e.startLba] []
  | chain {e : TableEntry} {tables : List Nat} {logics : List (Nat × Nat)}
      (one : extendedOf (partitionTable disk 0) = [e])
      (pos : 0 < e.startLba) (links : Chain disk e.startLba e.startLba tables logics)
        (most : logics.length ≤ 8) :
      WellFormed disk (some e.startLba) tables logics

/-- What a well-formed disk has. -/
structure Layout (disk : Sectors) where
  ext : Option Nat
  tables : List Nat
  logics : List (Nat × Nat)
  wellFormed : WellFormed disk ext tables logics

/-- `prim_parts` is exactly this. -/
def primArray (hd : Drive) (prims : List (Nat × Nat)) : Nat → Part :=
  place (primPart hd) 0 prims fun _ => Part.zero

/-- `logic_parts` is exactly this. -/
def logicArray (hd : Drive) (logics : List (Nat × Nat)) : Nat → Part :=
  place (logicPart hd) 0 logics fun _ => Part.zero

section

variable (disks : Drive → Sectors) (layout : ∀ hd, Layout (disks hd))

/-- The primary partitions of a drive. -/
def prims (hd : Drive) : List (Nat × Nat) := primsOf (partitionTable (disks hd) 0)

/-- The drives that are scanned are recorded as they are. -/
structure Recorded (n : Nat) (s : Ide) : Prop where
  prim : ∀ c < n, ∀ i < 4, s.primParts ⟨c, 1⟩ i = primArray ⟨c, 1⟩ (prims disks ⟨c, 1⟩) i
  logic : ∀ c < n, ∀ i < 8, s.logicParts ⟨c, 1⟩ i = logicArray ⟨c, 1⟩ (layout ⟨c, 1⟩).logics i
  nodup : s.partitionList.Nodup
  listed : ∀ ref, ref ∈ s.partitionList ↔ ∃ c < n, ref.drive = ⟨c, 1⟩ ∧
    ref.idx < if ref.logic then (layout ⟨c, 1⟩).logics.length else (prims disks ⟨c, 1⟩).length

/-- PARTITION SCANNING IS CORRECT for these disks. -/
def InitCorrect (hdCnt : Byte) : Prop :=
  ∃ levels s, ideInit disks levels hdCnt = some (.ok s) ∧ Recorded disks layout (channelCnt hdCnt) s

/-- The extended partition of the first drive that has one, among those before a channel; 0 when
there is none. -/
def baseBefore : Nat → Nat
  | 0 => 0
  | c + 1 => if baseBefore c ≠ 0 then baseBefore c else (layout ⟨c, 1⟩).ext.getD 0

end

/-- Where another base leads to there are tables that say the same. -/
def Coincides (disk : Sectors) (base ext : Nat) (logics : List (Nat × Nat)) : Prop :=
  u32 (ext + base : Nat) < maxLba ∧
    (Holds disk base (u32 (ext + base : Nat)) (partitionTable disk (u32 (ext + base : Nat))) base []
      logics ∧ logics.length < 8 ∨
      Fills disk base (u32 (ext + base : Nat)) (partitionTable disk (u32 (ext + base : Nat))) base
        [] logics ∧ logics.length = 8)

/-- A drive whose extended partition, if it has one, is found. -/
def Found {disk : Sectors} (l : Layout disk) (base : Nat) : Prop :=
  ∀ ext, l.ext = some ext → (base = 0 ∧ ∀ t ∈ l.tables, t < maxLba) ∨
    (base ≠ 0 ∧ Coincides disk base ext l.logics)

/-- At most three primary partitions on each drive that is scanned, and extended partitions where
they are looked for. -/
structure Scannable (disks : Drive → Sectors) (layout : ∀ hd, Layout (disks hd)) (hdCnt : Byte) :
    Prop where
  some : 0 < hdCnt.toNat
  channels : channelCnt hdCnt ≤ 2
  three : ∀ c < channelCnt hdCnt, (prims disks ⟨c, 1⟩).length < 4
  found : ∀ c < channelCnt hdCnt, Found (layout ⟨c, 1⟩) (baseBefore disks layout c)

variable {disk : Sectors} {base base' lba : Nat} {es : List TableEntry} {p e : TableEntry}
  {ps logics : List (Nat × Nat)} {tables : List Nat}

/-! ## Entries that are not used -/

theorem used_cons_of_free (h : p.fsType = 0) : used (p :: es) = used es :=
  List.filter_cons_of_neg fun hd => of_decide_eq_true hd h

theorem used_cons (h : p.fsType ≠ 0) : used (p :: es) = p :: used es :=
  List.filter_cons_of_pos (decide_eq_true h)

theorem extended_used (h : p.fsType = 0x5) : p.fsType ≠ 0 := by
  rw [h]
  decide

/-- They hold nothing. -/
theorem holds_used : Holds disk base lba (used es) base' ps logics ↔
    Holds disk base lba es base' ps logics := by
  induction es generalizing base base' ps logics with
  | nil => exact Iff.rfl
  | cons p es ih =>
    by_cases free : p.fsType = 0
    · rw [used_cons_of_free free, ih]
      constructor
      · intro h
        exact .unused free h
      · intro h
        cases h with
        | unused _ rest => exact rest
        | primary plain _ => exact absurd free plain.2
        | logical plain _ _ => exact absurd free plain.2
        | extended ext _ _ _ => exact absurd free (extended_used ext)
    · rw [used_cons free]
      constructor
      · intro h
        cases h with
        | unused free' _ => exact absurd free' free
        | primary plain rest => exact .primary plain (ih.mp rest)
        | logical plain below rest => exact .logical plain below (ih.mp rest)
        | extended ext reach inner rest => exact .extended ext reach inner (ih.mp rest)
      · intro h
        cases h with
        | unused free' _ => exact absurd free' free
        | primary plain rest => exact .primary plain (ih.mpr rest)
        | logical plain below rest => exact .logical plain below (ih.mpr rest)
        | extended ext reach inner rest => exact .extended ext reach inner (ih.mpr rest)

theorem fills_used : Fills disk base lba (used es) base' ps logics ↔
    Fills disk base lba es base' ps logics := by
  induction es generalizing base base' ps logics with
  | nil => exact Iff.rfl
  | cons p es ih =>
    by_cases free : p.fsType = 0
    · rw [used_cons_of_free free, ih]
      constructor
      · intro h
        exact .unused free h
      · intro h
        cases h with
        | last plain _ => exact absurd free plain.2
        | unused _ rest => exact rest
        | primary plain _ => exact absurd free plain.2
        | logical plain _ _ => exact absurd free plain.2
        | before ext _ _ _ => exact absurd free (extended_used ext)
        | inside ext _ _ _ => exact absurd free (extended_used ext)
    · rw [used_cons free]
      constructor
      · intro h
        cases h with
        | last plain below => exact .last plain below
        | unused free' _ => exact absurd free' free
        | primary plain rest => exact .primary plain (ih.mp rest)
        | logical plain below rest => exact .logical plain below (ih.mp rest)
        | before ext reach inner rest => exact .before ext reach inner (ih.mp rest)
        | inside ext reach inner rest => exact .inside ext reach inner (holds_used.mp rest)
      · intro h
        cases h with
        | last plain below => exact .last plain below
        | unused free' _ => exact absurd free' free
        | primary plain rest => exact .primary plain (ih.mpr rest)
        | logical plain below rest => exact .logical plain below (ih.mpr rest)
        | before ext reach inner rest => exact .before ext reach inner (ih.mpr rest)
        | inside ext reach inner rest => exact .inside ext reach inner (holds_used.mpr rest)

/-! ## The base -/

theorem TableEntry.newBase_ne (h : base ≠ 0) : p.newBase base = base := by
  unfold TableEntry.newBase
  rw [if_pos h]

/-- A base that is set stays. -/
theorem Holds.base_eq (h : Holds disk base lba es base' ps logics) (hbase : base ≠ 0) :
    base' = base := by
  induction h with
  | nil => rfl
  | unused _ _ ih => exact ih hbase
  | primary _ _ ih => exact ih hbase
  | logical _ _ _ ih => exact ih hbase
  | extended _ _ _ _ ihinner ihrest =>
    rw [TableEntry.newBase_ne hbase] at ihinner
    have hinner := ihinner hbase
    subst hinner
    exact ihrest hbase

theorem Fills.base_eq (h : Fills disk base lba es base' ps logics) (hbase : base ≠ 0) :
    base' = base := by
  induction h with
  | last => rfl
  | unused _ _ ih => exact ih hbase
  | primary _ _ ih => exact ih hbase
  | logical _ _ _ ih => exact ih hbase
  | before _ _ inner _ ih =>
    rw [TableEntry.newBase_ne hbase] at inner
    have hinner := inner.base_eq hbase
    subst hinner
    exact ih hbase
  | inside _ _ _ rest ih =>
    rw [TableEntry.newBase_ne hbase] at ih
    have hinner := ih hbase
    subst hinner
    exact rest.base_eq hbase

/-! ## The boot sector -/

theorem primsOf_cons (plain : p.Plain) : primsOf (p :: es) = p.part 0 :: primsOf es := by
  simp [primsOf, plain]

theorem primsOf_cons_of_not (h : ¬ p.Plain) : primsOf (p :: es) = primsOf es := by
  simp [primsOf, h]

theorem extendedOf_cons (ext : p.fsType = 0x5) : extendedOf (p :: es) = p :: extendedOf es :=
  List.filter_cons_of_pos (decide_eq_true ext)

theorem extendedOf_cons_of_ne (h : p.fsType ≠ 0x5) : extendedOf (p :: es) = extendedOf es :=
  List.filter_cons_of_neg fun hd => h (of_decide_eq_true hd)

theorem not_plain_of_free (free : p.fsType = 0) : ¬ p.Plain := fun plain => plain.2 free

theorem not_plain_of_extended (ext : p.fsType = 0x5) : ¬ p.Plain := fun plain => plain.1 ext

theorem ne_extended_of_free (free : p.fsType = 0) : p.fsType ≠ 0x5 := by
  rw [free]
  decide

/-- Without an extended entry there are the primary partitions and nothing else. -/
theorem holds_primaries (plain : extendedOf es = []) : Holds disk base 0 es base' ps logics ↔
    base' = base ∧ ps = primsOf es ∧ logics = [] := by
  induction es generalizing ps with
  | nil =>
    constructor
    · intro h
      cases h
      exact ⟨rfl, rfl, rfl⟩
    · rintro ⟨rfl, rfl, rfl⟩
      exact .nil _ _
  | cons p es ih =>
    have noExt : p.fsType ≠ 0x5 := by
      intro ext
      rw [extendedOf_cons ext] at plain
      cases plain
    rw [extendedOf_cons_of_ne noExt] at plain
    constructor
    · intro h
      cases h with
      | unused free rest =>
        obtain ⟨rfl, rfl, rfl⟩ := (ih plain).mp rest
        exact ⟨rfl, (primsOf_cons_of_not (not_plain_of_free free)).symm, rfl⟩
      | primary hp rest =>
        obtain ⟨rfl, rfl, rfl⟩ := (ih plain).mp rest
        exact ⟨rfl, (primsOf_cons hp).symm, rfl⟩
      | logical _ below _ => exact absurd rfl below
      | extended ext _ _ _ => exact absurd ext noExt
    · rintro ⟨rfl, rfl, rfl⟩
      by_cases free : p.fsType = 0
      · rw [primsOf_cons_of_not (not_plain_of_free free)]
        exact .unused free ((ih plain).mpr ⟨rfl, rfl, rfl⟩)
      · rw [primsOf_cons ⟨noExt, free⟩]
        exact .primary ⟨noExt, free⟩ ((ih plain).mpr ⟨rfl, rfl, rfl⟩)

theorem not_fills_primaries (plain : extendedOf es = []) :
    ¬ Fills disk base 0 es base' ps logics := by
  intro h
  induction es generalizing ps logics with
  | nil => cases h
  | cons p es ih =>
    have noExt : p.fsType ≠ 0x5 := by
      intro ext
      rw [extendedOf_cons ext] at plain
      cases plain
    rw [extendedOf_cons_of_ne noExt] at plain
    cases h with
    | last _ below => exact absurd rfl below
    | unused _ rest => exact ih plain rest
    | primary _ rest => exact ih plain rest
    | logical _ below _ => exact absurd rfl below
    | before ext _ _ _ => exact absurd ext noExt
    | inside ext _ _ _ => exact absurd ext noExt

/-- With one there is what is below it too. -/
theorem holds_boot_inv (one : extendedOf es = [e]) (h : Holds disk base 0 es base' ps logics) :
    e.target base < maxLba ∧ ∃ ps', Holds disk (e.newBase base) (e.target base)
      (partitionTable disk (e.target base)) base' ps' logics ∧
      ps.length = (primsOf es).length + ps'.length := by
  induction es generalizing ps with
  | nil => cases one
  | cons p es ih =>
    cases h with
    | unused free rest =>
      rw [extendedOf_cons_of_ne (ne_extended_of_free free)] at one
      rw [primsOf_cons_of_not (not_plain_of_free free)]
      exact ih one rest
    | primary plain rest =>
      rw [extendedOf_cons_of_ne plain.1] at one
      rw [primsOf_cons plain]
      obtain ⟨reach, ps', hinner, hlen⟩ := ih one rest
      refine ⟨reach, ps', hinner, ?_⟩
      rw [List.length_cons, List.length_cons, hlen]
      omega
    | logical _ below _ => exact absurd rfl below
    | extended ext reach inner rest =>
      rw [extendedOf_cons ext] at one
      obtain ⟨rfl, plain⟩ := List.cons.inj one
      obtain ⟨rfl, rfl, rfl⟩ := (holds_primaries plain).mp rest
      rw [primsOf_cons_of_not (not_plain_of_extended ext), List.append_nil]
      exact ⟨reach, _, inner, by rw [List.length_append, Nat.add_comm]⟩

theorem holds_boot (one : extendedOf es = [e]) (reach : e.target base < maxLba)
    (inner : Holds disk (e.newBase base) (e.target base)
      (partitionTable disk (e.target base)) base' [] logics) :
    Holds disk base 0 es base' (primsOf es) logics := by
  induction es with
  | nil => cases one
  | cons p es ih =>
    by_cases ext : p.fsType = 0x5
    · rw [extendedOf_cons ext] at one
      obtain ⟨rfl, plain⟩ := List.cons.inj one
      have h := Holds.extended ext reach inner ((holds_primaries plain).mpr ⟨rfl, rfl, rfl⟩)
      rwa [List.nil_append, List.append_nil, ← primsOf_cons_of_not (not_plain_of_extended ext)] at h
    · rw [extendedOf_cons_of_ne ext] at one
      by_cases free : p.fsType = 0
      · rw [primsOf_cons_of_not (not_plain_of_free free)]
        exact .unused free (ih one)
      · rw [primsOf_cons ⟨ext, free⟩]
        exact .primary ⟨ext, free⟩ (ih one)

theorem fills_boot_inv (one : extendedOf es = [e]) (h : Fills disk base 0 es base' ps logics) :
    e.target base < maxLba ∧ ∃ base'' ps', Fills disk (e.newBase base) (e.target base)
      (partitionTable disk (e.target base)) base'' ps' logics ∧
      base' = base'' ∧ ps.length = (primsOf es).length + ps'.length := by
  induction es generalizing ps with
  | nil => cases one
  | cons p es ih =>
    cases h with
    | last _ below => exact absurd rfl below
    | unused free rest =>
      rw [extendedOf_cons_of_ne (ne_extended_of_free free)] at one
      rw [primsOf_cons_of_not (not_plain_of_free free)]
      exact ih one rest
    | primary plain rest =>
      rw [extendedOf_cons_of_ne plain.1] at one
      rw [primsOf_cons plain]
      obtain ⟨reach, base'', ps', hinner, hbase, hlen⟩ := ih one rest
      refine ⟨reach, base'', ps', hinner, hbase, ?_⟩
      rw [List.length_cons, List.length_cons, hlen]
      omega
    | logical _ below _ => exact absurd rfl below
    | before ext _ _ rest =>
      rw [extendedOf_cons ext] at one
      exact absurd rest (not_fills_primaries (List.cons.inj one).2)
    | inside ext reach inner rest =>
      rw [extendedOf_cons ext] at one
      obtain ⟨rfl, plain⟩ := List.cons.inj one
      obtain ⟨rfl, rfl, -⟩ := (holds_primaries plain).mp rest
      rw [primsOf_cons_of_not (not_plain_of_extended ext)]
      exact ⟨reach, _, _, inner, rfl, by rw [List.length_append, Nat.add_comm]⟩

theorem fills_boot (one : extendedOf es = [e]) (reach : e.target base < maxLba)
    (inner : Fills disk (e.newBase base) (e.target base)
      (partitionTable disk (e.target base)) base' [] logics) :
    Fills disk base 0 es base' (primsOf es) logics := by
  induction es with
  | nil => cases one
  | cons p es ih =>
    by_cases ext : p.fsType = 0x5
    · rw [extendedOf_cons ext] at one
      obtain ⟨rfl, plain⟩ := List.cons.inj one
      have h := Fills.inside ext reach inner ((holds_primaries plain).mpr ⟨rfl, rfl, rfl⟩)
      rwa [List.nil_append, ← primsOf_cons_of_not (not_plain_of_extended ext)] at h
    · rw [extendedOf_cons_of_ne ext] at one
      by_cases free : p.fsType = 0
      · rw [primsOf_cons_of_not (not_plain_of_free free)]
        exact .unused free (ih one)
      · rw [primsOf_cons ⟨ext, free⟩]
        exact .primary ⟨ext, free⟩ (ih one)

/-! ## A chain of tables -/

/-- A link leads where it should, when the base is the extended partition's own. -/
theorem target_of_base (hbase : base ≠ 0) (fits : base + e.startLba < 2 ^ 32) :
    e.target base = base + e.startLba := by
  unfold TableEntry.target
  rw [if_pos hbase, Nat.add_comm e.startLba base]
  exact u32_of_lt fits

theorem part_eq (fits : lba + p.startLba < 2 ^ 32) : p.part lba = (lba + p.startLba, p.secCnt) := by
  unfold TableEntry.part
  rw [u32_of_lt fits]

/-- A chain in reach is what the tables hold, and it fills up with its last partition. -/
theorem Chain.holds (h : Chain disk base lba tables logics) (hbase : base ≠ 0) (hlba : lba ≠ 0)
    (reach : ∀ t ∈ tables, t < maxLba) :
    Holds disk base lba (partitionTable disk lba) base [] logics ∧
    Fills disk base lba (partitionTable disk lba) base [] logics := by
  induction h with
  | last table plain fits =>
    rw [← holds_used, ← fills_used, table, ← part_eq fits]
    exact ⟨.logical plain hlba (.nil _ _), .last plain hlba⟩
  | @link lba p l tables logics table plain ext fits fits' rest ih =>
    have htarget := target_of_base hbase fits'
    have hpos : base + l.startLba ≠ 0 := by omega
    obtain ⟨hholds, hfills⟩ := ih hpos fun t ht => reach t (List.mem_cons_of_mem _ ht)
    have hreach : l.target base < maxLba := by
      rw [htarget]
      apply reach
      apply List.mem_cons_of_mem
      cases rest with
      | last => exact List.mem_cons_self
      | link => exact List.mem_cons_self
    have hnew : l.newBase base = base := TableEntry.newBase_ne hbase
    have hinner : Holds disk (l.newBase base) (l.target base) (partitionTable disk (l.target base))
        base [] logics ∧
        Fills disk (l.newBase base) (l.target base) (partitionTable disk (l.target base)) base
          [] logics := by
      rw [hnew, htarget]
      exact ⟨hholds, hfills⟩
    rw [← holds_used, ← fills_used, table, ← part_eq fits]
    constructor
    · have h := Holds.extended ext hreach hinner.1 (.nil _ lba)
      rw [List.append_nil, List.append_nil] at h
      exact .logical plain hlba h
    · have h := Fills.inside ext hreach hinner.2 (.nil _ lba)
      rw [List.append_nil] at h
      exact .logical plain hlba h

/-- What the tables hold was in reach. -/
theorem Chain.reach_of_holds (h : Chain disk base lba tables logics) (hbase : base ≠ 0)
    (hlba : lba < maxLba) {logics' : List (Nat × Nat)}
    (holds : Holds disk base lba (partitionTable disk lba) base' ps logics') :
    ∀ t ∈ tables, t < maxLba := by
  induction h generalizing base' ps logics' with
  | last => simpa using hlba
  | @link lba p l tables logics table plain ext fits fits' rest ih =>
    rw [← holds_used, table] at holds
    have hlink : ∃ b ps' logics'', Holds disk base lba [l] b ps' logics'' := by
      cases holds with
      | unused free _ => exact absurd free plain.2
      | primary _ more => exact ⟨_, _, _, more⟩
      | logical _ _ more => exact ⟨_, _, _, more⟩
      | extended ext' _ _ _ => exact absurd ext' plain.1
    obtain ⟨b, ps', logics'', hlink⟩ := hlink
    cases hlink with
    | unused free _ => exact absurd free (extended_used ext)
    | primary plain' _ => exact absurd ext plain'.1
    | logical plain' _ _ => exact absurd ext plain'.1
    | extended _ reach inner _ =>
      rw [target_of_base hbase fits'] at reach inner
      rw [TableEntry.newBase_ne hbase] at inner
      intro t ht
      obtain rfl | ht := List.mem_cons.mp ht
      · exact hlba
      · exact ih reach inner t ht

/-- And so it was when the last partition of the chain was the last that was recorded. -/
theorem Chain.reach_of_fills (h : Chain disk base lba tables logics) (hbase : base ≠ 0)
    (hlba : lba < maxLba) (hpos : lba ≠ 0) {logics' : List (Nat × Nat)}
    (fills : Fills disk base lba (partitionTable disk lba) base' ps logics')
    (hlen : logics'.length = logics.length) : ∀ t ∈ tables, t < maxLba := by
  induction h generalizing base' ps logics' with
  | last => simpa using hlba
  | @link lba p l tables logics table plain ext fits fits' rest ih =>
    rw [← fills_used, table] at fills
    have hrest : logics ≠ [] := by
      cases rest with
      | last => exact List.cons_ne_nil _ _
      | link => exact List.cons_ne_nil _ _
    have hlink : ∃ b ps' logics'', Fills disk base lba [l] b ps' logics'' ∧
        logics''.length = logics.length := by
      cases fills with
      | last _ _ =>
        have := List.length_pos_of_ne_nil hrest
        rw [List.length_cons, List.length_cons, List.length_nil] at hlen
        omega
      | unused free _ => exact absurd free plain.2
      | primary _ _ => exact absurd rfl hpos
      | logical _ _ more => exact ⟨_, _, _, more, by simpa using hlen⟩
      | before ext' _ _ _ => exact absurd ext' plain.1
      | inside ext' _ _ _ => exact absurd ext' plain.1
    obtain ⟨b, ps', logics'', hlink, hlen'⟩ := hlink
    cases hlink with
    | last plain' _ => exact absurd ext plain'.1
    | unused free _ => exact absurd free (extended_used ext)
    | primary plain' _ => exact absurd ext plain'.1
    | logical plain' _ _ => exact absurd ext plain'.1
    | before _ _ _ more => cases more
    | inside _ reach inner _ =>
      rw [target_of_base hbase fits'] at reach inner
      rw [TableEntry.newBase_ne hbase] at inner
      intro t ht
      obtain rfl | ht := List.mem_cons.mp ht
      · exact hlba
      · exact ih reach (by omega) inner hlen' t ht

/-! ## One disk -/

/-- The scan of a disk from its boot sector finds its partitions. -/
def Finds (disk : Sectors) (base base' : Nat) (logics : List (Nat × Nat)) : Prop :=
  Holds disk base 0 (partitionTable disk 0) base' (primsOf (partitionTable disk 0)) logics ∧
    logics.length < 8 ∨
    Fills disk base 0 (partitionTable disk 0) base' (primsOf (partitionTable disk 0)) logics ∧
    logics.length = 8

/-- What the base is after the scan of a disk. -/
def baseAfter (base : Nat) (ext : Option Nat) : Nat := if base ≠ 0 then base else ext.getD 0

/-- With an extended partition it depends on what is below. -/
theorem finds_boot (one : extendedOf (partitionTable disk 0) = [e]) :
    Finds disk base base' logics ↔ e.target base < maxLba ∧
      (Holds disk (e.newBase base) (e.target base) (partitionTable disk (e.target base)) base' []
        logics ∧ logics.length < 8 ∨
        Fills disk (e.newBase base) (e.target base) (partitionTable disk (e.target base)) base' []
        logics ∧ logics.length = 8) := by
  constructor
  · rintro (⟨holds, hl⟩ | ⟨fills, hl⟩)
    · obtain ⟨reach, ps', inner, hlen⟩ := holds_boot_inv one holds
      obtain rfl : ps' = [] := List.length_eq_zero_iff.mp (by omega)
      exact ⟨reach, .inl ⟨inner, hl⟩⟩
    · obtain ⟨reach, b, ps', inner, rfl, hlen⟩ := fills_boot_inv one fills
      obtain rfl : ps' = [] := List.length_eq_zero_iff.mp (by omega)
      exact ⟨reach, .inr ⟨inner, hl⟩⟩
  · rintro ⟨reach, ⟨inner, hl⟩ | ⟨inner, hl⟩⟩
    · exact .inl ⟨holds_boot one reach inner, hl⟩
    · exact .inr ⟨fills_boot one reach inner, hl⟩

/-- A later disk, whose extended partition is counted from another base. -/
theorem finds_elsewhere (one : extendedOf (partitionTable disk 0) = [e]) (hbase : base ≠ 0) :
    Finds disk base base logics ↔ Coincides disk base e.startLba logics := by
  have htarget : e.target base = u32 (e.startLba + base : Nat) := if_pos hbase
  rw [finds_boot one, TableEntry.newBase_ne hbase, htarget]
  exact Iff.rfl

theorem Finds.base_eq (h : Finds disk base base' logics) (hbase : base ≠ 0) : base' = base := by
  obtain ⟨holds, -⟩ | ⟨fills, -⟩ := h
  · exact holds.base_eq hbase
  · exact fills.base_eq hbase

/-- The first disk with an extended partition: its tables have to be in reach. -/
theorem finds_here (l : Layout disk) {ext : Nat} (hext : l.ext = some ext) :
    Finds disk 0 ext l.logics ↔ ∀ t ∈ l.tables, t < maxLba := by
  obtain ⟨ext', tables, logics, wf⟩ := l
  dsimp only at hext ⊢
  subst hext
  cases wf with
  | @empty e one pos table =>
    have htarget : e.target 0 = e.startLba := if_neg (by simp)
    have hnew : e.newBase 0 = e.startLba := if_neg (by simp)
    rw [finds_boot one, htarget, hnew, ← holds_used, ← fills_used, table]
    constructor
    · rintro ⟨reach, -⟩
      simpa using reach
    · intro reach
      exact ⟨reach _ List.mem_cons_self, .inl ⟨.nil _ _, Nat.zero_lt_succ 7⟩⟩
  | @chain e tables logics one pos links most =>
    have htarget : e.target 0 = e.startLba := if_neg (by simp)
    have hnew : e.newBase 0 = e.startLba := if_neg (by simp)
    have hne : e.startLba ≠ 0 := Nat.ne_of_gt pos
    rw [finds_boot one, htarget, hnew]
    constructor
    · rintro ⟨reach, ⟨holds, -⟩ | ⟨fills, -⟩⟩
      · exact links.reach_of_holds hne reach holds
      · exact links.reach_of_fills hne reach hne fills rfl
    · intro reach
      obtain ⟨holds, fills⟩ := links.holds hne hne reach
      refine ⟨?_, ?_⟩
      · apply reach
        cases links with
        | last => exact List.mem_cons_self
        | link => exact List.mem_cons_self
      · obtain hlt | heq := Nat.lt_or_eq_of_le most
        · exact .inl ⟨holds, hlt⟩
        · exact .inr ⟨fills, heq⟩

/-- The base that a scan leaves. -/
theorem Finds.base_after (l : Layout disk) (h : Finds disk base base' logics) :
    base' = baseAfter base l.ext := by
  unfold baseAfter
  by_cases hbase : base ≠ 0
  · rw [if_pos hbase]
    exact h.base_eq hbase
  · rw [if_neg hbase]
    obtain rfl := not_not.mp hbase
    obtain ⟨ext', tables, logics', wf⟩ := l
    have hone : ∀ {e : TableEntry}, extendedOf (partitionTable disk 0) = [e] → 0 < e.startLba →
        base' = e.startLba := by
      intro e one pos
      have hnew : e.newBase 0 = e.startLba := if_neg (by simp)
      obtain ⟨-, ⟨inner, -⟩ | ⟨inner, -⟩⟩ := (finds_boot one).mp h
      · exact (inner.base_eq (by omega)).trans hnew
      · exact (inner.base_eq (by omega)).trans hnew
    cases wf with
    | none plain =>
      obtain ⟨holds, -⟩ | ⟨fills, -⟩ := h
      · exact ((holds_primaries plain).mp holds).1
      · exact absurd fills (not_fills_primaries plain)
    | empty one pos _ => exact hone one pos
    | chain one pos _ _ => exact hone one pos

/-- A DISK IS FOUND exactly when its partitions are what a scan finds. -/
theorem found_iff (l : Layout disk) (base : Nat) :
    Found l base ↔ Finds disk base (baseAfter base l.ext) l.logics := by
  unfold Found baseAfter
  by_cases hbase : base ≠ 0
  · rw [if_pos hbase]
    obtain ⟨ext', tables, logics, wf⟩ := l
    have hother : ∀ {e : TableEntry} {ls : List (Nat × Nat)}, extendedOf (partitionTable disk 0) =
        [e] →
        ((∀ ext, some e.startLba = some ext → (base = 0 ∧ ∀ t ∈ tables, t < maxLba) ∨
          (base ≠ 0 ∧ Coincides disk base ext ls)) ↔
          Finds disk base base ls) := by
      intro e ls one
      rw [finds_elsewhere one hbase]
      constructor
      · intro h
        obtain ⟨hzero, -⟩ | ⟨-, h⟩ := h _ rfl
        · exact absurd hzero hbase
        · exact h
      · rintro h ext ⟨⟩
        exact .inr ⟨hbase, h⟩
    cases wf with
    | none plain => simp [Finds, (holds_primaries plain).mpr]
    | empty one _ _ => exact hother one
    | chain one _ _ _ => exact hother one
  · rw [if_neg hbase]
    obtain rfl := not_not.mp hbase
    cases hext : l.ext with
    | none =>
      obtain ⟨ext', tables, logics, wf⟩ := l
      dsimp only at hext ⊢
      subst hext
      cases wf with
      | none plain => simp [Finds, (holds_primaries plain).mpr]
    | some ext =>
      rw [Option.getD_some, finds_here l hext]
      constructor
      · intro h
        obtain ⟨-, h⟩ | ⟨hne, -⟩ := h _ rfl
        · exact h
        · exact absurd rfl hne
      · rintro h ext' ⟨⟩
        exact .inl ⟨rfl, h⟩

theorem Layout.most (l : Layout disk) : l.logics.length ≤ 8 := by
  obtain ⟨ext, tables, logics, wf⟩ := l
  cases wf with
  | none => exact Nat.zero_le 8
  | empty => exact Nat.zero_le 8
  | chain _ _ _ most => exact most

/-! ## Arrays -/

variable {A B : Type}

/-- Elements that were put into an empty array can be read back. -/
theorem place_injective {mk : Nat → A → B} {z : B} (inj : ∀ i x y, mk i x = mk i y → x = y)
    (ne : ∀ i x, mk i x ≠ z) {k : Nat} {xs ys : List A} (hxs : xs.length ≤ k) (hys : ys.length ≤ k)
    (h : ∀ i < k, place mk 0 xs (fun _ => z) i = place mk 0 ys (fun _ => z) i) : xs = ys := by
  apply List.ext_getElem?
  intro i
  by_cases hi : i < k
  · have heq := h i hi
    rw [place_apply, place_apply, if_pos (Nat.zero_le i), if_pos (Nat.zero_le i),
      Nat.sub_zero] at heq
    cases hx : xs[i]? with
    | none =>
      cases hy : ys[i]? with
      | none => rfl
      | some y =>
        rw [hx, hy] at heq
        exact absurd heq.symm (ne i y)
    | some x =>
      cases hy : ys[i]? with
      | none =>
        rw [hx, hy] at heq
        exact absurd heq (ne i x)
      | some y =>
        rw [hx, hy] at heq
        rw [inj i x y heq]
  · rw [List.getElem?_eq_none (by omega), List.getElem?_eq_none (by omega)]

theorem primPart_injective (hd : Drive) (i : Nat) (x y : Nat × Nat)
    (h : primPart hd i x = primPart hd i y) : x = y := by
  unfold primPart at h
  injection h with hstart hcnt
  exact Prod.ext hstart hcnt

theorem logicPart_injective (hd : Drive) (i : Nat) (x y : Nat × Nat)
    (h : logicPart hd i x = logicPart hd i y) : x = y := by
  unfold logicPart at h
  injection h with hstart hcnt
  exact Prod.ext hstart hcnt

theorem primPart_ne (hd : Drive) (i : Nat) (x : Nat × Nat) : primPart hd i x ≠ Part.zero := by
  intro h
  injection h with _ _ hdisk _
  cases hdisk

theorem logicPart_ne (hd : Drive) (i : Nat) (x : Nat × Nat) : logicPart hd i x ≠ Part.zero := by
  intro h
  injection h with _ _ hdisk _
  cases hdisk

/-! ## The list of partitions -/

theorem mem_refsFrom {hd : Drive} {logic : Bool} {start n : Nat} {ref : PartRef} :
    ref ∈ refsFrom hd logic start n ↔ ref.drive = hd ∧ ref.logic = logic ∧ start ≤ ref.idx ∧
    ref.idx < start + n := by
  unfold refsFrom
  rw [List.mem_map]
  constructor
  · rintro ⟨i, hi, rfl⟩
    exact ⟨rfl, rfl, List.mem_range'_1.mp hi⟩
  · rintro ⟨rfl, rfl, hi⟩
    exact ⟨ref.idx, List.mem_range'_1.mpr hi, rfl⟩

theorem nodup_refsFrom (hd : Drive) (logic : Bool) (start n : Nat) :
    (refsFrom hd logic start n).Nodup := by
  unfold refsFrom
  apply List.Nodup.map
  · intro i j h
    injection h
  · exact List.nodup_range'

section

variable {disks : Drive → Sectors} {layout : ∀ hd, Layout (disks hd)}

/-- The elements for a drive. -/
def driveRefs (disks : Drive → Sectors) (layout : ∀ hd, Layout (disks hd)) (c : Nat) :
    List PartRef :=
  refsFrom ⟨c, 1⟩ false 0 (prims disks ⟨c, 1⟩).length ++ refsFrom ⟨c, 1⟩ true 0
    (layout ⟨c, 1⟩).logics.length

theorem mem_driveRefs {c : Nat} {ref : PartRef} : ref ∈ driveRefs disks layout c ↔
    ref.drive = ⟨c, 1⟩ ∧ ref.idx < if ref.logic then (layout ⟨c, 1⟩).logics.length
      else (prims disks ⟨c, 1⟩).length := by
  unfold driveRefs
  rw [List.mem_append, mem_refsFrom, mem_refsFrom]
  cases ref.logic <;> simp

theorem nodup_driveRefs (c : Nat) : (driveRefs disks layout c).Nodup := by
  apply List.Nodup.append (nodup_refsFrom _ _ _ _) (nodup_refsFrom _ _ _ _)
  intro ref h h'
  have hfalse := (mem_refsFrom.mp h).2.1
  have htrue := (mem_refsFrom.mp h').2.1
  rw [hfalse] at htrue
  cases htrue

theorem nodup_allRefs (n : Nat) : ((List.range n).flatMap (driveRefs disks layout)).Nodup := by
  rw [List.nodup_flatMap]
  refine ⟨fun c _ => nodup_driveRefs c, ?_⟩
  apply List.nodup_range.imp
  intro c c' hne ref h h'
  apply hne
  have heq := (mem_driveRefs.mp h).1.symm.trans (mem_driveRefs.mp h').1
  injection heq

/-! ## The run over the channels -/

/-- The variables when the channels before `n` are done. -/
structure Inited (disks : Drive → Sectors) (layout : ∀ hd, Layout (disks hd)) (n : Nat) (s : Ide) :
    Prop where
  base : s.extLbaBase = baseBefore disks layout n
  pNo : s.pNo = 0
  lNo : s.lNo = 0
  prim : ∀ c < n, s.primParts ⟨c, 1⟩ = primArray ⟨c, 1⟩ (prims disks ⟨c, 1⟩)
  logic : ∀ c < n, s.logicParts ⟨c, 1⟩ = logicArray ⟨c, 1⟩ (layout ⟨c, 1⟩).logics
  fresh : ∀ c, n ≤ c → s.primParts ⟨c, 1⟩ = (fun _ => Part.zero) ∧
    s.logicParts ⟨c, 1⟩ = fun _ => Part.zero
  list : s.partitionList.Perm ((List.range n).flatMap (driveRefs disks layout))

namespace Inited

variable {n : Nat} {s : Ide} {refs : List PartRef}

theorem restart (h : Inited disks layout n s) : s.restart = s := by
  have hp := h.pNo
  have hl := h.lNo
  cases s
  subst hp hl
  rfl

theorem inRange (h : Inited disks layout n s) : s.InRange := by
  constructor
  · rw [h.pNo]
    decide
  · rw [h.lNo]
    decide

/-- The next channel, when its partitions are found. -/
theorem record (h : Inited disks layout n s)
    (hlists : s.Lists ⟨n, 1⟩ (prims disks ⟨n, 1⟩) (layout ⟨n, 1⟩).logics refs) :
    Inited disks layout (n + 1)
      (s.record ⟨n, 1⟩ (baseAfter s.extLbaBase (layout ⟨n, 1⟩).ext) (prims disks ⟨n, 1⟩)
        (layout ⟨n, 1⟩).logics refs).restart := by
  have other : ∀ {c : Nat}, c ≠ n → (⟨c, 1⟩ : Drive) ≠ ⟨n, 1⟩ := by
    intro c hne heq
    injection heq with heq
    exact hne heq
  constructor
  · rw [h.base]
    rfl
  · rfl
  · rfl
  · intro c hc
    dsimp only [Ide.restart, Ide.record]
    by_cases heq : c = n
    · subst heq
      rw [Function.update_self, h.pNo, (h.fresh c (Nat.le_refl c)).1]
      rfl
    · rw [Function.update_of_ne (other heq)]
      exact h.prim c (by omega)
  · intro c hc
    dsimp only [Ide.restart, Ide.record]
    by_cases heq : c = n
    · subst heq
      rw [Function.update_self, h.lNo, (h.fresh c (Nat.le_refl c)).2]
      rfl
    · rw [Function.update_of_ne (other heq)]
      exact h.logic c (by omega)
  · intro c hc
    dsimp only [Ide.restart, Ide.record]
    have hne : c ≠ n := by omega
    rw [Function.update_of_ne (other hne), Function.update_of_ne (other hne)]
    exact h.fresh c (by omega)
  · unfold Ide.Lists at hlists
    rw [h.pNo, h.lNo] at hlists
    dsimp only [Ide.restart, Ide.record]
    rw [List.range_succ, List.flatMap_append, List.flatMap_singleton]
    exact h.list.append hlists

/-- What is recorded is right. -/
theorem recorded (h : Inited disks layout n s) : Recorded disks layout n s := by
  constructor
  · intro c hc i _
    rw [h.prim c hc]
  · intro c hc i _
    rw [h.logic c hc]
  · exact h.list.nodup_iff.mpr (nodup_allRefs n)
  · intro ref
    rw [h.list.mem_iff, List.mem_flatMap]
    simp only [List.mem_range, mem_driveRefs]

end Inited

theorem inited_zero : Inited disks layout 0 Ide.init := by
  refine ⟨rfl, rfl, rfl, ?_, ?_, ?_, List.Perm.refl _⟩
  · intro c hc
    exact absurd hc (Nat.not_lt_zero c)
  · intro c hc
    exact absurd hc (Nat.not_lt_zero c)
  · intro c _
    exact ⟨rfl, rfl⟩

variable {levels n : Nat} {s s' : Ide}

/-- The first drive is left alone. -/
theorem initChannel_eq (hn : n < 2) (hs : s.restart = s) :
    initChannel disks levels n s = (partitionScan ⟨n, 1⟩ (disks ⟨n, 1⟩) levels 0 s).andThen fun s =>
      some (.ok s.restart) := by
  unfold initChannel
  rw [if_pos hn]
  show (initDrive disks levels ⟨n, 1⟩ s.restart) = _
  rw [hs]
  rfl

/-- A scan puts each partition on the list once. -/
theorem lists_of_scan {hd : Drive} {disk : Sectors} {base' : Nat} {ps logics : List (Nat × Nat)}
    {refs : List PartRef} (hs : s.InRange)
    (h : partitionScan hd disk levels 0 s = some (.ok (s.record hd base' ps logics refs))) :
    s.Lists hd ps logics refs := by
  obtain ⟨-, b, ps', logics', refs', heq, hlists, -⟩ := partitionScan_scans hs h
  have hpNo := congrArg Ide.pNo heq
  have hlNo := congrArg Ide.lNo heq
  have hlist := congrArg Ide.partitionList heq
  rw [record_pNo, record_pNo] at hpNo
  rw [record_lNo, record_lNo] at hlNo
  have hrefs : refs = refs' := List.append_cancel_left hlist
  unfold Ide.Lists at hlists ⊢
  rw [hrefs, Nat.add_left_cancel hpNo, Nat.add_left_cancel hlNo]
  exact hlists

/-- THE NEXT CHANNEL is recorded, when its partitions are found and there are not too many. -/
theorem Inited.scan (h : Inited disks layout n s) (three : (prims disks ⟨n, 1⟩).length < 4)
    (found : Found (layout ⟨n, 1⟩) (baseBefore disks layout n)) :
    ∃ levels s', partitionScan ⟨n, 1⟩ (disks ⟨n, 1⟩) levels 0 s = some (.ok s') ∧
      Inited disks layout (n + 1) s'.restart := by
  rw [← h.base] at found
  have hrecords : Records ⟨n, 1⟩ (disks ⟨n, 1⟩) s 0 (partitionTable (disks ⟨n, 1⟩) 0)
      (baseAfter s.extLbaBase (layout ⟨n, 1⟩).ext)
      (prims disks ⟨n, 1⟩) (layout ⟨n, 1⟩).logics := by
    obtain ⟨holds, hl⟩ | ⟨fills, hl⟩ := (found_iff _ _).mp found
    · exact holds.records rfl (by rw [h.pNo, Nat.zero_add]; exact three)
        (.inl (by rw [h.lNo, Nat.zero_add]; exact hl))
    · exact fills.records rfl (by rw [h.pNo, Nat.zero_add]; exact three)
        (by rw [h.lNo, Nat.zero_add]; exact hl)
  obtain ⟨levels, refs, hscan⟩ := returns_of_records hrecords
  exact ⟨levels, _, hscan, h.record (lists_of_scan h.inRange hscan)⟩

/-- A channel whose partitions are recorded as they are. -/
theorem Inited.found (h : Inited disks layout n s)
    (hscan : partitionScan ⟨n, 1⟩ (disks ⟨n, 1⟩) levels 0 s = some (.ok s'))
    (hprim : ∀ i < 4, s'.primParts ⟨n, 1⟩ i = primArray ⟨n, 1⟩ (prims disks ⟨n, 1⟩) i)
    (hlogic : ∀ i < 8, s'.logicParts ⟨n, 1⟩ i = logicArray ⟨n, 1⟩ (layout ⟨n, 1⟩).logics i) :
    (prims disks ⟨n, 1⟩).length < 4 ∧ Found (layout ⟨n, 1⟩) (baseBefore disks layout n) ∧
    Inited disks layout (n + 1) s'.restart := by
  obtain ⟨-, base', ps, logics, refs, rfl, hlists, hp, hcases⟩ :=
    partitionScan_scans h.inRange hscan
  have hmost : logics.length ≤ 8 := by
    rw [h.lNo] at hcases
    obtain ⟨-, hl | rfl⟩ | ⟨-, hl⟩ := hcases
    · omega
    · exact Nat.zero_le 8
    · omega
  have hfour : (prims disks ⟨n, 1⟩).length ≤ 4 := by
    unfold prims primsOf
    rw [List.length_map]
    refine (List.length_filter_le _ _).trans ?_
    simp [partitionTable]
  have hps : ps = prims disks ⟨n, 1⟩ := by
    apply place_injective (primPart_injective ⟨n, 1⟩) (primPart_ne ⟨n, 1⟩)
      (show ps.length ≤ 4 by omega) hfour
    intro i hi
    have heq := hprim i hi
    dsimp only [Ide.record] at heq
    rw [Function.update_self, h.pNo, (h.fresh n (Nat.le_refl n)).1] at heq
    exact heq
  have hlogics : logics = (layout ⟨n, 1⟩).logics := by
    apply place_injective (logicPart_injective ⟨n, 1⟩) (logicPart_ne ⟨n, 1⟩) hmost
      (layout ⟨n, 1⟩).most
    intro i hi
    have heq := hlogic i hi
    dsimp only [Ide.record] at heq
    rw [Function.update_self, h.lNo, (h.fresh n (Nat.le_refl n)).2] at heq
    exact heq
  subst hps hlogics
  have hfinds : Finds (disks ⟨n, 1⟩) s.extLbaBase base' (layout ⟨n, 1⟩).logics := by
    rw [h.lNo, Nat.zero_add] at hcases
    obtain ⟨holds, hl | hl⟩ | ⟨fills, hl⟩ := hcases
    · exact .inl ⟨holds, hl⟩
    · exact .inl ⟨holds, by rw [hl]; exact Nat.zero_lt_succ 7⟩
    · exact .inr ⟨fills, hl⟩
  obtain rfl := hfinds.base_after (layout ⟨n, 1⟩)
  refine ⟨by omega, ?_, h.record hlists⟩
  rw [← h.base]
  exact (found_iff _ _).mpr hfinds

/-! ## All channels -/

theorem Scanned.andThen_mono {a a' : Scanned} {next next' : Ide → Scanned}
    (ha : ∀ r, a = some r → a' = some r) (hnext : ∀ s r, next s = some r → next' s = some r)
    {r : Except Fault Ide} (h : a.andThen next = some r) : a'.andThen next' = some r := by
  match a, ha, h with
  | some (.ok t), ha, h =>
    rw [ha _ rfl]
    exact hnext t r h
  | some (.error fault), ha, h =>
    rw [ha _ rfl]
    exact h

theorem initDrive_mono {levels' : Nat} (hle : levels ≤ levels') {hd : Drive} {r : Except Fault Ide}
    (h : initDrive disks levels hd s = some r) : initDrive disks levels' hd s = some r := by
  refine Scanned.andThen_mono ?_ (fun _ _ => id) h
  intro r hr
  split at hr
  · rename_i hdev
    rw [if_pos hdev]
    exact partitionScan_mono hle hr
  · rename_i hdev
    rw [if_neg hdev]
    exact hr

theorem initChannel_mono {levels' : Nat} (hle : levels ≤ levels') {r : Except Fault Ide}
    (h : initChannel disks levels n s = some r) : initChannel disks levels' n s = some r := by
  unfold initChannel at h ⊢
  split at h
  · rename_i hn
    rw [if_pos hn]
    exact Scanned.andThen_mono (fun r => initDrive_mono hle) (fun s r => initDrive_mono hle) h
  · rename_i hn
    rw [if_neg hn]
    exact h

theorem initChannels_mono {levels' : Nat} (hle : levels ≤ levels') {r : Except Fault Ide}
    (h : initChannels disks levels n s = some r) : initChannels disks levels' n s = some r := by
  induction n generalizing r with
  | zero => exact h
  | succ n ih => exact Scanned.andThen_mono (fun r => ih) (fun s r => initChannel_mono hle) h

/-- THE RUN: while the partitions are found the channels are recorded. -/
theorem initChannels_inited (hn : n ≤ 2) (three : ∀ c < n, (prims disks ⟨c, 1⟩).length < 4)
    (found : ∀ c < n, Found (layout ⟨c, 1⟩) (baseBefore disks layout c)) :
    ∃ levels s, initChannels disks levels n Ide.init = some (.ok s) ∧ Inited disks layout n s := by
  induction n with
  | zero => exact ⟨0, Ide.init, rfl, inited_zero⟩
  | succ n ih =>
    obtain ⟨levels, s, hrun, hs⟩ :=
      ih (by omega) (fun c hc => three c (by omega)) (fun c hc => found c (by omega))
    obtain ⟨levels', s', hscan, hs'⟩ := hs.scan (three n (by omega)) (found n (by omega))
    refine ⟨max levels levels', s'.restart, ?_, hs'⟩
    rw [initChannels, initChannels_mono (Nat.le_max_left _ _) hrun]
    show initChannel disks (max levels levels') n s = _
    rw [initChannel_eq (by omega) hs.restart, partitionScan_mono (Nat.le_max_right _ _) hscan]
    rfl

/-- A channel does not touch what is recorded of the others. -/
theorem initChannel_others {hd : Drive} (hne : hd ≠ ⟨n, 1⟩)
    (h : initChannel disks levels n s = some (.ok s')) :
    s'.primParts hd = s.primParts hd ∧ s'.logicParts hd = s.logicParts hd := by
  unfold initChannel at h
  split at h
  · obtain ⟨t, hfirst, hsecond⟩ := Scanned.andThen_ok h
    cases hfirst
    obtain ⟨t', hscan, hrestart⟩ := Scanned.andThen_ok hsecond
    cases hrestart
    obtain ⟨-, base', ps, logics, refs, rfl, -⟩ :=
      partitionScan_scans ⟨Nat.zero_lt_succ 3, Nat.zero_le 8⟩ hscan
    dsimp only [Ide.record, Ide.restart]
    rw [Function.update_of_ne hne, Function.update_of_ne hne]
    exact ⟨rfl, rfl⟩
  · cases h

/-- And when they are recorded as they are, they were found. -/
theorem found_of_recorded (hrun : initChannels disks levels n Ide.init = some (.ok s))
    (hprim : ∀ c < n, ∀ i < 4, s.primParts ⟨c, 1⟩ i = primArray ⟨c, 1⟩ (prims disks ⟨c, 1⟩) i)
    (hlogic : ∀ c < n, ∀ i < 8, s.logicParts ⟨c, 1⟩ i = logicArray ⟨c, 1⟩
      (layout ⟨c, 1⟩).logics i) :
    n ≤ 2 ∧ (∀ c < n, (prims disks ⟨c, 1⟩).length < 4 ∧
      Found (layout ⟨c, 1⟩) (baseBefore disks layout c)) ∧
      Inited disks layout n s := by
  induction n generalizing s with
  | zero =>
    cases hrun
    exact ⟨Nat.zero_le 2, fun c hc => absurd hc (Nat.not_lt_zero c), inited_zero⟩
  | succ n ih =>
    obtain ⟨t, hrun, hchannel⟩ := Scanned.andThen_ok hrun
    have other : ∀ c < n, t.primParts ⟨c, 1⟩ = s.primParts ⟨c, 1⟩ ∧
        t.logicParts ⟨c, 1⟩ = s.logicParts ⟨c, 1⟩ := by
      intro c hc
      have hne : (⟨c, 1⟩ : Drive) ≠ ⟨n, 1⟩ := by
        intro heq
        injection heq with heq
        omega
      obtain ⟨hp, hl⟩ := initChannel_others hne hchannel
      exact ⟨hp.symm, hl.symm⟩
    obtain ⟨-, hfound, ht⟩ :=
      ih hrun (fun c hc i hi => by rw [(other c hc).1]; exact hprim c (by omega) i hi)
      (fun c hc i hi => by rw [(other c hc).2]; exact hlogic c (by omega) i hi)
    have hn : n < 2 := by
      by_contra hn
      unfold initChannel at hchannel
      rw [if_neg hn] at hchannel
      cases hchannel
    rw [initChannel_eq hn ht.restart] at hchannel
    obtain ⟨s', hscan, hrestart⟩ := Scanned.andThen_ok hchannel
    cases hrestart
    obtain ⟨three, found, hs⟩ := ht.found hscan (hprim n (by omega)) (hlogic n (by omega))
    refine ⟨hn, ?_, hs⟩
    intro c hc
    obtain hlt | rfl := Nat.lt_or_eq_of_le (Nat.lt_succ_iff.mp hc)
    · exact hfound c hlt
    · exact ⟨three, found⟩

end

/-- What has to hold for the partitions to be recorded as they are. -/
theorem scannable_of_correct {disks : Drive → Sectors} {layout : ∀ hd, Layout (disks hd)}
    {hdCnt : Byte} (h : InitCorrect disks layout hdCnt) : Scannable disks layout hdCnt := by
  obtain ⟨levels, s, hinit, hs⟩ := h
  unfold ideInit at hinit
  split at hinit
  · rename_i u hassert
    obtain ⟨hn, hfound, -⟩ := found_of_recorded hinit hs.prim hs.logic
    exact ⟨assertThat_ok hassert, hn, fun c hc => (hfound c hc).1, fun c hc => (hfound c hc).2⟩
  · cases hinit

/-- PARTITION SCANNING IS CORRECT for just these disks. -/
theorem init_correct_iff (disks : Drive → Sectors) (layout : ∀ hd, Layout (disks hd))
    (hdCnt : Byte) : InitCorrect disks layout hdCnt ↔ Scannable disks layout hdCnt := by
  constructor
  · exact scannable_of_correct
  · intro h
    obtain ⟨levels, s, hrun, hs⟩ := initChannels_inited h.channels h.three h.found
    refine ⟨levels, s, ?_, hs.recorded⟩
    unfold ideInit
    rw [assertThat_of h.some]
    exact hrun

/-- A disk with an extended partition at sector 10, and one logical partition of 50 sectors in it.
-/
def oneLogical : Sectors := fun lba off =>
  if lba = 0 then if off = 450 then 0x5 else if off = 454 then 10 else if off = 458 then 100 else 0
  else if lba = 10 then if off = 450 then 0x83 else if off = 454 then 1
  else if off = 458 then 50 else 0
  else 0

def oneLogicalLayout : Layout oneLogical where
  ext := some 10
  tables := [10]
  logics := [(11, 50)]
  wellFormed := by
    have one : extendedOf (partitionTable oneLogical 0) = [⟨0x5, 10, 100⟩] := by decide
    have table : used (partitionTable oneLogical 10) = [⟨0x83, 1, 50⟩] := by decide
    exact .chain one (by decide) (.last table ⟨by decide, by decide⟩ (by decide)) (by decide)

/-- With two such disks the partition of the second is looked for at sector 20. -/
theorem second_extended : ¬ InitCorrect (fun _ => oneLogical) (fun _ => oneLogicalLayout) 4 := by
  intro h
  have hbase : baseBefore (fun _ => oneLogical) (fun _ => oneLogicalLayout) 1 = 10 := rfl
  have table : used (partitionTable oneLogical 20) = [] := by decide
  obtain ⟨hzero, -⟩ | ⟨-, -, ⟨holds, -⟩ | ⟨-, hlen⟩⟩ :=
    (scannable_of_correct h).found 1 (by decide) 10 rfl
  · rw [hbase] at hzero
    cases hzero
  · rw [hbase] at holds
    have hholds : Holds oneLogical 10 20 (partitionTable oneLogical 20) 10 [] [(11, 50)] := holds
    rw [← holds_used, table] at hholds
    cases hholds
  · cases hlen

end SeekingOs.Device
