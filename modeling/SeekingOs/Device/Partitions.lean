import Mathlib.Logic.Function.Basic
import SeekingOs.Device.Transfers

/-!
# `partition_scan` and `ide_init`

The entries of a table are recorded one after the other; at an extended one the scan goes on with
the table that it points at, and comes back. Three variables are shared by all levels and by all
disks: the address that the tables of logical partitions count from, and the two indices. Memory for
the tables and the stack for the levels are taken as there.

A scan may not come to an end, so it is given a number of levels.
-/

namespace SeekingOs.Device

open Lib

/-- `struct partition_table_entry`, without its heads and cylinders. -/
structure TableEntry where
  fsType : Byte
  startLba : Nat
  secCnt : Nat
  deriving DecidableEq, Repr

/-- The bytes of each sector of a disk. -/
abbrev Sectors := Nat → Nat → Byte

/-- A `uint32_t` in memory. -/
def word32 (sector : Nat → Byte) (off : Nat) : Nat :=
  (sector off).toNat + 2 ^ 8 * (sector (off + 1)).toNat + 2 ^ 16 * (sector (off + 2)).toNat +
    2 ^ 24 * (sector (off + 3)).toNat

/-- `partition_table[i]` of a `struct boot_sector` -/
def entryAt (sector : Nat → Byte) (i : Nat) : TableEntry :=
  ⟨sector (446 + 16 * i + 4), word32 sector (446 + 16 * i + 8), word32 sector (446 + 16 * i + 12)⟩

/-- `partition_table` -/
def partitionTable (disk : Sectors) (lba : Nat) : List TableEntry :=
  (List.range 4).map (entryAt (disk lba))

/-- Where a drive is. -/
structure Drive where
  channelNo : Nat
  devNo : Nat
  deriving DecidableEq, Repr

/-- `sprintf(hd->name, "sd%c", 'a' + channel_no * 2 + dev_no)` -/
def Drive.name (hd : Drive) : String :=
  "sd" ++ Char.toString (Char.ofNat (97 + hd.channelNo * 2 + hd.devNo))

/-- `struct partition`, as far as a scan fills it in. -/
structure Part where
  startLba : Nat
  secCnt : Nat
  mydisk : Option Drive
  name : String
  deriving DecidableEq, Repr

/-- What a partition is before. -/
def Part.zero : Part := ⟨0, 0, none, ""⟩

/-- An element of `partition_list`: a primary or a logical partition of a drive. -/
structure PartRef where
  drive : Drive
  logic : Bool
  idx : Nat
  deriving DecidableEq, Repr

/-- The variables of the driver. -/
structure Ide where
  extLbaBase : Nat
  pNo : Nat
  lNo : Nat
  primParts : Drive → Nat → Part
  logicParts : Drive → Nat → Part
  partitionList : List PartRef

/-- What a scan answers: `none` when the levels were not enough. -/
abbrev Scanned := Option (Except Fault Ide)

/-- One thing after the other. -/
def Scanned.andThen (r : Scanned) (next : Ide → Scanned) : Scanned :=
  match r with
  | some (.ok s) => next s
  | some (.error fault) => some (.error fault)
  | none => none

/-- The name of a partition: `"%s%d"`. -/
def partName (hd : Drive) (no : Nat) : String := hd.name ++ toString no

/-- What is recorded of a primary partition. -/
def primPart (hd : Drive) (i : Nat) (part : Nat × Nat) : Part :=
  ⟨part.1, part.2, some hd, partName hd (i + 1)⟩

/-- What is recorded of a logical one. -/
def logicPart (hd : Drive) (i : Nat) (part : Nat × Nat) : Part :=
  ⟨part.1, part.2, some hd, partName hd (i + 5)⟩

namespace Ide

/-- A primary partition is recorded. -/
def addPrim (hd : Drive) (part : Nat × Nat) (s : Ide) : Scanned := some do
  if s.pNo < 4 then
    let s := { s with
      primParts :=
        Function.update s.primParts hd
          (Function.update (s.primParts hd) s.pNo (primPart hd s.pNo part))
      partitionList := s.partitionList ++ [⟨hd, false, s.pNo⟩]
      pNo := s.pNo + 1 }
    assertThat false (s.pNo < 4) "partition_scan" "p_no < 4"
    return s
  else throw (.outOfBounds "partition_scan")

/-- A logical partition is recorded. -/
def addLogic (hd : Drive) (part : Nat × Nat) (s : Ide) : Scanned :=
  if s.lNo < 8 then
    some (.ok { s with
      logicParts :=
        Function.update s.logicParts hd
          (Function.update (s.logicParts hd) s.lNo (logicPart hd s.lNo part))
      partitionList := s.partitionList ++ [⟨hd, true, s.lNo⟩]
      lNo := s.lNo + 1 })
  else some (.error (.outOfBounds "partition_scan"))

end Ide

/-- The loop of `partition_scan`, with `scan` for the levels below. -/
def scanEntries (hd : Drive) (scan : Nat → Ide → Scanned) (extLba : Nat) :
    List TableEntry → Ide → Scanned
  | [], s => some (.ok s)
  | p :: rest, s =>
    if p.fsType = 0x5 then
      (if s.extLbaBase ≠ 0 then scan (u32 (p.startLba + s.extLbaBase : Nat)) s
        else scan p.startLba { s with extLbaBase := p.startLba }).andThen (scanEntries hd
          scan extLba rest)
    else if p.fsType ≠ 0 then
      if extLba = 0 then
        (s.addPrim hd (u32 (extLba + p.startLba : Nat), p.secCnt)).andThen
          (scanEntries hd scan extLba rest)
      else (s.addLogic hd (u32 (extLba + p.startLba : Nat), p.secCnt)).andThen fun s =>
        if 8 ≤ s.lNo then some (.ok s) else scanEntries hd scan extLba rest s
    else scanEntries hd scan extLba rest s

/-- `partition_scan` -/
def partitionScan (hd : Drive) (disk : Sectors) : Nat → Nat → Ide → Scanned
  | 0, _, _ => none
  | levels + 1, extLba, s =>
    match ideRead (fun _ => true) ⟨hd.name, hd.devNo⟩ extLba 0 1 with
    | .error fault => some (.error fault)
    | .ok _ => scanEntries hd (partitionScan hd disk levels) extLba (partitionTable disk extLba) s

/-! ## What the tables of a disk hold -/

/-- The table that an extended entry points at. -/
def TableEntry.target (p : TableEntry) (base : Nat) : Nat :=
  if base ≠ 0 then u32 (p.startLba + base : Nat) else p.startLba

/-- The address that the tables count from, from there on. -/
def TableEntry.newBase (p : TableEntry) (base : Nat) : Nat := if base ≠ 0 then base else p.startLba

/-- The start and the size of a partition in the table at `lba`. -/
def TableEntry.part (p : TableEntry) (lba : Nat) : Nat × Nat :=
  (u32 (lba + p.startLba : Nat), p.secCnt)

/-- An entry for a partition that is not extended. -/
def TableEntry.Plain (p : TableEntry) : Prop := p.fsType ≠ 0x5 ∧ p.fsType ≠ 0

instance (p : TableEntry) : Decidable p.Plain :=
  inferInstanceAs (Decidable (p.fsType ≠ 0x5 ∧ p.fsType ≠ 0))

/-- The entries of the table at `lba` and the tables below, finitely many and all in reach, hold
these primary and these logical partitions; `base` and `base'` are where the tables count from,
before and after. -/
inductive Holds (disk : Sectors) : Nat → Nat → List TableEntry → Nat → List (Nat × Nat) →
    List (Nat × Nat) → Prop where
  | nil (base lba : Nat) : Holds disk base lba [] base [] []
  | unused {base lba base' : Nat} {p : TableEntry} {es : List TableEntry}
      {prims logics : List (Nat × Nat)} (free : p.fsType = 0)
      (rest : Holds disk base lba es base' prims logics) :
        Holds disk base lba (p :: es) base' prims logics
  | primary {base base' : Nat} {p : TableEntry} {es : List TableEntry}
      {prims logics : List (Nat × Nat)} (plain : p.Plain)
      (rest : Holds disk base 0 es base' prims logics) :
        Holds disk base 0 (p :: es) base' (p.part 0 :: prims) logics
  | logical {base lba base' : Nat} {p : TableEntry} {es : List TableEntry}
      {prims logics : List (Nat × Nat)} (plain : p.Plain) (below : lba ≠ 0)
      (rest : Holds disk base lba es base' prims logics) :
        Holds disk base lba (p :: es) base' prims (p.part lba :: logics)
  | extended {base lba base' base'' : Nat} {p : TableEntry} {es : List TableEntry}
      {prims logics prims' logics' : List (Nat × Nat)}
      (ext : p.fsType = 0x5) (reach : p.target base < maxLba)
      (inner : Holds disk (p.newBase base) (p.target base) (partitionTable disk (p.target base))
        base' prims logics)
      (rest : Holds disk base' lba es base'' prims' logics') :
      Holds disk base lba (p :: es) base'' (prims ++ prims') (logics ++ logics')

/-- These are the partitions up to the last of `logics`, and but for the entries behind that in its
own table there are only primary ones behind it. -/
inductive Fills (disk : Sectors) : Nat → Nat → List TableEntry → Nat → List (Nat × Nat) →
    List (Nat × Nat) → Prop where
  | last {base lba : Nat} {p : TableEntry} {es : List TableEntry} (plain : p.Plain)
      (below : lba ≠ 0) :
      Fills disk base lba (p :: es) base [] [p.part lba]
  | unused {base lba base' : Nat} {p : TableEntry} {es : List TableEntry}
      {prims logics : List (Nat × Nat)} (free : p.fsType = 0)
      (rest : Fills disk base lba es base' prims logics) :
        Fills disk base lba (p :: es) base' prims logics
  | primary {base base' : Nat} {p : TableEntry} {es : List TableEntry}
      {prims logics : List (Nat × Nat)} (plain : p.Plain)
      (rest : Fills disk base 0 es base' prims logics) :
        Fills disk base 0 (p :: es) base' (p.part 0 :: prims) logics
  | logical {base lba base' : Nat} {p : TableEntry} {es : List TableEntry}
      {prims logics : List (Nat × Nat)} (plain : p.Plain) (below : lba ≠ 0)
      (rest : Fills disk base lba es base' prims logics) :
        Fills disk base lba (p :: es) base' prims (p.part lba :: logics)
  | before {base lba base' base'' : Nat} {p : TableEntry} {es : List TableEntry}
      {prims logics prims' logics' : List (Nat × Nat)}
      (ext : p.fsType = 0x5) (reach : p.target base < maxLba)
      (inner : Holds disk (p.newBase base) (p.target base) (partitionTable disk (p.target base))
        base' prims logics)
      (rest : Fills disk base' lba es base'' prims' logics') :
      Fills disk base lba (p :: es) base'' (prims ++ prims') (logics ++ logics')
  | inside {base lba base' base'' : Nat} {p : TableEntry} {es : List TableEntry}
      {prims logics prims' : List (Nat × Nat)}
      (ext : p.fsType = 0x5) (reach : p.target base < maxLba)
      (inner : Fills disk (p.newBase base) (p.target base) (partitionTable disk (p.target base))
        base' prims logics)
      (rest : Holds disk base' lba es base'' prims' []) :
        Fills disk base lba (p :: es) base'' (prims ++ prims') logics

end SeekingOs.Device
