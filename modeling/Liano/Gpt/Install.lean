import Mathlib.Logic.Function.Basic
import Liano.Gpt.Table

/-! The entries of a partition table, and the partitions of a disk (PartitionDxe/Gpt.c). -/
namespace Liano.Gpt
open Bytes

structure PartitionEntryStatus where
  outOfRange : Bool
  overlap : Bool
  osSpecific : Bool
deriving DecidableEq, Repr

section
variable (hdr partEntry : Bytes)

def readEntry (index offset len : Nat) : Except Fault Bytes :=
  if index * sizeOfPartitionEntry hdr + offset + len ≤ partEntry.length then
    .ok (slice partEntry (index * sizeOfPartitionEntry hdr + offset) len)
  else .error .outsideBuffer

def efiPartTypeUnusedGuid : Bytes := List.replicate 16 0

def isUnused (index : Nat) : Except Fault Bool := do
  let partitionTypeGuid ← readEntry hdr partEntry index 0 16
  .ok (partitionTypeGuid == efiPartTypeUnusedGuid)

def startingLba (index : Nat) : Except Fault Nat := do
  let field ← readEntry hdr partEntry index 32 8
  .ok (leValue field)

def endingLba (index : Nat) : Except Fault Nat := do
  let field ← readEntry hdr partEntry index 40 8
  .ok (leValue field)

def attributes (index : Nat) : Except Fault Nat := do
  let field ← readEntry hdr partEntry index 48 8
  .ok (leValue field)

abbrev EntryStatuses := Nat → PartitionEntryStatus

section
variable (pEntryStatus : EntryStatuses)

def setOutOfRange (index : Nat) : EntryStatuses :=
  Function.update pEntryStatus index { pEntryStatus index with outOfRange := true }

def setOverlap (index : Nat) : EntryStatuses :=
  Function.update pEntryStatus index { pEntryStatus index with overlap := true }

def setOsSpecific (index : Nat) : EntryStatuses :=
  Function.update pEntryStatus index { pEntryStatus index with osSpecific := true }

/-- The entry `index2` against the range of the entry `index1`. -/
def checkOverlap (index1 starting ending : Nat) (pEntryStatus : EntryStatuses)
    (index2 : Nat) : Except Fault EntryStatuses := do
  let unused ← isUnused hdr partEntry index2
  if unused then .ok pEntryStatus
  else
    let ending2 ← endingLba hdr partEntry index2
    if ending2 < starting then .ok pEntryStatus
    else
      let starting2 ← startingLba hdr partEntry index2
      if starting2 > ending then .ok pEntryStatus
      else .ok (setOverlap (setOverlap pEntryStatus index1) index2)

def isOutOfRange (hdr : Bytes) (starting ending : Nat) : Bool :=
  decide (starting > ending) || decide (starting < firstUsableLba hdr) || decide (starting > lastUsableLba hdr) ||
    decide (ending < firstUsableLba hdr) || decide (ending > lastUsableLba hdr)

def checkEntry (index1 : Nat) :
    Except Fault EntryStatuses := do
  let unused ← isUnused hdr partEntry index1
  if unused then .ok pEntryStatus
  else
    let starting ← startingLba hdr partEntry index1
    let ending ← endingLba hdr partEntry index1
    if isOutOfRange hdr starting ending then .ok (setOutOfRange pEntryStatus index1)
    else
      let attr ← attributes hdr partEntry index1
      (List.range' (index1+1) (numberOfPartitionEntries hdr - (index1+1))).foldlM
        (checkOverlap hdr partEntry index1 starting ending)
        (if attr &&& 2 ≠ 0 then setOsSpecific pEntryStatus index1 else pEntryStatus)

def partitionCheckGptEntry : Except Fault EntryStatuses :=
  (List.range (numberOfPartitionEntries hdr)).foldlM (checkEntry hdr partEntry) fun _ => ⟨false, false, false⟩

/-- What a child handle is made of: the hard drive device path, and the entry of the partition information. -/
structure ChildHandle where
  partitionNumber : Nat
  partitionStart : Nat
  partitionSize : Nat
  signature : Bytes
  gpt : Bytes
deriving DecidableEq, Repr

def childHandle (index : Nat) (entry : Bytes) : ChildHandle where
  partitionNumber := toUint32 (toUint32 index + 1)
  partitionStart := leValue (slice entry 32 8)
  partitionSize := toUint64 (leValue (slice entry 40 8) + 2^64 - leValue (slice entry 32 8) + 1)
  signature := slice entry 16 16
  gpt := entry

def PartitionEntryStatus.isFlagged (status : PartitionEntryStatus) : Bool :=
  status.outOfRange || status.overlap || status.osSpecific

def installEntry (handles : List ChildHandle)
    (index : Nat) : Except Fault (List ChildHandle) := do
  let unused ← isUnused hdr partEntry index
  if unused || (pEntryStatus index).isFlagged then .ok handles
  else
    let entry ← readEntry hdr partEntry index 0 entryStructSize
    .ok (handles ++ [childHandle index entry])

end

def installEntries : Except Fault (List ChildHandle) := do
  let pEntryStatus ← partitionCheckGptEntry hdr partEntry
  (List.range (numberOfPartitionEntries hdr)).foldlM (installEntry hdr partEntry pEntryStatus) []

end

/-- sizeof (MASTER_BOOT_RECORD) -/
def mbrSize : Nat := 512

/-- One of the four partitions of the protective MBR is that of the GPT. -/
def isProtective (mbr : Bytes) : Bool := (List.range 4).any fun index =>
    slice mbr (446 + 16*index) 1 == [0] && slice mbr (446 + 16*index + 4) 1 == [0xEE] &&
      leValue (slice mbr (446 + 16*index + 8) 4) == 1

def zeroHeader : Bytes := List.replicate headerStructSize 0

def findTable (dev : Device) (m : Media) : Except Fault (Option (Bytes × Media)) := do
  let (validPrimary,primary) ← partitionValidGptTable dev m.disk PRIMARY_PART_HEADER_LBA zeroHeader
  if !validPrimary then
    let (validBackup,backup) ← partitionValidGptTable dev m.disk dev.lastBlock zeroHeader
    if !validBackup then .ok none
    else
      let m := (partitionRestoreGptTable dev m backup).2
      let (_,primary) ← partitionValidGptTable dev m.disk (alternateLba backup) primary
      .ok (some (primary,m))
  else
    let (validBackup,backup) ← partitionValidGptTable dev m.disk (alternateLba primary) zeroHeader
    if validBackup then .ok (some (primary,m))
    else
      let m := (partitionRestoreGptTable dev m primary).2
      let _ ← partitionValidGptTable dev m.disk (alternateLba primary) backup
      .ok (some (primary,m))

/-- What a call leaves: its status, the child handles, and the header and the entries that they are from. -/
structure Discovery where
  status : EfiStatus
  handles : List ChildHandle
  header : Bytes
  entries : Bytes
  media : Media

def installTable (dev : Device) (hdr : Bytes) (m : Media) : Except Fault Discovery :=
  if !dev.allocates (arraySize hdr) then .ok ⟨.notFound, [], hdr, [], m⟩
  else
    match readDisk m.disk (dev.offsetOf (partitionEntryLba hdr)) (arraySize hdr) with
    | none => .ok ⟨.deviceError, [], hdr, [], m⟩
    | some partEntry =>
      if !dev.allocates (numberOfPartitionEntries hdr * 3) then .ok ⟨.notFound, [], hdr, partEntry, m⟩
      else do
        let handles ← installEntries hdr partEntry
        .ok ⟨.success, handles, hdr, partEntry, m⟩

def partitionInstallGptChildHandles (dev : Device) (m : Media) : Except Fault Discovery :=
  if dev.blockSize < mbrSize then .ok ⟨.notFound, [], [], [], m⟩
  else if !dev.allocates dev.blockSize then .ok ⟨.notFound, [], [], [], m⟩
  else
    match readDisk m.disk 0 dev.blockSize with
    | none => .ok ⟨.deviceError, [], [], [], m⟩
    | some protectiveMbr =>
      if !isProtective protectiveMbr || !dev.allocates headerStructSize then .ok ⟨.notFound, [], [], [], m⟩
      else do
        let table ← findTable dev m
        match table with
        | none => .ok ⟨.notFound, [], [], [], m⟩
        | some (hdr,m) => installTable dev hdr m

end Liano.Gpt
