import Liano.Efi
import Liano.Lib.Bytes

/-! The partition table header and the partition entry array on a disk: validating a table and restoring its
copy (PartitionDxe/Gpt.c). -/
namespace Liano.Gpt
open Bytes

/-- What ends the program: a division by zero, or an access outside the buffer of the partition entries. -/
inductive Fault
  | divideByZero
  | outsideBuffer
deriving DecidableEq, Repr

/-- One bit of the CRC of ITU-T V.42. -/
def crcBit (crc : Nat) : Nat := if crc % 2 = 1 then (crc >>> 1) ^^^ 0xEDB88320 else crc >>> 1

def mCrcTable (index : Nat) : Nat := (List.range 8).foldl (fun crc _ => crcBit crc) index

def calculateCrc32 (buffer : Bytes) : Nat :=
  buffer.foldl (fun crc byte => (crc >>> 8) ^^^ mCrcTable (crc % 256 ^^^ byte.toNat)) 0xffffffff ^^^ 0xffffffff

/-- The parent device. `allocates` tells for which sizes there is room in the pool. -/
structure Device where
  blockSize : Nat
  lastBlock : Nat
  allocates : Nat → Bool

inductive WriteOutcome
  | done
  | failed (written : Nat)
deriving DecidableEq, Repr

/-- The contents of the disk, and the outcomes of the coming writes, which succeed behind the end of the list. -/
structure Media where
  disk : Bytes
  writes : List WriteOutcome
deriving DecidableEq, Repr

def readDisk (disk : Bytes) (offset bufferSize : Nat) : Option Bytes :=
  if offset+bufferSize ≤ disk.length then some (slice disk offset bufferSize) else none

def writeDisk (m : Media) (offset : Nat) (buffer : Bytes) : Bool × Media :=
  if offset+buffer.length > m.disk.length then (false,m)
  else
    match m.writes.headD .done with
    | .done => (true, ⟨patch m.disk offset buffer, m.writes.tail⟩)
    | .failed written => (false, ⟨patch m.disk offset (buffer.take written), m.writes.tail⟩)

/-- Where a block starts: MultU64x32. -/
def Device.offsetOf (dev : Device) (lba : Nat) : Nat := toUint64 (lba*dev.blockSize)

def efiPtabHeaderId : Bytes := [0x45, 0x46, 0x49, 0x20, 0x50, 0x41, 0x52, 0x54]

def PRIMARY_PART_HEADER_LBA : Nat := 1

/-- The size of EFI_PARTITION_TABLE_HEADER. -/
def headerStructSize : Nat := 92

/-- The size of EFI_PARTITION_ENTRY. -/
def entryStructSize : Nat := 128

section
variable (hdr : Bytes)

def signature : Bytes := slice hdr 0 8

def headerSize : Nat := leValue (slice hdr 12 4)

def headerCrc32 : Nat := leValue (slice hdr 16 4)

def myLba : Nat := leValue (slice hdr 24 8)

def alternateLba : Nat := leValue (slice hdr 32 8)

def firstUsableLba : Nat := leValue (slice hdr 40 8)

def lastUsableLba : Nat := leValue (slice hdr 48 8)

def partitionEntryLba : Nat := leValue (slice hdr 72 8)

def numberOfPartitionEntries : Nat := leValue (slice hdr 80 4)

def sizeOfPartitionEntry : Nat := leValue (slice hdr 84 4)

def partitionEntryArrayCrc32 : Nat := leValue (slice hdr 88 4)

/-- The size of the partition entry array as the product of two UINT32. -/
def arraySize : Nat := toUint32 (numberOfPartitionEntries hdr * sizeOfPartitionEntry hdr)

/-- PartitionCheckCrc: the CRC field counts as zero. -/
def partitionCheckCrc (maxSize : Nat) (hdr : Bytes) : Bool :=
  headerSize hdr != 0 && !(maxSize != 0 && decide (headerSize hdr > maxSize)) &&
    headerCrc32 hdr == calculateCrc32 ((patch hdr 16 [0, 0, 0, 0]).take (headerSize hdr))

def readEntryArray (dev : Device) (disk hdr : Bytes) : Option Bytes :=
  if dev.allocates (arraySize hdr) then readDisk disk (dev.offsetOf (partitionEntryLba hdr)) (arraySize hdr)
  else none

/-- CalculateCrc32 fails for an empty buffer. -/
def partitionCheckGptEntryArrayCRC (dev : Device) (disk hdr : Bytes) : Bool :=
  match readEntryArray dev disk hdr with
  | none => false
  | some array => array.length != 0 && partitionEntryArrayCrc32 hdr == calculateCrc32 array

def divU64x32 (dividend divisor : Nat) : Except Fault Nat :=
  if divisor = 0 then .error .divideByZero else .ok (dividend / divisor)

def maxUintn : Nat := 2^64-1

/-- The header is copied to `partHeader` before the partition entry array is checked. -/
def partitionValidGptTable (dev : Device) (disk : Bytes) (lba : Nat) (partHeader : Bytes) :
    Except Fault (Bool × Bytes) := if !dev.allocates dev.blockSize then .ok (false,partHeader)
  else
    match readDisk disk (dev.offsetOf lba) dev.blockSize with
    | none => .ok (false,partHeader)
    | some partHdr =>
      if signature partHdr ≠ efiPtabHeaderId ∨ partitionCheckCrc dev.blockSize partHdr = false ∨
          myLba partHdr ≠ lba ∨ sizeOfPartitionEntry partHdr < entryStructSize then
        .ok (false,partHeader)
      else do
        let quotient ← divU64x32 maxUintn (sizeOfPartitionEntry partHdr)
        if numberOfPartitionEntries partHdr > quotient then .ok (false,partHeader)
        else
          .ok (partitionCheckGptEntryArrayCRC dev disk (partHdr.take headerStructSize),
            partHdr.take headerStructSize)

def partitionSetCrc : Bytes :=
  patch hdr 16 (leBytes 4 (calculateCrc32 ((patch hdr 16 [0, 0, 0, 0]).take (headerSize hdr))))

end

/-- The LBA of the partition entries of the copy. -/
def pEntryLba (partHeader : Bytes) : Nat :=
  if myLba partHeader = PRIMARY_PART_HEADER_LBA then toUint64 (lastUsableLba partHeader + 1)
  else PRIMARY_PART_HEADER_LBA+1

def restoredHeader (dev : Device) (partHeader : Bytes) : Bytes := partitionSetCrc
    (patch (patch (patch (partHeader ++ List.replicate (dev.blockSize-headerStructSize) 0)
      24 (leBytes 8 (alternateLba partHeader))) 32 (leBytes 8 (myLba partHeader)))
      72 (leBytes 8 (pEntryLba partHeader)))

def partitionRestoreGptTable (dev : Device) (m : Media) (partHeader : Bytes) : Bool × Media :=
  if !dev.allocates dev.blockSize then (false,m)
  else
    let (written,m) := writeDisk m (dev.offsetOf (alternateLba partHeader)) (restoredHeader dev partHeader)
    if !written then (false,m)
    else
      match readEntryArray dev m.disk partHeader with
      | none => (false,m)
      | some array => writeDisk m (dev.offsetOf (pEntryLba partHeader)) array

end Liano.Gpt
