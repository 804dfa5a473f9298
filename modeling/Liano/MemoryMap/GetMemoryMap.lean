import Liano.Gcd.ConvertSpace

/-! `Page.c`: `CoreGetMemoryMap` and the merges of its descriptors. -/
namespace Liano.MemoryMap

open Liano.Lib Liano.Gcd

def efiReservedMemoryType : Nat := 0
def efiConventionalMemory : Nat := 7
def efiMemoryMappedIo : Nat := 11
def efiMemoryMappedIoPortSpace : Nat := 12
def efiPersistentMemory : Nat := 14
def efiMaxMemoryType : Nat := 15

def efiMemoryNv : BitVec 64 := 0x8000

structure PageAttributes where
  type : Nat
  attributes : BitVec 64
deriving DecidableEq, Repr

/-- `MEMORY_MAP`; `VirtualStart` is zero. -/
abbrev MemoryMapEntry := Segment PageAttributes

structure EfiMemoryDescriptor where
  type : Nat
  physicalStart : Nat
  virtualStart : Nat
  numberOfPages : Nat
  attributes : BitVec 64
deriving DecidableEq, Repr

/-- `EFI_MEMORY_TYPE_STATISTICS`, without what only the page allocator reads. -/
structure EfiMemoryTypeStatistics where
  baseAddress : Nat
  maximumAddress : Nat
  numberOfPages : Nat
  special : Bool
  runtime : Bool
deriving DecidableEq, Repr

/-- The state that `CoreGetMemoryMap` reads. `guardedFreePages` is the bitmap of the freed-memory
guard, `none` where that guard is off. -/
structure MemoryServices where
  gMemoryMap : List MemoryMapEntry
  mGcdMemorySpaceMap : List GcdMapEntry
  mMemoryTypeStatistics : Nat → EfiMemoryTypeStatistics
  mMemoryMapKey : Nat
  guardedFreePages : Option (Nat → Bool)

def efiPagesToSize (pages : Nat) : Nat := toUint64 (pages*efiPageSize)

/-- The pages from `baseAddress` to `endAddress`. -/
def pagesBetween (baseAddress endAddress : Nat) : Nat :=
  toUint64 (endAddress + (2^64-baseAddress) + 1) / efiPageSize

def inBin (s : EfiMemoryTypeStatistics) (e : MemoryMapEntry) : Bool :=
  s.special && decide (s.numberOfPages > 0) && decide (e.baseAddress ≥ s.baseAddress) &&
    decide (e.endAddress ≤ s.maximumAddress)

def binType (statistics : Nat → EfiMemoryTypeStatistics) (e : MemoryMapEntry) : Nat :=
  if e.value.type = efiConventionalMemory then
    (List.range efiMaxMemoryType).foldl
      (fun type t => if inBin (statistics t) e then t else type) e.value.type
  else e.value.type

def runtimeType (statistics : Nat → EfiMemoryTypeStatistics) (type : Nat) : Bool :=
  decide (type < efiMaxMemoryType) && (statistics type).runtime

/-- The descriptor of an entry of `gMemoryMap`. -/
def entryDescriptor (statistics : Nat → EfiMemoryTypeStatistics) (e : MemoryMapEntry) :
    EfiMemoryDescriptor where
  type := binType statistics e
  physicalStart := e.baseAddress
  virtualStart := 0
  numberOfPages := pagesBetween e.baseAddress e.endAddress
  attributes := if runtimeType statistics (binType statistics e) then e.value.attributes ||| efiMemoryRuntime
    else e.value.attributes

def isReservedOrRuntimeMmio (d : GcdDescriptor) : Bool := d.gcdMemoryType == .reserved ||
    (d.gcdMemoryType == .memoryMappedIo && d.attributes &&& efiMemoryRuntime == efiMemoryRuntime)

/-- The entries that `NumberOfEntries` counts. -/
def isCounted (d : GcdDescriptor) : Bool := d.gcdMemoryType == .persistent || isReservedOrRuntimeMmio d

def reportedCapabilities : BitVec 64 :=
  efiMemoryRp ||| efiMemoryWp ||| efiMemoryXp ||| efiMemoryRo ||| efiMemoryUc ||| efiMemoryUce |||
    efiMemoryWc ||| efiMemoryWt ||| efiMemoryWb

/-- The type and the attributes that a range of the GCD map is reported with, if it is. -/
def gcdAttributes (d : GcdDescriptor) : Option PageAttributes := if isReservedOrRuntimeMmio d then
    some {
      type := if d.gcdMemoryType = .reserved then efiReservedMemoryType
        else if d.attributes &&& efiMemoryPortIo == efiMemoryPortIo then efiMemoryMappedIoPortSpace
        else efiMemoryMappedIo
      attributes := (d.attributes &&& ~~~efiMemoryPortIo) ||| (d.capabilities &&& reportedCapabilities) }
  else if d.gcdMemoryType = .persistent then
    some {
      type := efiPersistentMemory
      attributes := d.attributes ||| efiMemoryNv ||| (d.capabilities &&& reportedCapabilities) }
  else none

def gcdDescriptor (e : GcdMapEntry) (v : PageAttributes) : EfiMemoryDescriptor :=
  ⟨v.type, e.baseAddress, 0, pagesBetween e.baseAddress e.endAddress, v.attributes⟩

def mergeMemoryMapDescriptor : List EfiMemoryDescriptor → EfiMemoryDescriptor → List EfiMemoryDescriptor
  | [], descriptor => [descriptor]
  | memoryMap :: rest, descriptor =>
    if memoryMap.type ≠ descriptor.type ∨ memoryMap.attributes ≠ descriptor.attributes then
      memoryMap :: mergeMemoryMapDescriptor rest descriptor
    else if toUint64 (memoryMap.physicalStart + efiPagesToSize memoryMap.numberOfPages) =
        descriptor.physicalStart then
      { memoryMap with
        numberOfPages := toUint64 (memoryMap.numberOfPages+descriptor.numberOfPages) } :: rest
    else if toUint64 (memoryMap.physicalStart +
        (2^64 - efiPagesToSize descriptor.numberOfPages)) = descriptor.physicalStart then
      { memoryMap with
        physicalStart := descriptor.physicalStart
        virtualStart := descriptor.virtualStart
        numberOfPages := toUint64 (memoryMap.numberOfPages+descriptor.numberOfPages) } :: rest
    else memoryMap :: mergeMemoryMapDescriptor rest descriptor

/-- The guarded pages from `address` on, `pages` of them at most. -/
def guardedRun (guarded : Nat → Bool) : Nat → Nat → Nat
  | 0, _ => 0
  | pages+1, address => if guarded address then guardedRun guarded pages (address+efiPageSize) + 1 else 0

def mergeGuardPages (guardedFreePages : Option (Nat → Bool)) (entry : EfiMemoryDescriptor)
    (maxAddress : Nat) : EfiMemoryDescriptor := match guardedFreePages with
  | none => entry
  | some guarded =>
    if entry.type ≥ efiMemoryMappedIo then entry
    else
      let size := toUint64 (maxAddress + (2^64-entry.physicalStart))
      let pages := (size + (efiPageSize-1)) / efiPageSize - entry.numberOfPages
      { entry with
        numberOfPages := entry.numberOfPages + guardedRun guarded pages
          (entry.physicalStart + efiPagesToSize entry.numberOfPages) }

/-- The loops of `MergeMemoryMap`, with `NewMemoryMapEntry` before the entries left. `behind` is what
is read as `PhysicalStart` behind the last one. -/
def mergeEntries (guardedFreePages : Option (Nat → Bool)) (behind : Nat) :
    EfiMemoryDescriptor → List EfiMemoryDescriptor → List EfiMemoryDescriptor
  | newEntry, [] => [mergeGuardPages guardedFreePages newEntry behind]
  | newEntry, nextEntry :: rest =>
    let newEntry := mergeGuardPages guardedFreePages newEntry nextEntry.physicalStart
    if newEntry.type = nextEntry.type ∧ newEntry.attributes = nextEntry.attributes ∧
        toUint64 (newEntry.physicalStart + efiPagesToSize newEntry.numberOfPages) =
          nextEntry.physicalStart then
      mergeEntries guardedFreePages behind
        { newEntry with
          numberOfPages := toUint64 (newEntry.numberOfPages+nextEntry.numberOfPages) } rest
    else newEntry :: mergeEntries guardedFreePages behind nextEntry rest

def mergeMemoryMap (guardedFreePages : Option (Nat → Bool)) (behind : Nat) :
    List EfiMemoryDescriptor → List EfiMemoryDescriptor
  | [] => []
  | entry :: rest => mergeEntries guardedFreePages behind entry rest

/-- A descriptor written behind the map and merged into it; `none` where there is no slot for it. -/
def putDescriptor (slots : Nat) (map : List EfiMemoryDescriptor) (d : EfiMemoryDescriptor) :
    Option (List EfiMemoryDescriptor) :=
  if map.length < slots then some (mergeMemoryMapDescriptor map d) else none

/-- The loop over `gMemoryMap`. -/
def putEntries (statistics : Nat → EfiMemoryTypeStatistics) (slots : Nat) :
    List MemoryMapEntry → List EfiMemoryDescriptor → Option (List EfiMemoryDescriptor)
  | [], map => some map
  | e :: es, map =>
    (putDescriptor slots map (entryDescriptor statistics e)).bind
      (putEntries statistics slots es)

def putGcdEntry (slots : Nat) (e : GcdMapEntry) (map : List EfiMemoryDescriptor) :
    Option (List EfiMemoryDescriptor) := match gcdAttributes e.value with
  | some v => putDescriptor slots map (gcdDescriptor e v)
  | none => some map

def sameGcd (d e : GcdDescriptor) : Bool :=
  d.capabilities == e.capabilities && d.attributes == e.attributes &&
    d.gcdMemoryType == e.gcdMemoryType && d.gcdIoType == e.gcdIoType

/-- The loop over the GCD map, with `MergeGcdMapEntry`. -/
def putGcdEntries (slots : Nat) : GcdMapEntry → List GcdMapEntry → List EfiMemoryDescriptor →
    Option (List EfiMemoryDescriptor)
  | merge, [], map => putGcdEntry slots merge map
  | merge, e :: es, map =>
    if sameGcd merge.value e.value then
      putGcdEntries slots { merge with endAddress := e.endAddress } es map
    else (putGcdEntry slots merge map).bind (putGcdEntries slots e es)

/-- `MergeGcdMapEntry` before the loop. -/
def zeroGcdMapEntry : GcdMapEntry := ⟨0, 0, ⟨0, 0, .nonExistent, .nonExistent, none, none⟩⟩

def clearedAttributes : BitVec 64 := efiMemoryRp ||| efiMemoryRo ||| efiMemoryXp

def clearPaging (d : EfiMemoryDescriptor) : EfiMemoryDescriptor :=
  { d with attributes := d.attributes &&& ~~~clearedAttributes }

/-- `Size`, which is not the size of an `EFI_MEMORY_DESCRIPTOR`. -/
def descriptorSize : Nat := 40 + (8 - 40 % 8)

/-- What a call returns; `memoryMap` is the map in the buffer, where there is one. -/
structure MemoryMapResult where
  status : EfiStatus
  memoryMapSize : Option Nat
  memoryMap : List EfiMemoryDescriptor
  mapKey : Option Nat
deriving DecidableEq, Repr

def neededSlots (m : MemoryServices) : Nat :=
  (m.mGcdMemorySpaceMap.filter fun e => isCounted e.value).length + m.gMemoryMap.length

/-- `CoreGetMemoryMap`. `memoryMapSize` is `none` for `NULL`; `hasBuffer` says that `MemoryMap` is not
`NULL`. There is no result where a descriptor is written behind the slots that were asked for. -/
def coreGetMemoryMap (m : MemoryServices) (behind : Nat) (memoryMapSize : Option Nat)
    (hasBuffer : Bool) : Option MemoryMapResult := match memoryMapSize with
  | none => some ⟨.invalidParameter, none, [], none⟩
  | some size =>
    let bufferSize := descriptorSize * neededSlots m
    if size < bufferSize then
      some ⟨.bufferTooSmall, some bufferSize, [], some m.mMemoryMapKey⟩
    else if !hasBuffer then
      some ⟨.invalidParameter, some bufferSize, [], some m.mMemoryMapKey⟩
    else do
      let map ← putEntries m.mMemoryTypeStatistics (neededSlots m) m.gMemoryMap []
      let map ← putGcdEntries (neededSlots m) zeroGcdMapEntry m.mGcdMemorySpaceMap map
      let map := mergeMemoryMap m.guardedFreePages behind (map.map clearPaging)
      some ⟨.success, some (descriptorSize*map.length), map, some m.mMemoryMapKey⟩

end Liano.MemoryMap
