import Liano.Efi
import Liano.Lib.Segments

/-! `Gcd.c`: the operations on a GCD map. A map is the list of its entries; the links `StartLink`
and `EndLink` are given by the entries before, between and after them. -/
namespace Liano.Gcd

open Liano.Lib

inductive GcdMemoryType
  | nonExistent
  | reserved
  | systemMemory
  | memoryMappedIo
  | persistent
  | moreReliable
deriving DecidableEq, Repr

inductive GcdIoType
  | nonExistent
  | reserved
  | io
deriving DecidableEq, Repr

/-- What an `EFI_GCD_MAP_ENTRY` says of its addresses; a handle is `none` for `NULL`. -/
structure GcdDescriptor where
  capabilities : BitVec 64
  attributes : BitVec 64
  gcdMemoryType : GcdMemoryType
  gcdIoType : GcdIoType
  imageHandle : Option Nat
  deviceHandle : Option Nat
deriving DecidableEq, Repr

abbrev GcdMapEntry := Segment GcdDescriptor

def efiMemoryUc : BitVec 64 := 0x1
def efiMemoryWc : BitVec 64 := 0x2
def efiMemoryWt : BitVec 64 := 0x4
def efiMemoryWb : BitVec 64 := 0x8
def efiMemoryUce : BitVec 64 := 0x10
def efiMemoryWp : BitVec 64 := 0x1000
def efiMemoryRp : BitVec 64 := 0x2000
def efiMemoryXp : BitVec 64 := 0x4000
def efiMemoryRo : BitVec 64 := 0x20000
def efiMemoryPortIo : BitVec 64 := 0x4000000000000000
def efiMemoryRuntime : BitVec 64 := 0x8000000000000000

def exclusiveMemoryAttributes : BitVec 64 :=
  efiMemoryUc ||| efiMemoryWc ||| efiMemoryWt ||| efiMemoryWb ||| efiMemoryWp ||| efiMemoryUce

def nonexclusiveMemoryAttributes : BitVec 64 := efiMemoryXp ||| efiMemoryRp ||| efiMemoryRo

def efiPageSize : Nat := 0x1000

/-- The entries before `StartLink`, from it to `EndLink`, and after that. -/
structure MapRange where
  before : List GcdMapEntry
  range : List GcdMapEntry
  after : List GcdMapEntry
deriving DecidableEq, Repr

/-- The loop of `CoreSearchGcdMapEntry`, behind the entries `before` and, once `StartLink` is set,
those of the range so far. -/
def searchLoop (baseAddress last : Nat) :
    List GcdMapEntry → Option (List GcdMapEntry) → List GcdMapEntry → Option MapRange
  | _, _, [] => none
  | before, range, entry :: entries =>
    let starts := decide (entry.Holds baseAddress)
    let before' := if starts then before ++ range.getD [] else
      if range.isSome then before else before ++ [entry]
    let range' := if starts then some [entry] else range.map (· ++ [entry])
    match range' with
    | some range' =>
      if entry.Holds last then some ⟨before', range', entries⟩
      else searchLoop baseAddress last before' (some range') entries
    | none => searchLoop baseAddress last before' none entries

def coreSearchGcdMapEntry (baseAddress length : Nat) (map : List GcdMapEntry) : Option MapRange :=
  searchLoop baseAddress (toUint64 (baseAddress+length-1)) [] none map

def coreInsertGcdMapEntry (entry : GcdMapEntry) (baseAddress length : Nat) :
    Option GcdMapEntry × GcdMapEntry × Option GcdMapEntry :=
  let bottomEntry := if baseAddress > entry.baseAddress
    then some { entry with endAddress := baseAddress - 1 } else none
  let entry := if baseAddress > entry.baseAddress
    then { entry with baseAddress := baseAddress } else entry
  if toUint64 (baseAddress+length-1) < entry.endAddress then
    (bottomEntry, { entry with endAddress := toUint64 (baseAddress+length-1) },
      some { entry with baseAddress := toUint64 (baseAddress+length) })
  else (bottomEntry,entry,none)

structure Converted where
  bottomEntry : Option GcdMapEntry
  range : List GcdMapEntry
  topEntry : Option GcdMapEntry
deriving DecidableEq, Repr

/-- The loop that converts the entries of a range; `change` is what it does to an entry, with the
value it carries along. `none` is a bottom entry inserted behind `StartLink` or a top entry inserted
before `EndLink`, for a range that wraps. -/
def convertEntries {σ : Type} (baseAddress length : Nat)
    (change : σ → GcdDescriptor → σ × GcdDescriptor) : σ → List GcdMapEntry → Option Converted
  | _, [] => some ⟨none, [], none⟩
  | s, entry :: entries =>
    let inserted := coreInsertGcdMapEntry entry baseAddress length
    let changed := change s inserted.2.1.value
    (convertEntries baseAddress length change changed.1 entries).bind fun converted =>
      if converted.bottomEntry.isSome ∨ inserted.2.2.isSome ∧ entries ≠ [] then none
      else some ⟨inserted.1, { inserted.2.1 with value := changed.2 } :: converted.range,
        inserted.2.2.or converted.topEntry⟩

def coreMergeGcdMapEntry (entry adjacentEntry : GcdMapEntry) (forward : Bool) : Option GcdMapEntry :=
  -- capabilities, attributes, types and handles
  if entry.value ≠ adjacentEntry.value then none
  else if forward then some { entry with endAddress := adjacentEntry.endAddress }
  else some { entry with baseAddress := adjacentEntry.baseAddress }

/-- The loop of `CoreCleanupGcdMapEntry` over the range, behind the entries `before`, the nearest
first. -/
def cleanupLoop : List GcdMapEntry → List GcdMapEntry → List GcdMapEntry
  | before, [] => before
  | [], entry :: entries => cleanupLoop [entry] entries
  | adjacentEntry :: before, entry :: entries =>
    match coreMergeGcdMapEntry entry adjacentEntry false with
    | some merged => cleanupLoop (merged :: before) entries
    | none => cleanupLoop (entry :: adjacentEntry :: before) entries

/-- The merge of `EndLink` with the entry after it. -/
def mergeForward : List GcdMapEntry → List GcdMapEntry → List GcdMapEntry
  | entry :: before, adjacentEntry :: after =>
    match coreMergeGcdMapEntry entry adjacentEntry true with
    | some merged => (merged :: before).reverse ++ after
    | none => (entry :: before).reverse ++ adjacentEntry :: after
  | before, after => before.reverse ++ after

def coreCleanupGcdMapEntry (before range after : List GcdMapEntry) : List GcdMapEntry :=
  mergeForward (cleanupLoop before.reverse range) after

def convertRange {σ : Type} (baseAddress length : Nat)
    (change : σ → GcdDescriptor → σ × GcdDescriptor) (s : σ) (r : MapRange) : Option (List GcdMapEntry) :=
  (convertEntries baseAddress length change s r.range).map fun converted =>
    coreCleanupGcdMapEntry (r.before ++ converted.bottomEntry.toList) converted.range
      (converted.topEntry.toList ++ r.after)

inductive Operation
  | addMemory
  | addIo
  | freeMemory
  | freeIo
  | removeMemory
  | removeIo
  | setAttributesMemory
  | setCapabilitiesMemory
deriving DecidableEq, Repr

structure Request where
  operation : Operation
  gcdMemoryType : GcdMemoryType
  gcdIoType : GcdIoType
  baseAddress : Nat
  length : Nat
  capabilities : BitVec 64
  attributes : BitVec 64
deriving DecidableEq, Repr

def converToCpuArchAttributes (attributes : BitVec 64) : BitVec 64 :=
  let cpuArchAttributes := attributes &&& nonexclusiveMemoryAttributes
  if attributes &&& efiMemoryUc = efiMemoryUc then cpuArchAttributes ||| efiMemoryUc
  else if attributes &&& efiMemoryWc = efiMemoryWc then cpuArchAttributes ||| efiMemoryWc
  else if attributes &&& efiMemoryWt = efiMemoryWt then cpuArchAttributes ||| efiMemoryWt
  else if attributes &&& efiMemoryWb = efiMemoryWb then cpuArchAttributes ||| efiMemoryWb
  else if attributes &&& efiMemoryUce = efiMemoryUce then cpuArchAttributes ||| efiMemoryUce
  else if attributes &&& efiMemoryWp = efiMemoryWp then cpuArchAttributes ||| efiMemoryWp
  else cpuArchAttributes

def pageAligned (r : Request) : Bool := r.baseAddress % efiPageSize == 0 && r.length % efiPageSize == 0

def verifyEntry (r : Request) (entry : GcdDescriptor) : EfiStatus := match r.operation with
  | .addMemory =>
    if entry.gcdMemoryType ≠ .nonExistent ∨ entry.imageHandle ≠ none then .accessDenied
    else .success
  | .addIo =>
    if entry.gcdIoType ≠ .nonExistent ∨ entry.imageHandle ≠ none then .accessDenied else .success
  | .freeMemory | .freeIo => if entry.imageHandle = none then .notFound else .success
  | .removeMemory =>
    if entry.gcdMemoryType = .nonExistent then .notFound
    else if entry.imageHandle ≠ none then .accessDenied
    else .success
  | .removeIo =>
    if entry.gcdIoType = .nonExistent then .notFound
    else if entry.imageHandle ≠ none then .accessDenied
    else .success
  | .setAttributesMemory =>
    if r.attributes &&& efiMemoryRuntime ≠ 0 ∧ pageAligned r = false then .invalidParameter
    else if entry.capabilities &&& r.attributes ≠ r.attributes then .unsupported
    else .success
  | .setCapabilitiesMemory =>
    if pageAligned r = false then .invalidParameter
    -- current attributes must still be supported with new capabilities
    else if r.capabilities &&& entry.attributes ≠ entry.attributes then .unsupported
    else .success

def verifyEntries (r : Request) : List GcdMapEntry → EfiStatus
  | [] => .success
  | entry :: entries =>
    if (verifyEntry r entry.value).isError then verifyEntry r entry.value
    else verifyEntries r entries

/-- What the second loop does to an entry, with `Attributes` as it is then. -/
def changeEntry (r : Request) (cpuArchAttributes attributes : BitVec 64) (entry : GcdDescriptor) :
    BitVec 64 × GcdDescriptor := match r.operation with
  | .addMemory =>
    (attributes, { entry with
      gcdMemoryType := r.gcdMemoryType
      capabilities := if r.gcdMemoryType = .memoryMappedIo
        then r.capabilities ||| efiMemoryRuntime ||| efiMemoryPortIo
        else r.capabilities ||| efiMemoryRuntime })
  | .addIo => (attributes, { entry with gcdIoType := r.gcdIoType })
  | .freeMemory | .freeIo => (attributes, { entry with imageHandle := none, deviceHandle := none })
  | .removeMemory => (attributes, { entry with gcdMemoryType := .nonExistent, capabilities := 0 })
  | .removeIo => (attributes, { entry with gcdIoType := .nonExistent })
  | .setAttributesMemory =>
    let attributes := if cpuArchAttributes = 0 then
        attributes ||| (entry.attributes &&& (exclusiveMemoryAttributes ||| nonexclusiveMemoryAttributes))
      else attributes
    (attributes, { entry with attributes := attributes })
  | .setCapabilitiesMemory => (attributes, { entry with capabilities := r.capabilities })

/-- `SetMemoryAttributes` of the CPU architectural protocol, `none` before it is installed. -/
abbrev CpuArchProtocol := Option (Nat → Nat → BitVec 64 → EfiStatus)

/-- The call of the CPU architectural protocol. -/
def setCpuAttributes (cpu : CpuArchProtocol) (r : Request) : EfiStatus :=
  let cpuArchAttributes := converToCpuArchAttributes r.attributes
  if r.operation = .setAttributesMemory ∧ cpuArchAttributes ≠ 0 then
    match cpu with
    | none => .notAvailableYet
    | some setMemoryAttributes => setMemoryAttributes r.baseAddress r.length cpuArchAttributes
  else .success

/-- `CpuArchAttributes` in the second loop. -/
def cpuArchAttributesOf (r : Request) : BitVec 64 :=
  if r.operation = .setAttributesMemory then converToCpuArchAttributes r.attributes else 0

/-- `CoreConvertSpace`, on the map that the operation is for; `allocated` is the outcome of
`CoreAllocateGcdMapEntry`. -/
def coreConvertSpace (cpu : CpuArchProtocol) (allocated : Bool) (r : Request)
    (map : List GcdMapEntry) : Option (List GcdMapEntry × EfiStatus) :=
  if r.length = 0 then some (map, .invalidParameter)
  else
    match coreSearchGcdMapEntry r.baseAddress r.length map with
    | none => some (map, .unsupported)
    | some range =>
      let status := verifyEntries r range.range
      if status.isError then some (map,status)
      else if !allocated then some (map, .outOfResources)
      else
        let status := setCpuAttributes cpu r
        if status.isError then some (map,status)
        else
          (convertRange r.baseAddress r.length (changeEntry r (cpuArchAttributesOf r))
            r.attributes range).map fun map => (map, .success)

inductive GcdAllocateType
  | anySearchBottomUp
  | maxAddressSearchBottomUp
  | address
  | anySearchTopDown
  | maxAddressSearchTopDown
deriving DecidableEq, Repr

structure AllocateRequest where
  /-- `GCD_ALLOCATE_MEMORY_OPERATION`, or the one for I/O. -/
  memory : Bool
  gcdAllocateType : GcdAllocateType
  gcdMemoryType : GcdMemoryType
  gcdIoType : GcdIoType
  alignment : Nat
  length : Nat
  baseAddress : Nat
  imageHandle : Option Nat
  deviceHandle : Option Nat
deriving DecidableEq, Repr

section
variable (r : AllocateRequest)

def coreAllocateSpaceCheckEntry (entry : GcdDescriptor) : EfiStatus :=
  if entry.imageHandle ≠ none then .notFound
  else if r.memory then if entry.gcdMemoryType ≠ r.gcdMemoryType then .notFound else .success
  else if entry.gcdIoType ≠ r.gcdIoType then .notFound
  else .success

def checkedBefore (entries : List GcdMapEntry) : List GcdMapEntry :=
  entries.takeWhile fun entry => !(coreAllocateSpaceCheckEntry r entry.value).isError

def topDown : Bool :=
  r.gcdAllocateType == .maxAddressSearchTopDown || r.gcdAllocateType == .anySearchTopDown

/-- The low `alignment` bits cleared. -/
def alignDown (alignment n : Nat) : Nat := n / 2^alignment * 2^alignment

inductive Candidate
  | next
  | stop (baseAddress : Nat)
  | tryBase (baseAddress : Nat)
deriving DecidableEq, Repr

def candidate (maxAddress baseAddress : Nat) (entry : GcdMapEntry) : Candidate :=
  if topDown r then
    if toUint64 (entry.baseAddress+r.length) > maxAddress then .next
    else if r.length > toUint64 (entry.endAddress+1) then .stop baseAddress
    else
      let top := if entry.endAddress > maxAddress then maxAddress else entry.endAddress
      .tryBase (alignDown r.alignment (toUint64 (top+1 + (2^64-r.length))))
  else
    let base := alignDown r.alignment (toUint64 (entry.baseAddress + (2^r.alignment-1)))
    if toUint64 (base+r.length-1) > maxAddress then .stop base else .tryBase base

def followingLink (size link : Nat) : Option Nat :=
  if topDown r then if link = 0 then none else some (link-1)
  else if link+1 < size then some (link+1)
  else none

/-- The search from a link on, with `*BaseAddress` as it is then; `none` is the loop going on after
`fuel` entries. The range is that of the space found. -/
def allocateSearch (r : AllocateRequest) (maxAddress : Nat) (map : List GcdMapEntry) :
    Nat → Option Nat → Nat → Option (Nat × Option MapRange)
  | 0, _, _ => none
  | _+1, none, baseAddress => some (baseAddress,none)
  | fuel+1, some link, baseAddress =>
    match map[link]? with
    | none => some (baseAddress,none)
    | some entry =>
      let following := followingLink r map.length link
      if (coreAllocateSpaceCheckEntry r entry.value).isError then
        allocateSearch r maxAddress map fuel following baseAddress
      else
        match candidate r maxAddress baseAddress entry with
        | .next => allocateSearch r maxAddress map fuel following baseAddress
        | .stop baseAddress => some (baseAddress,none)
        | .tryBase baseAddress =>
          match coreSearchGcdMapEntry baseAddress r.length map with
          | none => some (baseAddress,none)
          | some range =>
            if checkedBefore r range.range = range.range then some (baseAddress, some range)
            else
              allocateSearch r maxAddress map fuel
                (some (range.before.length + (checkedBefore r range.range).length))
                baseAddress

/-- The space for the request, with `*BaseAddress` and the error where there is none. -/
def findSpace (map : List GcdMapEntry) (fuel : Nat) :
    Option (Nat × Except EfiStatus MapRange) := if r.gcdAllocateType = .address then
    if r.baseAddress % 2^r.alignment ≠ 0 then some (r.baseAddress, .error .notFound)
    else
      match coreSearchGcdMapEntry r.baseAddress r.length map with
      | none => some (r.baseAddress, .error .notFound)
      | some range =>
        if checkedBefore r range.range = range.range then some (r.baseAddress, .ok range)
        else some (r.baseAddress, .error .notFound)
  else
    let last := (map.getLast?.map Segment.endAddress).getD 0
    let maxAddress := if r.gcdAllocateType = .maxAddressSearchBottomUp ∨
        r.gcdAllocateType = .maxAddressSearchTopDown then r.baseAddress else last
    let start := if topDown r then map.length-1 else 0
    (allocateSearch r maxAddress map fuel (if map = [] then none else some start)
      r.baseAddress).map fun found =>
        (found.1, match found.2 with
          | none => .error .notFound
          | some range => .ok range)

end

/-- `CoreAllocateSpace`, on the map that the operation is for: the map, `*BaseAddress` and the
status. -/
def coreAllocateSpace (allocated : Bool) (r : AllocateRequest) (map : List GcdMapEntry)
    (fuel : Nat) : Option (List GcdMapEntry × Nat × EfiStatus) :=
  if r.imageHandle = none then some (map, r.baseAddress, .invalidParameter)
  else if r.alignment ≥ 64 then some (map, r.baseAddress, .notFound)
  else if r.length = 0 then some (map, r.baseAddress, .invalidParameter)
  else
    (findSpace r map fuel).bind fun found =>
      match found.2 with
      | .error status => some (map,found.1,status)
      | .ok range =>
        if !allocated then some (map, found.1, .outOfResources)
        else
          (convertRange found.1 r.length (fun (_ : Unit) entry => ((), { entry with
              imageHandle := r.imageHandle
              deviceHandle := r.deviceHandle })) () range).map fun map => (map, found.1, .success)

end Liano.Gcd
