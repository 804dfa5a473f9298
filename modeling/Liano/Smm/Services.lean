import Liano.Smm.MemoryMap

/-! Allocating and freeing SMRAM pages, heap guard off, and adding regions. A result is `none` where the code
runs into an `ASSERT` and what it guards: no descriptor, or no place on the stack. -/
namespace Liano.Smm

/-- `mSmmMemoryMap` and `gMemoryMap`; `descriptorPages` are the pages that `AllocateMemoryMapEntry` has made
descriptors of. -/
structure SmmMemory where
  smmMemoryMap : List FreePageList
  map : MapState
  descriptorPages : List Nat
deriving DecidableEq, Repr

inductive EfiAllocateType
  | anyPages
  | maxAddress
  | address
  | other (value : Nat)
deriving DecidableEq, Repr

section
variable (st : SmmMemory)

/-- `gMemoryMap` is updated and the pages are the result. -/
def convertAllocated (memoryType : EfiMemoryType) (numberOfPages : Nat)
    (list : List FreePageList) (memory : Nat) : Option (EfiStatus × Nat × SmmMemory) :=
  (convertSmmMemoryMapEntry memoryType memory numberOfPages st.map).map fun map =>
    (.success, memory, { st with smmMemoryMap := list, map })

/-- The cases `AllocateAnyPages` and `AllocateMaxAddress`. -/
def allocateBelow (memoryType : EfiMemoryType) (numberOfPages maxAddress : Nat) :
    Option (EfiStatus × Nat × SmmMemory) :=
  (internalAllocMaxAddress st.smmMemoryMap numberOfPages maxAddress).bind fun (list,memory) =>
    if memory = maxUint64 then some (.outOfResources, memory, { st with smmMemoryMap := list })
    else convertAllocated st memoryType numberOfPages list memory

/-- The case `AllocateAddress`. -/
def allocateAt (memoryType : EfiMemoryType) (numberOfPages requestedAddress : Nat) :
    Option (EfiStatus × Nat × SmmMemory) :=
  (internalAllocAddress st.smmMemoryMap numberOfPages requestedAddress).bind fun (list,memory) =>
    if memory ≠ requestedAddress then some (.notFound, memory, { st with smmMemoryMap := list })
    else convertAllocated st memoryType numberOfPages list memory

def isRuntimeType : EfiMemoryType → Bool
  | .runtimeServicesCode | .runtimeServicesData => true
  | _ => false

/-- `SmmInternalAllocatePagesEx` with `AddRegion`, which leaves new map entries on the stack. -/
def smmInternalAllocatePagesEx (type : EfiAllocateType) (memoryType : EfiMemoryType)
    (numberOfPages memory : Nat) : Option (EfiStatus × Nat × SmmMemory) :=
  if !isRuntimeType memoryType then some (.invalidParameter, memory, st)
  else if numberOfPages > truncateToPages maxUint64 + 1 then some (.outOfResources, memory, st)
  else
    match type with
    | .anyPages => allocateBelow st memoryType numberOfPages maxUint64
    | .maxAddress => allocateBelow st memoryType numberOfPages memory
    | .address => allocateAt st memoryType numberOfPages memory
    | .other _ => some (.invalidParameter, memory, st)

/-- `RUNTIME_PAGE_ALLOCATION_GRANULARITY / sizeof (MEMORY_MAP)`. -/
def descriptorsPerPage : Nat := 0x1000 / 48

/-- `AllocateMemoryMapEntry`: `mFreeMemoryMapEntryList` without its first descriptor. Where it is empty, it is
refilled with a page first. -/
def allocateMemoryMapEntry : Option SmmMemory := if st.map.freeEntries = 0 then
    match smmInternalAllocatePagesEx st .anyPages .runtimeServicesData 1 0 with
    | some (.success, memory, st) =>
      some { st with
        map := { st.map with freeEntries := st.map.freeEntries+descriptorsPerPage - 1 }
        descriptorPages := memory :: st.descriptorPages }
    | _ => none
  else some { st with map := { st.map with freeEntries := st.map.freeEntries - 1 } }

def leaveStack (place : Nat) (entry : MemoryMapEntry) : MemoryMapEntry :=
  if entry.fromStack = some place then { entry with fromStack := none } else entry

def MapState.popStack (m : MapState) : MapState :=
  { m with memoryMap := m.memoryMap.map (leaveStack (m.mapDepth-1)), mapDepth := m.mapDepth - 1 }

/-- `CoreFreeMemoryMapStack`; `fuel` bounds the number of passes. -/
def coreFreeMemoryMapStack : Nat → SmmMemory → Option SmmMemory
  | 0, st => if st.map.mapDepth = 0 then some st else none
  | fuel+1, st =>
    if st.map.mapDepth = 0 then some st
    else
      (allocateMemoryMapEntry st).bind fun st =>
        coreFreeMemoryMapStack fuel { st with map := st.map.popStack }

def stackFuel : Nat := 2*maxMapDepth

/-- `SmmAllocatePages`: the status, what `*Memory` is and the state. -/
def smmAllocatePages (type : EfiAllocateType) (memoryType : EfiMemoryType)
    (numberOfPages memory : Nat) : Option (EfiStatus × Nat × SmmMemory) :=
  (smmInternalAllocatePagesEx st type memoryType numberOfPages memory).bind fun (status,memory,st) =>
    if status.isError then some (status,memory,st)
    else (coreFreeMemoryMapStack stackFuel st).map fun st => (status,memory,st)

def smmInternalFreePagesEx (memory numberOfPages : Nat) : Option (EfiStatus × SmmMemory) :=
  if !isPageAligned memory || memory = 0 || numberOfPages = 0 then some (.invalidParameter, st)
  else
    match insertFreePages st.smmMemoryMap memory numberOfPages with
    | none => some (.invalidParameter, st)
    | some list =>
      (convertSmmMemoryMapEntry .conventionalMemory memory numberOfPages st.map).map fun map =>
        (.success, { st with smmMemoryMap := list, map })

def smmFreePages (memory numberOfPages : Nat) : Option (EfiStatus × SmmMemory) :=
  if !inMemMap st.map.memoryMap memory numberOfPages then some (.notFound, st)
  else
    (smmInternalFreePagesEx st memory numberOfPages).bind fun (status,st) =>
      if status.isError then some (status,st)
      else (coreFreeMemoryMapStack stackFuel st).map fun st => (status,st)

/-- `EFI_ALLOCATED | EFI_NEEDS_TESTING | EFI_NEEDS_ECC_INITIALIZATION`. -/
def usedAttributes : Nat := 0x10 ||| 0x20 ||| 0x40

def regionType (attributes : Nat) : EfiMemoryType :=
  if attributes &&& usedAttributes ≠ 0 then .runtimeServicesData else .conventionalMemory

/-- `SmmAddMemoryRegion`; its parameter `Type` is not read. -/
def smmAddMemoryRegion (memBase memLength attributes : Nat) : Option SmmMemory :=
  let alignedMemBase := toUint64 (memBase + (efiPageSize-1)) / efiPageSize * efiPageSize
  let memLength := subUint64 memLength (subUint64 alignedMemBase memBase)
  let numberOfPages := truncateToPages memLength
  let added := match regionType attributes with
    | .conventionalMemory => (smmInternalFreePagesEx st alignedMemBase numberOfPages).map Prod.snd
    | type =>
      (convertSmmMemoryMapEntry type alignedMemBase numberOfPages st.map).map fun map => { st with map }
  added.bind fun st => coreFreeMemoryMapStack stackFuel st

end

def initialState : SmmMemory := ⟨[], ⟨[], 0, 0⟩, []⟩

end Liano.Smm
