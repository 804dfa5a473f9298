import Liano.Variable.Parsing
import Liano.Variable.RuntimeCache

/-! The state of the variable driver, `UpdateVariableStore`, and the pieces of `Variable.c` that
the reclaim and the update share. Statistics (`UpdateVariableInfo`) are left out. -/
namespace Liano.Variable
open Bytes (slice patch)

/-- The flash device behind the FVB protocol: the byte that programming `new` over `old` leaves.
A write that only clears bits leaves what is written. -/
structure FlashDevice where
  program : UInt8 → UInt8 → UInt8
  program_of_clears : ∀ old new, old &&& new = new → program old new = new

/-- NOR flash: programming clears bits. -/
def FlashDevice.nor : FlashDevice where
  program old new := old &&& new
  program_of_clears _ _ h := h

/-- What does not change after the initialization: the fields of `VARIABLE_MODULE_GLOBAL` that only
the initialization sets, the PCDs, and the block map of the firmware volume, as pairs of
`NumBlocks` and `Length`. Flash addresses count from `FvVolHdr`. -/
structure VariableConfig where
  authFormat : Bool
  emuNvMode : Bool
  flashDevice : FlashDevice
  nonVolatileVariableBase : Nat
  fvLength : Nat
  blockMap : List (Nat × Nat)
  scratchBufferSize : Nat
  maxVariableSize : Nat
  maxAuthVariableSize : Nat
  maxVolatileVariableSize : Nat
  pcdMaxHardwareErrorVariableSize : Nat
  pcdHwErrStorageSize : Nat
  commonVariableSpace : Nat
  commonRuntimeVariableSpace : Nat
  commonMaxUserVariableSpace : Nat
  /-- `VarCheckLibVariablePropertyGet` finds a property for the name and GUID. -/
  variablePropertyGet : Bytes → Bytes → Bool

/-- What a fault tolerant write that fails leaves in flash. The driver erases the blocks of the store
and writes them anew (`FlushSpareBlockToTargetBlock`): it fails before that, after it, or between, where it
may leave the volume with anything in it. -/
inductive FtwLeft
  | untouched
  | written
  | torn (flash : Bytes)
deriving DecidableEq, Repr

/-- The changing part of the module's globals and the memory behind them. The statuses that the
coming `Fvb->Write` and fault tolerant writes return are given, and what the latter leave where they fail;
where the list ends they succeed. `poolExhausted` says that `AllocatePool` returns NULL. -/
structure VariableState where
  memory : VariableMemory
  flash : Bytes
  atRuntime : Bool
  endOfDxe : Bool
  fvbInstance : Bool
  nonVolatileLastVariableOffset : Nat
  volatileLastVariableOffset : Nat
  hwErrVariableTotalSize : Nat
  commonVariableTotalSize : Nat
  commonUserVariableTotalSize : Nat
  currentBootVarErrFlag : UInt8
  fvbStatus : List EfiStatus
  ftwStatus : List EfiStatus
  ftwLeft : List FtwLeft
  poolExhausted : Bool
deriving DecidableEq, Repr

section
variable (c : VariableConfig) (st : VariableState)

/-- The store behind `NonVolatileVariableBase`: in flash, or the cache itself in emulated mode. -/
def nvStore : Bytes := if c.emuNvMode then st.memory.nvVariableCache
  else slice st.flash c.nonVolatileVariableBase
    (storeSize (st.flash.drop c.nonVolatileVariableBase))

/-- The stores that `FindVariable` searches. -/
def variableStores (st : VariableState) : VariableStoreList
  | .volatile => some st.memory.volatileStore
  | .hob => if st.memory.hobVariableBase = 0 then none else some st.memory.hobStore
  | .nv => some st.memory.nvVariableCache

/-- The memory that a `CacheVariable` pointer into the given store points to. -/
def cacheStore (st : VariableState) : VariableStoreType → Bytes
  | .volatile => st.memory.volatileStore
  | .hob => st.memory.hobStore
  | .nv => st.memory.nvVariableCache

def VariableState.setStore (st : VariableState) (id : CacheId) (b : Bytes) : VariableState :=
  { st with memory := st.memory.setSource id b }

/-- `if (EFI_ERROR (Status)) goto Done;` -/
def andThen (r : VariableState × EfiStatus) (next : VariableState → VariableState × EfiStatus) :
    VariableState × EfiStatus := if r.2.isError then r else next r.1

/-- The flash after programming `data` at `ptr`. -/
def programFlash (d : FlashDevice) (flash : Bytes) (ptr : Nat) (data : Bytes) : Bytes :=
  patch flash ptr (List.zipWith d.program (slice flash ptr data.length) data)

/-- One `Fvb->Write`; a failing one leaves the flash as it is. -/
def fvbWrite (ptr : Nat) (data : Bytes) :
    VariableState × EfiStatus := let status := st.fvbStatus.headD .success
  let st := { st with fvbStatus := st.fvbStatus.tail }
  if status.isError then (st,status)
  else ({ st with flash := programFlash c.flashDevice st.flash ptr data }, status)

def VariableConfig.blocks (c : VariableConfig) : List Nat :=
  c.blockMap.flatMap fun entry => List.replicate entry.1 entry.2

/-- The loops over the block map, from the block at `linearOffset` on. -/
def writeBlocks (c : VariableConfig) :
    List Nat → Nat → Nat → Bytes → VariableState → VariableState × EfiStatus
  | [], _, _, _, st => (st, .success)
  | length :: blocks, linearOffset, currWritePtr, currBuffer, st =>
    if linearOffset ≤ currWritePtr ∧ currWritePtr < linearOffset+length then
      if currWritePtr+currBuffer.length ≤ linearOffset+length then
        fvbWrite c st currWritePtr currBuffer
      else
        -- the write goes on in the next block
        let size := linearOffset+length-currWritePtr
        andThen (fvbWrite c st currWritePtr (currBuffer.take size)) fun st =>
          writeBlocks c blocks (linearOffset+length) (linearOffset+length)
            (currBuffer.drop size) st
    else writeBlocks c blocks (linearOffset+length) currWritePtr currBuffer st

/-- `UpdateVariableStore`, with the target given as an offset from the base of its store. -/
def updateVariableStore (volatile : Bool) (dataPtr : Nat)
    (buffer : Bytes) : VariableState × EfiStatus := if !volatile && !c.emuNvMode then
    if !st.fvbInstance then (st, .unsupported)
    else if dataPtr+c.nonVolatileVariableBase+buffer.length > c.fvLength then
      (st, .outOfResources)
    else writeBlocks c c.blocks 0 (dataPtr+c.nonVolatileVariableBase) buffer st
  else
    let id : CacheId := if volatile then .volatile else .nv
    if dataPtr+buffer.length > storeSize (st.memory.source id) then (st, .outOfResources)
    else (st.setStore id (patch (st.memory.source id) dataPtr buffer), .success)

/-- A state of an entry that `CacheVariable` points to, masked and written to its store. An NV
entry is changed in the cache too once the write has succeeded. -/
def updateState (t : VariableStoreType) (p : Nat)
    (mask : UInt8) : VariableState × EfiStatus := let newState := state (cacheStore st t) p &&& mask
  let r := updateVariableStore c st (t == .volatile) (p+offsetOfState) [newState]
  if r.2.isError || t == .volatile then r
  else (r.1.setStore .nv (patch r.1.memory.nvVariableCache (p+offsetOfState) [newState]), r.2)

/-- `SynchronizeRuntimeVariableCache` of a whole store. -/
def synchronize (st : VariableState) (id : CacheId) (length : Nat) : VariableState × EfiStatus :=
  let r := synchronizeRuntimeVariableCache st.memory (some id) 0 length
  ({ st with memory := r.1 }, r.2)

/-- `IsUserVariable`; the name is the string at the name pointer. -/
def isUserVariable (b : Bytes) (p : Nat) : Bool :=
  let name := b.drop (getVariableNamePtr c.authFormat p)
  st.endOfDxe && c.commonMaxUserVariableSpace != c.commonVariableSpace &&
    !c.variablePropertyGet (name.take (strSize name)) (vendorGuidOf c.authFormat b p)

def isHardwareErrorRecord (attributes : UInt32) : Bool :=
  attributes &&& efiVariableHardwareErrorRecord == efiVariableHardwareErrorRecord

/-- `VAR_ERROR_FLAG_NAME`, with its terminator. -/
def varErrorFlagName : Bytes :=
  [0x56, 0, 0x61, 0, 0x72, 0, 0x45, 0, 0x72, 0, 0x72, 0, 0x6f, 0, 0x72, 0, 0x46, 0, 0x6c, 0,
    0x61, 0, 0x67, 0, 0, 0]

def edkiiVarErrorFlagGuid : Bytes :=
  [0xe8, 0x7f, 0xb3, 0x04, 0xae, 0xf6, 0x0b, 0x48, 0xbd, 0xd5, 0x37, 0xd9, 0x8c, 0x5e, 0x89, 0xaa]

def varErrorFlagSystemError : UInt8 := 0xef
def varErrorFlagUserError : UInt8 := 0xfe

/-- `RecordVarErrorFlag`. The flag variable is an NV one (`InitializeVarErrorFlag` creates it), so
its pointer is an offset into `mNvVariableCache`. -/
def recordVarErrorFlag (flag : UInt8) : VariableState :=
  if !st.endOfDxe then { st with currentBootVarErrFlag := st.currentBootVarErrFlag &&& flag }
  else
    match findVariable c.authFormat st.atRuntime (variableStores st) varErrorFlagName
        edkiiVarErrorFlagGuid false with
    | some (.nv, ⟨some p, _⟩) =>
      let varErrFlag := getVariableDataPtr c.authFormat st.memory.nvVariableCache p
      let oldFlag := st.memory.nvVariableCache.getD varErrFlag 0
      let tempFlag := oldFlag &&& flag
      if tempFlag = oldFlag then st
      else
        let r := updateVariableStore c st false varErrFlag [tempFlag]
        if r.2.isError then r.1
        else
          let st := r.1.setStore .nv (patch r.1.memory.nvVariableCache varErrFlag [tempFlag])
          (synchronize st .nv (storeSize st.memory.nvVariableCache)).1
    | _ => st

end

end Liano.Variable
