import Liano.Variable.AccountedFlag

/-! `CheckRemainingSpaceForConsistencyInternal`, the `VariableServiceQueryVariableInfoInternal` it
asks, and the updates that its caller makes after it. -/
namespace Liano.Variable
open Bytes (slice patch)

structure VariableInfo where
  maximumVariableStorageSize : Nat
  remainingVariableStorageSize : Nat
  maximumVariableSize : Nat
deriving DecidableEq, Repr

section
variable (c : VariableConfig) (st : VariableState)

/-- The space of the variable is not reclaimable: at runtime none is, and before that an ADDED
variable's, or an IN_DELETED_TRANSITION one's without an ADDED twin. -/
def isSpaceUsed (b : Bytes) (p : Nat) : Bool := st.atRuntime || isAdded b p ||
    (isInDeletedTransition b p &&
      (findVariableEx c.authFormat st.atRuntime (b.drop (getVariableNamePtr c.authFormat p))
        (vendorGuidOf c.authFormat b p) false b).1.currPtr.any fun q => !isAdded b q)

/-- `HwErrVariableTotalSize` or `CommonVariableTotalSize`, after the walk. -/
def usedSize (hwErr : Bool) (b : Bytes) : Nat := (((headers c.authFormat b).filter fun p =>
    isSpaceUsed c st b p && isHardwareErrorRecord (attributes b p) == hwErr).map fun p =>
      getNextVariablePtr c.authFormat b p - p).sum

/-- `*MaximumVariableStorageSize`, and `*MaximumVariableSize` before it is cut down to the
remaining space. -/
def maximumSizes (attributes : UInt32) (b : Bytes) : Nat × Nat :=
  let headerSize := getVariableHeaderSize c.authFormat
  let nonVolatile := hasAttribute attributes efiVariableNonVolatile
  if nonVolatile && isHardwareErrorRecord attributes then
    (c.pcdHwErrStorageSize, uintnSub c.pcdMaxHardwareErrorVariableSize headerSize)
  else
    (if nonVolatile then
        if st.atRuntime then c.commonRuntimeVariableSpace else c.commonVariableSpace
      else uintnSub (storeSize b) variableStoreHeaderSize,
      if hasAttribute attributes (efiVariableTimeBasedAuthenticatedWriteAccess |||
          efiVariableAuthenticatedWriteAccess) then uintnSub c.maxAuthVariableSize headerSize
      else if nonVolatile then uintnSub c.maxVariableSize headerSize
      else uintnSub c.maxVolatileVariableSize headerSize)

def variableServiceQueryVariableInfoInternal (attributes : UInt32) : VariableInfo :=
  let b := if hasAttribute attributes efiVariableNonVolatile then st.memory.nvVariableCache
    else st.memory.volatileStore
  let maximum := maximumSizes c st attributes b
  let remaining := if isHardwareErrorRecord attributes then uintnSub maximum.1 (usedSize c st true b)
    else if maximum.1 < usedSize c st false b then 0
    else maximum.1 - usedSize c st false b
  { maximumVariableStorageSize := maximum.1
    remainingVariableStorageSize := remaining
    maximumVariableSize := if remaining < getVariableHeaderSize c.authFormat then 0
      else min (remaining - getVariableHeaderSize c.authFormat) maximum.2 }

end

structure VariableEntryConsistency where
  variableSize : Nat
  guid : Bytes
  name : Bytes
deriving DecidableEq, Repr

section
variable (c : VariableConfig) (st : VariableState)

/-- The first loop leaves the total size of the variable in `VariableSize`. -/
def VariableEntryConsistency.withTotalSize (entry : VariableEntryConsistency) :
    VariableEntryConsistency := let varNameSize := strSize entry.name + getPadSize (strSize entry.name)
  let varDataSize := entry.variableSize + getPadSize entry.variableSize
  { entry with
    variableSize := toUint64
      (headerAlign (getVariableHeaderSize c.authFormat + varNameSize + varDataSize)) }

/-- `OriginalVarSize`: the size of the variable's old copy in the NV store. -/
def originalVarSize (entry : VariableEntryConsistency) : Nat := let b := st.memory.nvVariableCache
  match (findVariableEx c.authFormat st.atRuntime entry.name entry.guid false b).1.currPtr with
  | some p => getNextVariablePtr c.authFormat b p - p
  | none => 0

def fitsInOrder : List VariableEntryConsistency → Nat → Bool
  | [], _ => true
  | entry :: entries, remaining =>
    let remaining := toUint64 (remaining + originalVarSize c st entry)
    if entry.variableSize > remaining then false
    else fitsInOrder entries (remaining-entry.variableSize)

def checkRemainingSpaceForConsistencyInternal (attributes : UInt32)
    (entries : List VariableEntryConsistency) : Bool × List VariableEntryConsistency := let remaining :=
    (variableServiceQueryVariableInfoInternal c st attributes).remainingVariableStorageSize
  let entries := entries.map (·.withTotalSize c)
  let totalNeededSize := toUint64 (entries.map (·.variableSize)).sum
  (decide (remaining ≥ totalNeededSize) || (!st.atRuntime && fitsInOrder c st entries remaining),
    entries)

end

def UpdateRequest.entry (req : UpdateRequest) : VariableEntryConsistency where
  variableSize := req.data.length
  guid := req.vendorGuid
  name := req.variableName

/-- The updates one after the other, with what `FindVariable` finds before each of them. -/
def updateInOrder (c : VariableConfig) (ignoreRtCheck : Bool) :
    VariableState → List UpdateRequest → VariableState × List EfiStatus
  | st, [] => (st, [])
  | st, req :: reqs =>
    let r := updateVariable c st req (foundVariable c st req ignoreRtCheck)
    let rest := updateInOrder c ignoreRtCheck r.1 reqs
    (rest.1, r.2 :: rest.2)

end Liano.Variable
