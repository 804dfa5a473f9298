import Liano.Variable.State

/-! `Reclaim`: the garbage collection of a variable store, with or without a new variable. -/
namespace Liano.Variable
open Bytes (slice patch)

/-- The locals of `Reclaim` that its loops change. -/
structure ReclaimBuffer where
  validBuffer : Bytes
  currPtr : Nat
  hwErrVariableTotalSize : Nat
  commonVariableTotalSize : Nat
  commonUserVariableTotalSize : Nat
deriving DecidableEq, Repr

def ReclaimBuffer.count (r : ReclaimBuffer) (hwErr user : Bool) (size : Nat) : ReclaimBuffer :=
  if hwErr then { r with hwErrVariableTotalSize := r.hwErrVariableTotalSize + size }
  else
    { r with
      commonVariableTotalSize := r.commonVariableTotalSize+size
      commonUserVariableTotalSize := r.commonUserVariableTotalSize + if user then size else 0 }

/-- `CopyMem (CurrPtr, ...)` and the step of `CurrPtr`. -/
def ReclaimBuffer.copy (r : ReclaimBuffer) (data : Bytes) : ReclaimBuffer := { r with
    validBuffer := patch r.validBuffer r.currPtr data
    currPtr := r.currPtr + data.length }

section
variable (c : VariableConfig) (st : VariableState) (isVolatile : Bool) (b : Bytes)

/-- The variable at `p`, `NextVariable - Variable` bytes. -/
def variableAt (p : Nat) : Bytes := slice b p (getNextVariablePtr c.authFormat b p - p)

def ReclaimBuffer.countVariable (r : ReclaimBuffer) (p : Nat) : ReclaimBuffer := if isVolatile then r
  else r.count (isHardwareErrorRecord (attributes b p)) (isUserVariable c st b p)
    (getNextVariablePtr c.authFormat b p - p)

section
variable (updating : VariablePointerTrack)

/-- The body of the first loop: ADDED variables are reinstalled. -/
def reinstallAdded (r : ReclaimBuffer) (p : Nat) : ReclaimBuffer :=
  if updating.currPtr ≠ some p ∧ isAdded b p then
    (r.copy (variableAt c b p)).countVariable c st isVolatile b p
  else r

/-- `FoundAdded`: a variable of that name and GUID is in the buffer already. -/
def foundAdded (validBuffer : Bytes) (p : Nat) : Bool := (headers c.authFormat validBuffer).any fun q =>
    vendorGuidOf c.authFormat validBuffer q == vendorGuidOf c.authFormat b p &&
    nameSizeOfVariable c.authFormat validBuffer q == nameSizeOfVariable c.authFormat b p &&
    nameOf c.authFormat validBuffer q ==
      slice b (getVariableNamePtr c.authFormat p) (nameSizeOfVariable c.authFormat validBuffer q)

/-- The body of the second loop: IN_DELETED_TRANSITION variables are promoted to ADDED. -/
def reinstallTransition (r : ReclaimBuffer) (p : Nat) :
    ReclaimBuffer := if updating.currPtr ≠ some p ∧ updating.inDeletedTransitionPtr ≠ some p ∧
      isInDeletedTransition b p ∧ foundAdded c b r.validBuffer p = false then
    (r.copy (patch (variableAt c b p) offsetOfState [varAdded])).countVariable c st isVolatile b p
  else r

def maximumBufferSize (newVariable : Option Bytes) : Nat :=
  variableStoreHeaderSize + (((headers c.authFormat b).filter fun p =>
      (isAdded b p || isInDeletedTransition b p) && updating.currPtr != some p &&
        updating.inDeletedTransitionPtr != some p).map fun p =>
          getNextVariablePtr c.authFormat b p - p).sum + (newVariable.elim 0 List.length) + 1

def reinstall (bufferSize : Nat) : ReclaimBuffer :=
  let r : ReclaimBuffer :=
    { validBuffer := patch (List.replicate bufferSize 0xff) 0 (slice b 0 variableStoreHeaderSize)
      currPtr := getStartPointer
      hwErrVariableTotalSize := 0
      commonVariableTotalSize := 0
      commonUserVariableTotalSize := 0 }
  let r := (headers c.authFormat b).foldl (reinstallAdded c st isVolatile b updating) r
  (headers c.authFormat b).foldl (reinstallTransition c st isVolatile b updating) r

end

/-- The new variable, or `none` where there is no space for it. -/
def installNew (r : ReclaimBuffer) (newVariable : Bytes) : Option ReclaimBuffer :=
  if r.currPtr+newVariable.length > storeSize b then none
  else
    let r' := if isVolatile then r
      else r.count (isHardwareErrorRecord (attributes newVariable 0))
        (isUserVariable c st newVariable 0) newVariable.length
    if !isVolatile && (decide (r'.hwErrVariableTotalSize > c.pcdHwErrStorageSize) ||
        decide (r'.commonVariableTotalSize > c.commonVariableSpace) ||
        decide (r'.commonUserVariableTotalSize > c.commonMaxUserVariableSpace)) then none
    else some (r'.copy (patch newVariable offsetOfState [varAdded]))

def walkTotals : ReclaimBuffer :=
  (headers c.authFormat b).foldl (fun r p => r.countVariable c st false b p) ⟨[], 0, 0, 0, 0⟩

end

def VariableState.setTotals (st : VariableState) (r : ReclaimBuffer) : VariableState := { st with
    hwErrVariableTotalSize := r.hwErrVariableTotalSize
    commonVariableTotalSize := r.commonVariableTotalSize
    commonUserVariableTotalSize := r.commonUserVariableTotalSize }

section
variable (c : VariableConfig) (st : VariableState)

/-- `FtwVariableSpace`: one that succeeds has written the whole store. -/
def ftwVariableSpace (variableBuffer : Bytes) :
    VariableState × EfiStatus := let status := st.ftwStatus.headD .success
  let written := patch st.flash c.nonVolatileVariableBase variableBuffer
  let flash := if status.isError then
      match st.ftwLeft.headD .untouched with
      | .untouched => st.flash
      | .written => written
      | .torn flash => patch st.flash 0 (flash.take st.flash.length)
    else written
  ({ st with flash := flash, ftwStatus := st.ftwStatus.tail, ftwLeft := st.ftwLeft.tail }, status)

def writeBack (isVolatile : Bool) (size : Nat)
    (r : ReclaimBuffer) : VariableState × EfiStatus := if isVolatile || c.emuNvMode then
    let id : CacheId := if isVolatile then .volatile else .nv
    let st := st.setStore id (patch (List.replicate size 0xff) 0 (r.validBuffer.take r.currPtr))
    if isVolatile then ({ st with volatileLastVariableOffset := r.currPtr }, .success)
    else (({ st with nonVolatileLastVariableOffset := r.currPtr } : VariableState).setTotals r, .success)
  else
    let w := ftwVariableSpace c st r.validBuffer
    if w.2.isError then
      let b := nvStore c w.1
      (({ w.1 with
          nonVolatileLastVariableOffset := walkEnd c.authFormat b } : VariableState).setTotals
            (walkTotals c w.1 b), w.2)
    else (({ w.1 with nonVolatileLastVariableOffset := r.currPtr } : VariableState).setTotals r, w.2)

/-- The label `Done`, whose status is the one that `Reclaim` returns. -/
def reclaimDone (isVolatile : Bool) (size : Nat) :
    VariableState × EfiStatus := if isVolatile || c.emuNvMode then synchronize st .volatile size
  else synchronize (st.setStore .nv (nvStore c st)) .nv size

/-- `Reclaim` of the volatile or the NV store. `UpdatingPtrTrack` points into that store; the
pointer it is left with is not modelled, as its callers only hand it on. -/
def reclaim (isVolatile : Bool)
    (updating : VariablePointerTrack) (newVariable : Option Bytes) : VariableState × EfiStatus :=
  let b := if isVolatile then st.memory.volatileStore else nvStore c st
  if (isVolatile || c.emuNvMode) && st.poolExhausted then (st, .outOfResources)
  else
    let bufferSize := if isVolatile || c.emuNvMode then
      maximumBufferSize c b updating newVariable else storeSize st.memory.nvVariableCache
    let r := reinstall c st isVolatile b updating bufferSize
    let installed := match newVariable with
      | none => some r
      | some v => installNew c st isVolatile b r v
    -- the status of a refused or failed write back does not pass `Done`
    let st := match installed with
      | none => st
      | some r => (writeBack c st isVolatile (storeSize b) r).1
    reclaimDone c st isVolatile (storeSize b)

end

end Liano.Variable
