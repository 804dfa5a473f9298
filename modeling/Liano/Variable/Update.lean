import Liano.Variable.Reclaim

/-! `UpdateVariable` and the `FlushHobVariableToFlash` it ends with. -/
namespace Liano.Variable
open Bytes (slice patch leBytes)

/-- The arguments of `UpdateVariable`; `variableName` is the memory the name pointer points to. -/
structure UpdateRequest where
  variableName : Bytes
  vendorGuid : Bytes
  data : Bytes
  attributes : UInt32
  keyIndex : Nat
  monotonicCount : Nat
  timeStamp : Option Bytes
deriving DecidableEq, Repr

/-- `CacheVariable`: the store it points into, and its two pointers. -/
structure CacheVariable where
  storeType : VariableStoreType
  track : VariablePointerTrack
deriving DecidableEq, Repr

/-- `Attributes & Flag`. -/
def hasAttribute (attributes flag : UInt32) : Bool := attributes &&& flag != 0

def UpdateRequest.isNonVolatile (req : UpdateRequest) : Bool :=
  hasAttribute req.attributes efiVariableNonVolatile

def UpdateRequest.isAppend (req : UpdateRequest) : Bool := hasAttribute req.attributes efiVariableAppendWrite

def UpdateRequest.hasAccess (req : UpdateRequest) : Bool :=
  hasAttribute req.attributes (efiVariableRuntimeAccess ||| efiVariableBootserviceAccess)

def UpdateRequest.isAuthenticated (req : UpdateRequest) : Bool := hasAttribute req.attributes
    (efiVariableTimeBasedAuthenticatedWriteAccess ||| efiVariableAuthenticatedWriteAccess)

/-- `UINTN` subtraction. -/
def uintnSub (a b : Nat) : Nat := toUint64 (a + 2^64 - b)

/-- `VariableCompareTimeStampInternal`: the first time is not later than the second. -/
def variableCompareTimeStampInternal (first second : Bytes) : Bool := let field (b : Bytes) : Nat → Nat
    | 0 => uintAt b 0 2
    | i+1 => uintAt b (i+2) 1
  if field first 0 ≠ field second 0 then decide (field first 0 < field second 0)
  else if field first 1 ≠ field second 1 then decide (field first 1 < field second 1)
  else if field first 2 ≠ field second 2 then decide (field first 2 < field second 2)
  else if field first 3 ≠ field second 3 then decide (field first 3 < field second 3)
  else if field first 4 ≠ field second 4 then decide (field first 4 < field second 4)
  else decide (field first 5 ≤ field second 5)

/-- `TimeStamp` of the new header, given the one of the existing variable. -/
def newTimeStamp (req : UpdateRequest) (existing : Option Bytes) : Bytes := match req.timeStamp with
  | none => List.replicate 16 0
  | some ts =>
    if !hasAttribute req.attributes efiVariableTimeBasedAuthenticatedWriteAccess then
      List.replicate 16 0
    else if !req.isAppend then ts
    else
      match existing with
      | none => List.replicate 16 0
      | some old => if variableCompareTimeStampInternal old ts then ts else old

def newHeader (c : VariableConfig) (req : UpdateRequest) (timeStamp : Bytes)
    (nameSize dataSize : Nat) : Bytes := leBytes 2 variableData ++ [0xff, 0] ++
    leBytes 4 (req.attributes &&& ~~~efiVariableAppendWrite).toNat ++
    (if c.authFormat then leBytes 8 req.monotonicCount ++ timeStamp ++ leBytes 4 req.keyIndex
      else []) ++ leBytes 4 nameSize ++ leBytes 4 dataSize ++ req.vendorGuid

/-- The `VarSize` bytes of the new variable. Merged data of an append lies at the data offset of
the existing variable, which has the same name. -/
def newVariable (c : VariableConfig) (req : UpdateRequest) (existing : Option Bytes)
    (data : Bytes) : Bytes :=
  newHeader c req (newTimeStamp req existing) (strSize req.variableName) data.length ++
    req.variableName.take (strSize req.variableName) ++ data

/-- `HEADER_ALIGN (VarSize)` bytes of the scratch area, which was filled with 0xFF before. -/
def alignedVariable (v : Bytes) : Bytes := v ++ List.replicate (headerAlign v.length - v.length) 0xff

/-- What is left to do once the checks at the start of `UpdateVariable` are made: leave with a
status, delete the existing variable, or write `data`, after marking the existing variable. -/
inductive UpdatePlan
  | done (status : EfiStatus)
  | delete
  | write (data : Bytes) (mark : Bool)
deriving DecidableEq, Repr

/-- The data of an append, or `none` where it exceeds the maximum size. -/
def mergedData (c : VariableConfig) (b : Bytes) (p : Nat) (req : UpdateRequest) : Option Bytes :=
  let dataOffset := getVariableDataOffset c.authFormat b p
  let maxDataSize := if isHardwareErrorRecord req.attributes then
      uintnSub c.pcdMaxHardwareErrorVariableSize dataOffset
    else if req.isAuthenticated then uintnSub c.maxAuthVariableSize dataOffset
    else if req.isNonVolatile then uintnSub c.maxVariableSize dataOffset
    else uintnSub c.maxVolatileVariableSize dataOffset
  if dataSizeOfVariable c.authFormat b p + req.data.length > maxDataSize then none
  else some (dataOf c.authFormat b p ++ req.data)

def updatePlanExisting (c : VariableConfig) (st : VariableState) (req : UpdateRequest)
    (t : VariableStoreType) (p : Nat) : UpdatePlan := let b := cacheStore st t
  if st.atRuntime && t == .volatile then .done .writeProtected
  else if st.atRuntime && !hasAttribute (attributes b p) efiVariableNonVolatile then
    .done .invalidParameter
  else if st.atRuntime && !hasAttribute (attributes b p) efiVariableRuntimeAccess then
    .done .invalidParameter
  else if (!req.isAppend && req.data.length == 0) || !req.hasAccess then .delete
  else if dataSizeOfVariable c.authFormat b p == req.data.length &&
      req.data == dataOf c.authFormat b p && !req.isAppend && req.timeStamp.isNone then
    .done .success
  else if isAdded b p || isInDeletedTransition b p then
    if req.isAppend then
      match mergedData c b p req with
      | none => .done .invalidParameter
      | some data => .write data true
    else .write req.data true
  else .write req.data false

def updatePlanNew (st : VariableState) (req : UpdateRequest) : UpdatePlan :=
  if req.data.length == 0 && req.isAppend then .done .success
  else if req.data.length == 0 || !req.hasAccess then .done .notFound
  else if st.atRuntime && (!hasAttribute req.attributes efiVariableRuntimeAccess ||
      !req.isNonVolatile) then .done .invalidParameter
  else .write req.data false

def updatePlan (c : VariableConfig) (st : VariableState) (req : UpdateRequest)
    (cacheVariable : CacheVariable) : UpdatePlan := match cacheVariable.track.currPtr with
  | some p => updatePlanExisting c st req cacheVariable.storeType p
  | none => updatePlanNew st req

section
variable (c : VariableConfig) (st : VariableState) (req : UpdateRequest)
  (cacheVariable : CacheVariable)

def isCommonUserVariable (v : Bytes) : Bool :=
  !hasAttribute req.attributes efiVariableHardwareErrorRecord && isUserVariable c st v 0

/-- The size checks that lead to the reclaim of the NV store. -/
def quotaExceeded (v : Bytes) : Bool :=
  let isHwErr := hasAttribute req.attributes efiVariableHardwareErrorRecord
  (isHwErr && decide (v.length+st.hwErrVariableTotalSize > c.pcdHwErrStorageSize)) ||
  (!isHwErr && decide (v.length+st.commonVariableTotalSize > c.commonVariableSpace)) ||
  (!isHwErr && st.atRuntime && decide (v.length+st.commonVariableTotalSize > c.commonRuntimeVariableSpace)) ||
  (isCommonUserVariable c st req v &&
    decide (v.length+st.commonUserVariableTotalSize > c.commonMaxUserVariableSpace))

def recordNoSpace (v : Bytes) (systemSpace : Nat) (st : VariableState) : VariableState :=
  let st := if isCommonUserVariable c st req v &&
      decide (v.length+st.commonUserVariableTotalSize > c.commonMaxUserVariableSpace) then
    recordVarErrorFlag c st varErrorFlagUserError else st
  if !hasAttribute req.attributes efiVariableHardwareErrorRecord &&
      decide (v.length+st.commonVariableTotalSize > systemSpace) then
    recordVarErrorFlag c st varErrorFlagSystemError else st

/-- The old entries of an updated or deleted variable are set to DELETED, the
IN_DELETED_TRANSITION one first. -/
def deleteOld (st : VariableState) : VariableState × EfiStatus := match cacheVariable.track.currPtr with
  | none => (st, .success)
  | some p =>
    andThen
      (match cacheVariable.track.inDeletedTransitionPtr with
        | none => (st, .success)
        | some q => updateState c st cacheVariable.storeType q varDeleted)
      fun st => updateState c st cacheVariable.storeType p varDeleted

def writeInSteps (v : Bytes) (st : VariableState) : VariableState × EfiStatus :=
  let offset := st.nonVolatileLastVariableOffset
  let size := getVariableHeaderSize c.authFormat
  andThen (updateVariableStore c st false offset (v.take size)) fun st =>
  andThen (updateVariableStore c st false (offset+offsetOfState) [varHeaderValidOnly]) fun st =>
  andThen (updateVariableStore c st false (offset+size) (v.drop size)) fun st =>
  andThen (updateVariableStore c st false (offset+offsetOfState) [varAdded]) fun st =>
    (st.setStore .nv (patch st.memory.nvVariableCache offset (patch v offsetOfState [varAdded])), .success)

def countNew (v : Bytes) (st : VariableState) : VariableState := let size := headerAlign v.length
  if hasAttribute req.attributes efiVariableHardwareErrorRecord then
    { st with
      nonVolatileLastVariableOffset := st.nonVolatileLastVariableOffset+size
      hwErrVariableTotalSize := st.hwErrVariableTotalSize + size }
  else
    { st with
      nonVolatileLastVariableOffset := st.nonVolatileLastVariableOffset+size
      commonVariableTotalSize := st.commonVariableTotalSize+size
      commonUserVariableTotalSize := st.commonUserVariableTotalSize +
        if isCommonUserVariable c st req v then size else 0 }

/-- `UpdatingPtrTrack` for the reclaim of a store: pointers into another store match no entry. -/
def updatingIn (t : VariableStoreType) : VariablePointerTrack :=
  if cacheVariable.storeType = t then cacheVariable.track else ⟨none, none⟩

/-- The creation of a non-volatile variable `v`, up to the label `Done`. -/
def writeNonVolatile (flush : VariableState → VariableState) (v : Bytes) (st : VariableState) :
    VariableState × EfiStatus := if quotaExceeded c st req v then
    if st.atRuntime then (recordNoSpace c req v c.commonRuntimeVariableSpace st, .outOfResources)
    else
      let r := reclaim c st false (updatingIn cacheVariable .nv) (some (alignedVariable v))
      if r.2.isError then (recordNoSpace c req v c.commonVariableSpace r.1, r.2)
      else (flush r.1, r.2)
  else
    andThen
      (if c.emuNvMode then
        updateVariableStore c st false st.nonVolatileLastVariableOffset (patch v offsetOfState [varAdded])
      else writeInSteps c v st) fun st =>
    andThen (deleteOld c cacheVariable (countNew c req v st)) fun st => (flush st, .success)

/-- The creation of a volatile variable `v`, up to the label `Done`. -/
def writeVolatile (v : Bytes) (st : VariableState) : VariableState × EfiStatus :=
  if toUint32 (v.length+st.volatileLastVariableOffset) > storeSize st.memory.volatileStore then
    reclaim c st true (updatingIn cacheVariable .volatile) (some (alignedVariable v))
  else
    andThen (updateVariableStore c st true st.volatileLastVariableOffset
      (patch v offsetOfState [varAdded])) fun st =>
    deleteOld c cacheVariable
      { st with volatileLastVariableOffset := st.volatileLastVariableOffset + headerAlign v.length }

def plannedVariable (data : Bytes) : Bytes := newVariable c req
    (cacheVariable.track.currPtr.map fun p =>
      slice (cacheStore st cacheVariable.storeType) (p+16) 16) data

/-- The plan, up to the label `Done`. -/
def execute (flush : VariableState → VariableState) : UpdatePlan → VariableState × EfiStatus
  | .done status => (st,status)
  | .delete =>
    andThen (deleteOld c cacheVariable st) fun st =>
      (if cacheVariable.storeType = .volatile then st else flush st, .success)
  | .write data mark =>
    let v := plannedVariable c st req cacheVariable data
    andThen
      (match mark, cacheVariable.track.currPtr with
        | true, some p => updateState c st cacheVariable.storeType p varInDeletedTransition
        | _, _ => (st, .success)) fun st =>
    if req.isNonVolatile then writeNonVolatile c req cacheVariable flush v st
    else writeVolatile c cacheVariable v st

/-- The label `Done`: the runtime cache of the store that was changed is synchronized. -/
def updateDone (r : VariableState × EfiStatus) : VariableState × EfiStatus := andThen r fun st =>
    let id : CacheId := if (cacheVariable.track.currPtr.isSome &&
      cacheVariable.storeType != .volatile) || req.isNonVolatile then .nv else .volatile
    match (st.memory.cache id).store with
    | none => (st,r.2)
    | some store => synchronize st id (storeSize store)

/-- FVB is not there yet: an NV or authenticated variable cannot be written. -/
def notAvailableYet : Bool := !st.fvbInstance && !c.emuNvMode && (req.isNonVolatile || req.isAuthenticated)

/-- `CacheVariable` in the variable HOB is exchanged for the variable's place in the NV cache. -/
def switchFromHob : CacheVariable :=
  if cacheVariable.track.currPtr.isSome && st.memory.hobVariableBase != 0 &&
      cacheVariable.storeType == .hob then
    { storeType := .nv
      track := (findVariableEx c.authFormat st.atRuntime req.variableName req.vendorGuid false
        st.memory.nvVariableCache).1 }
  else cacheVariable

/-- `UpdateVariable`, with the flush of the variable HOB it makes at its end. -/
def updateVariableWith (flush : VariableState → VariableState) : VariableState × EfiStatus :=
  if notAvailableYet c st req then (st, .notAvailableYet)
  else
    let cv := switchFromHob c st req cacheVariable
    if cacheVariable.track.currPtr.isSome && cv.track.currPtr.isNone &&
        ((!req.isAppend && req.data.length == 0) || req.attributes == 0) then
      -- only the variable HOB has the variable to be deleted
      (flush st, .success)
    else updateDone req cv (execute c st req cv flush (updatePlan c st req cv))

end

/-- `UpdateVariable` as the flush calls it: with `HobVariableBase` zero its own flush does nothing. -/
def updateFromHob (c : VariableConfig) (b : Bytes) (p : Nat) (st : VariableState) :
    VariableState × EfiStatus := let name := b.drop (getVariableNamePtr c.authFormat p)
  let guid := vendorGuidOf c.authFormat b p
  let track := findVariable c.authFormat st.atRuntime (variableStores st) name guid false
  let cacheVariable : CacheVariable := match track with
    | some (t,track) => ⟨t, track⟩
    | none => ⟨.nv, ⟨none, none⟩⟩
  updateVariableWith c st ⟨name, guid, dataOf c.authFormat b p, attributes b p, 0, 0, none⟩
    cacheVariable id

/-- One variable of the HOB store, with the locals of the loop: the store and `ErrorFlag`. -/
def flushHobVariable (c : VariableConfig) (variableName vendorGuid : Bytes)
    (r : VariableState × Bool) (p : Nat) : VariableState × Bool := let b := r.1.memory.hobStore
  if !isAdded b p then r
  else
    let name := b.drop (getVariableNamePtr c.authFormat p)
    let w := if vendorGuid ≠ vendorGuidOf c.authFormat b p ∨
          variableName.take (strSize variableName) ≠ name.take (strSize name) then
        updateFromHob c b p r.1
      else (r.1, .success)
    if w.2.isError then (w.1,true)
    else ({ w.1 with memory := clearHobState w.1.memory (p+offsetOfState) }, r.2)

def flushHobVariableToFlash (c : VariableConfig) (variableName vendorGuid : Bytes)
    (st : VariableState) : VariableState := if st.memory.hobVariableBase = 0 then st
  else
    let base := st.memory.hobVariableBase
    let st := { st with memory := { st.memory with hobVariableBase := 0 } }
    let r := (headers c.authFormat st.memory.hobStore).foldl
      (flushHobVariable c variableName vendorGuid) (st,false)
    { r.1 with memory := endHobFlush r.1.memory ⟨base, r.2⟩ }

def updateVariable (c : VariableConfig) (st : VariableState) (req : UpdateRequest)
    (cacheVariable : CacheVariable) : VariableState × EfiStatus := updateVariableWith c st req cacheVariable
    (flushHobVariableToFlash c req.variableName req.vendorGuid)

end Liano.Variable
