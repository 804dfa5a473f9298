import Liano.Lib.Bytes
import Liano.Lib.Run
import Liano.Efi

/-! Runtime variable caches: `VariableRuntimeCache.c`, the initial pending request of
`SmmVariableHandler`, and the accesses `FlushHobVariableToFlash` makes to the HOB store.
A store's `Size` is the length of its byte array; a NULL pointer is `none`. -/
namespace Liano.Variable
open Bytes (slice patch)

structure VariableRuntimeCache where
  pendingUpdateOffset : Nat
  pendingUpdateLength : Nat
  store : Option Bytes
deriving DecidableEq, Repr

structure VariableRuntimeCacheContext where
  readLock : Option Bool
  pendingUpdate : Option Bool
  hobFlushComplete : Option Bool
  variableRuntimeHobCache : VariableRuntimeCache
  variableRuntimeNvCache : VariableRuntimeCache
  variableRuntimeVolatileCache : VariableRuntimeCache
deriving DecidableEq, Repr

/-- The live stores and the runtime cache context. `hobStore` is the memory of the HOB store,
which is a source of the HOB cache only while `hobVariableBase` points to it. -/
structure VariableMemory where
  hobVariableBase : Nat
  hobStore : Bytes
  nvVariableCache : Bytes
  volatileStore : Bytes
  context : VariableRuntimeCacheContext
deriving DecidableEq, Repr

/-- Which member of the context a `VARIABLE_RUNTIME_CACHE *` points to. -/
inductive CacheId
  | hob
  | nv
  | volatile
deriving DecidableEq, Repr

section
variable (m : VariableMemory)

def VariableMemory.cache : CacheId → VariableRuntimeCache
  | .hob => m.context.variableRuntimeHobCache
  | .nv => m.context.variableRuntimeNvCache
  | .volatile => m.context.variableRuntimeVolatileCache

def VariableMemory.source : CacheId → Bytes
  | .hob => m.hobStore
  | .nv => m.nvVariableCache
  | .volatile => m.volatileStore

def VariableMemory.setCache (id : CacheId) (c : VariableRuntimeCache) :
    VariableMemory := match id with
  | .hob => { m with context := { m.context with variableRuntimeHobCache := c } }
  | .nv => { m with context := { m.context with variableRuntimeNvCache := c } }
  | .volatile => { m with context := { m.context with variableRuntimeVolatileCache := c } }

def VariableMemory.setSource (id : CacheId) (b : Bytes) : VariableMemory := match id with
  | .hob => { m with hobStore := b }
  | .nv => { m with nvVariableCache := b }
  | .volatile => { m with volatileStore := b }

def VariableMemory.setPendingUpdate (b : Bool) : VariableMemory :=
  { m with context := { m.context with pendingUpdate := some b } }

/-- One `CopyMem` of `FlushPendingRuntimeVariableCacheUpdates` and the reset of its range. -/
def VariableRuntimeCache.copyPending (c : VariableRuntimeCache) (src : Bytes) : VariableRuntimeCache where
  store := c.store.map fun st =>
    patch st c.pendingUpdateOffset (slice src c.pendingUpdateOffset c.pendingUpdateLength)
  pendingUpdateLength := 0
  pendingUpdateOffset := 0

/-- The HOB copy is skipped while there is no HOB cache or no HOB store. -/
def flushPendingHob : VariableMemory :=
  if (m.cache .hob).store.isSome ∧ m.hobVariableBase > 0 then
    m.setCache .hob ((m.cache .hob).copyPending (m.source .hob))
  else m

def flushPendingRuntimeVariableCacheUpdates : VariableMemory × EfiStatus :=
  match (m.cache .nv).store, (m.cache .volatile).store, m.context.pendingUpdate with
  | some _, some _, some pending =>
    if pending then
      let m := flushPendingHob m
      let m := m.setCache .nv ((m.cache .nv).copyPending (m.source .nv))
      let m := m.setCache .volatile ((m.cache .volatile).copyPending (m.source .volatile))
      (m.setPendingUpdate false, .success)
    else (m, .success)
  | _, _, _ => (m, .unsupported)

/-- The pending range grows to the hull of itself and the new range, or is the new range
when nothing is pending. -/
def VariableRuntimeCache.addPending (c : VariableRuntimeCache) (pending : Bool)
    (offset length : Nat) : VariableRuntimeCache := if pending ∧ c.pendingUpdateLength > 0 then
    { c with
      pendingUpdateLength := toUint32
        (max (toUint32 (c.pendingUpdateOffset+c.pendingUpdateLength)) (toUint64 (offset+length))
          - min c.pendingUpdateOffset offset)
      pendingUpdateOffset := toUint32 (min c.pendingUpdateOffset offset) }
  else
    { c with
      pendingUpdateLength := toUint32 length
      pendingUpdateOffset := toUint32 offset }

/-- `none` for `VariableRuntimeCache` is the NULL argument. -/
def synchronizeRuntimeVariableCache (variableRuntimeCache : Option CacheId)
    (offset length : Nat) : VariableMemory × EfiStatus := match variableRuntimeCache with
  | none => (m, .invalidParameter)
  | some id =>
    match (m.cache id).store with
    | none => (m, .success)
    | some _ =>
      match m.context.pendingUpdate, m.context.readLock with
      | some pending, some readLock =>
        let m := m.setCache id ((m.cache id).addPending pending offset length)
        let m := m.setPendingUpdate true
        if readLock = false then flushPendingRuntimeVariableCacheUpdates m else (m, .success)
      | _, _ => (m, .unsupported)

/-- The locals of a `FlushHobVariableToFlash` pass: the saved `HobVariableBase` and `ErrorFlag`. -/
structure HobFlush where
  variableStoreHeader : Nat
  errorFlag : Bool
deriving DecidableEq, Repr

structure CacheRun where
  memory : VariableMemory
  flushing : Option HobFlush
deriving DecidableEq, Repr

/-- `hobVariableWritten` and `hobVariableFailed` are the two outcomes of one HOB variable in the
loop of `FlushHobVariableToFlash`; the store changes its `UpdateVariable` makes are `change`s. -/
inductive CacheAction
  | change (id : CacheId) (off : Nat) (data : Bytes) (syncOffset syncLength : Nat)
  | readLock (b : Bool)
  | flushPending
  | flushHobBegin
  | hobVariableWritten (stateOffset : Nat)
  | hobVariableFailed
  | flushHobEnd
deriving DecidableEq, Repr

/-- A store is there to be changed: the HOB store only while `HobVariableBase` is not zero. -/
def VariableMemory.Live : CacheId → Prop
  | .hob => m.hobVariableBase ≠ 0
  | .nv => True
  | .volatile => True

instance (m : VariableMemory) (id : CacheId) : Decidable (m.Live id) := by
  cases id <;> unfold VariableMemory.Live <;> infer_instance

/-- `Variable->State &= VAR_DELETED` at the given byte. -/
def clearHobState (stateOffset : Nat) : VariableMemory :=
  m.setSource .hob (patch m.hobStore stateOffset ((slice m.hobStore stateOffset 1).map (· &&& 0xfd)))

/-- The tail of `FlushHobVariableToFlash`, from the synchronization of the HOB cache on. -/
def endHobFlush (f : HobFlush) : VariableMemory :=
  let m := match (m.cache .hob).store with
    | some st => (synchronizeRuntimeVariableCache m (some .hob) 0 st.length).1
    | none => m
  if f.errorFlag then { m with hobVariableBase := f.variableStoreHeader }
  else { m with context := { m.context with
    hobFlushComplete := m.context.hobFlushComplete.map fun _ => true } }

def cacheStep (r : CacheRun) : CacheAction → Option CacheRun
  | .change id off data syncOffset syncLength =>
    if r.memory.Live id ∧ syncOffset ≤ off ∧ off+data.length ≤ syncOffset+syncLength ∧
        syncOffset+syncLength ≤ (r.memory.source id).length then
      let m := r.memory.setSource id (patch (r.memory.source id) off data)
      some { r with memory := (synchronizeRuntimeVariableCache m (some id) syncOffset syncLength).1 }
    else none
  | .readLock b =>
    some { r with memory := { r.memory with
      context := { r.memory.context with readLock := r.memory.context.readLock.map fun _ => b } } }
  | .flushPending => some { r with memory := (flushPendingRuntimeVariableCacheUpdates r.memory).1 }
  | .flushHobBegin =>
    if r.memory.hobVariableBase ≠ 0 then
      some { memory := { r.memory with hobVariableBase := 0 }
             flushing := some ⟨r.memory.hobVariableBase, false⟩ }
    else some r
  | .hobVariableWritten stateOffset =>
    if r.flushing.isSome ∧ stateOffset < r.memory.hobStore.length then
      some { r with memory := clearHobState r.memory stateOffset }
    else none
  | .hobVariableFailed =>
    r.flushing.map fun f => { r with flushing := some { f with errorFlag := true } }
  | .flushHobEnd => r.flushing.map fun f => { memory := endHobFlush r.memory f, flushing := none }

/-- The pending request and flags `SmmVariableHandler` sets up for
`SMM_VARIABLE_FUNCTION_INIT_RUNTIME_VARIABLE_CACHE_CONTEXT`, with the three `CopyGuid`s. -/
def initRuntimeVariableCacheContext (runtimeHobCache : Option Bytes)
    (runtimeVolatileCache runtimeNvCache : Bytes) : VariableMemory :=
  let copySignature (st src : Bytes) : Bytes := patch st 0 (slice src 0 16)
  { m with context :=
    { readLock := some false
      pendingUpdate := some true
      hobFlushComplete := some false
      variableRuntimeHobCache :=
        { store := runtimeHobCache.map fun st =>
            if m.hobVariableBase > 0 then copySignature st m.hobStore else st
          pendingUpdateOffset := 0
          pendingUpdateLength :=
            if m.hobVariableBase > 0 ∧ runtimeHobCache.isSome then toUint32 m.hobStore.length else 0 }
      variableRuntimeVolatileCache :=
        { store := some (copySignature runtimeVolatileCache m.volatileStore)
          pendingUpdateOffset := 0
          pendingUpdateLength := toUint32 m.volatileStore.length }
      variableRuntimeNvCache :=
        { store := some (copySignature runtimeNvCache m.nvVariableCache)
          pendingUpdateOffset := 0
          pendingUpdateLength := toUint32 m.nvVariableCache.length } } }

end

end Liano.Variable
