import Liano.Variable.RuntimeCache

/-! Coherence of the runtime variable caches over every run: a byte that differs from its live
store is pending, and lies inside the pending range of its cache. -/
namespace Liano.Variable
open Bytes (slice patch)
open Run (Reaches)

section
variable (m : VariableMemory)

@[simp] theorem cache_setCache (id id' : CacheId) (c : VariableRuntimeCache) :
    (m.setCache id c).cache id' = if id' = id then c else m.cache id' := by
  cases id <;> cases id' <;> rfl

@[simp] theorem source_setCache (id id' : CacheId) (c : VariableRuntimeCache) :
    (m.setCache id c).source id' = m.source id' := by cases id <;> cases id' <;> rfl

@[simp] theorem cache_setSource (id id' : CacheId) (b : Bytes) :
    (m.setSource id b).cache id' = m.cache id' := by cases id <;> cases id' <;> rfl

@[simp] theorem source_setSource (id id' : CacheId) (b : Bytes) :
    (m.setSource id b).source id' = if id' = id then b else m.source id' := by
  cases id <;> cases id' <;> rfl

@[simp] theorem cache_setPendingUpdate (b : Bool) (id : CacheId) :
    (m.setPendingUpdate b).cache id = m.cache id := by cases id <;> rfl

@[simp] theorem source_setPendingUpdate (b : Bool) (id : CacheId) :
    (m.setPendingUpdate b).source id = m.source id := by cases id <;> rfl

@[simp] theorem base_setCache (id : CacheId) (c : VariableRuntimeCache) :
    (m.setCache id c).hobVariableBase = m.hobVariableBase := by cases id <;> rfl

@[simp] theorem base_setSource (id : CacheId) (b : Bytes) :
    (m.setSource id b).hobVariableBase = m.hobVariableBase := by cases id <;> rfl

@[simp] theorem base_setPendingUpdate (b : Bool) :
    (m.setPendingUpdate b).hobVariableBase = m.hobVariableBase := rfl

@[simp] theorem readLock_setCache (id : CacheId) (c : VariableRuntimeCache) :
    (m.setCache id c).context.readLock = m.context.readLock := by cases id <;> rfl

@[simp] theorem context_setSource (id : CacheId) (b : Bytes) : (m.setSource id b).context = m.context := by
  cases id <;> rfl

@[simp] theorem pendingUpdate_setPendingUpdate (b : Bool) :
    (m.setPendingUpdate b).context.pendingUpdate = some b := rfl

@[simp] theorem readLock_setPendingUpdate (b : Bool) :
    (m.setPendingUpdate b).context.readLock = m.context.readLock := rfl

end

variable {m m' : VariableMemory}

theorem live_iff_of_base (h : m'.hobVariableBase = m.hobVariableBase)
    (id : CacheId) : m'.Live id ↔ m.Live id := by cases id <;> simp only [VariableMemory.Live, h]

/-- Wherever the cache differs from `src` an update is pending and the byte is in its range. -/
def Covered (pending : Option Bool) (c : VariableRuntimeCache) (src : Bytes) : Prop :=
  ∀ st, c.store = some st → ∀ i : Nat, st[i]? ≠ src[i]? →
    pending = some true ∧ c.pendingUpdateOffset ≤ i ∧ i < c.pendingUpdateOffset+c.pendingUpdateLength

structure Fits (c : VariableRuntimeCache) (src : Bytes) : Prop where
  length : ∀ st, c.store = some st → st.length = src.length
  range : c.pendingUpdateOffset+c.pendingUpdateLength ≤ src.length
  small : src.length < 2^32

def Coherent (m : VariableMemory) : Prop :=
  ∀ id, m.Live id → Covered m.context.pendingUpdate (m.cache id) (m.source id)

def InSync (m : VariableMemory) : Prop := ∀ id st, m.Live id → (m.cache id).store = some st → st = m.source id

/-- What `SMM_VARIABLE_FUNCTION_INIT_RUNTIME_VARIABLE_CACHE_CONTEXT` sets up and nothing undoes. -/
structure Ready (m : VariableMemory) : Prop where
  pending : m.context.pendingUpdate.isSome
  lock : m.context.readLock.isSome
  nv : (m.cache .nv).store.isSome
  volatile : (m.cache .volatile).store.isSome
  fits : ∀ id, Fits (m.cache id) (m.source id)

variable {c : VariableRuntimeCache} {src : Bytes}

theorem Covered.of_eq (p : Option Bool) (h : ∀ st, c.store = some st → st = src) : Covered p c src :=
  fun st hst i hi => absurd (congrArg (·[i]?) (h st hst)) hi

variable {st : Bytes} {off : Nat} {r' : CacheRun}

theorem Covered.eq_of_idle (h : Covered (some false) c src) (hst : c.store = some st) : st = src := by
  apply List.ext_getElem?
  intro i
  by_contra hi
  exact absurd (h st hst i hi).1 (by simp)

theorem Coherent.inSync (h : Coherent m) (hp : m.context.pendingUpdate = some false) : InSync m :=
  fun id _ hl hst => (hp ▸ h id hl).eq_of_idle hst

theorem copyPending_store (hf : Fits c src)
    (hc : Covered (some true) c src) (hst : (c.copyPending src).store = some st) : st = src := by
  simp only [VariableRuntimeCache.copyPending, Option.map_eq_some_iff] at hst
  obtain ⟨old,hold,rfl⟩ := hst
  have hlen := hf.length old hold
  have hrng := hf.range
  apply List.ext_getElem?
  intro i
  rw [Bytes.getElem?_patch_slice (by omega) (by omega)]
  split
  · rfl
  · rename_i hi
    by_contra hne
    exact hi (hc old hold i hne).2

theorem copyPending_fits (hf : Fits c src) : Fits (c.copyPending src) src := by
  refine ⟨?_, Nat.zero_le _, hf.small⟩
  intro st hst
  simp only [VariableRuntimeCache.copyPending, Option.map_eq_some_iff] at hst
  obtain ⟨old,hold,rfl⟩ := hst
  have hrng := hf.range
  have hlen := hf.length old hold
  rw [Bytes.length_patch (by rw [Bytes.length_slice hrng]; omega), hlen]

theorem flush_cache (hr : Ready m) (id : CacheId) : (flushPendingRuntimeVariableCacheUpdates m).1.cache id =
      if m.context.pendingUpdate = some true ∧ m.Live id ∧ (m.cache id).store.isSome then
        (m.cache id).copyPending (m.source id)
      else m.cache id := by
  obtain ⟨nv,hnv⟩ := Option.isSome_iff_exists.mp hr.nv
  obtain ⟨vol,hvol⟩ := Option.isSome_iff_exists.mp hr.volatile
  obtain ⟨pending,hp⟩ := Option.isSome_iff_exists.mp hr.pending
  simp only [flushPendingRuntimeVariableCacheUpdates, hnv, hvol, hp]
  cases pending with
  | false => simp
  | true =>
    by_cases hh : (m.cache .hob).store.isSome ∧ m.hobVariableBase > 0
    · cases id <;> simp [flushPendingHob, hh, hnv, hvol, VariableMemory.Live, Nat.pos_iff_ne_zero.mp hh.2]
    have hh' : ¬ (m.hobVariableBase ≠ 0 ∧ (m.cache .hob).store.isSome) :=
      fun ⟨h1, h2⟩ => hh ⟨h2, Nat.pos_of_ne_zero h1⟩
    cases id <;> simp only [flushPendingHob, hh, if_false, if_true, cache_setPendingUpdate,
      cache_setCache, reduceCtorEq, VariableMemory.Live, hnv, hvol, hh', true_and,
      Option.isSome_some, source_setCache]

@[simp] theorem flush_source (m : VariableMemory) (id : CacheId) :
    (flushPendingRuntimeVariableCacheUpdates m).1.source id = m.source id := by
  unfold flushPendingRuntimeVariableCacheUpdates flushPendingHob
  split
  · split
    · split <;> simp
    · rfl
  · rfl

@[simp] theorem flush_base (m : VariableMemory) :
    (flushPendingRuntimeVariableCacheUpdates m).1.hobVariableBase = m.hobVariableBase := by
  unfold flushPendingRuntimeVariableCacheUpdates flushPendingHob
  split
  · split
    · split <;> simp
    · rfl
  · rfl

@[simp] theorem flush_readLock (m : VariableMemory) :
    (flushPendingRuntimeVariableCacheUpdates m).1.context.readLock = m.context.readLock := by
  unfold flushPendingRuntimeVariableCacheUpdates flushPendingHob
  split
  · split
    · split <;> simp
    · rfl
  · rfl

theorem flush_pendingUpdate (hr : Ready m) :
    (flushPendingRuntimeVariableCacheUpdates m).1.context.pendingUpdate = some false := by
  obtain ⟨nv,hnv⟩ := Option.isSome_iff_exists.mp hr.nv
  obtain ⟨vol,hvol⟩ := Option.isSome_iff_exists.mp hr.volatile
  obtain ⟨pending,hp⟩ := Option.isSome_iff_exists.mp hr.pending
  simp only [flushPendingRuntimeVariableCacheUpdates, hnv, hvol, hp]
  cases pending with
  | false => simpa using hp
  | true => rfl

theorem flush_ready (hr : Ready m) : Ready (flushPendingRuntimeVariableCacheUpdates m).1 := by
  have hstore : ∀ id, ((flushPendingRuntimeVariableCacheUpdates m).1.cache id).store.isSome =
      (m.cache id).store.isSome := by
    intro id
    rw [flush_cache hr]
    split
    · simp [VariableRuntimeCache.copyPending]
    · rfl
  refine ⟨by simp [flush_pendingUpdate hr], by simpa using hr.lock, ?_, ?_, ?_⟩
  · rw [hstore]
    exact hr.nv
  · rw [hstore]
    exact hr.volatile
  · intro id
    rw [flush_cache hr, flush_source]
    split
    · exact copyPending_fits (hr.fits id)
    · exact hr.fits id

theorem flush_inSync (hr : Ready m) (hc : Coherent m) :
    InSync (flushPendingRuntimeVariableCacheUpdates m).1 := by
  intro id st hl hst
  rw [live_iff_of_base (flush_base m)] at hl
  rw [flush_source]
  rw [flush_cache hr] at hst
  split at hst
  · rename_i hp
    exact copyPending_store (hr.fits id) (hp.1 ▸ hc id hl) hst
  rename_i hp
  obtain ⟨pending,hpend⟩ := Option.isSome_iff_exists.mp hr.pending
  cases pending with
  | false => exact (hpend ▸ hc id hl).eq_of_idle hst
  | true => exact absurd ⟨hpend, hl, by simp [hst]⟩ hp

theorem InSync.coherent (h : InSync m) : Coherent m := fun id hl => Covered.of_eq _ (h id · hl)

variable {offset length : Nat}

theorem addPending_range (hf : Fits c src) (pending : Bool) (h : offset+length ≤ src.length) :
    let d := c.addPending pending offset length
    d.pendingUpdateOffset+d.pendingUpdateLength ≤ src.length ∧
      ∀ i, (offset ≤ i ∧ i < offset+length) ∨ (pending = true ∧ c.pendingUpdateOffset ≤ i ∧
          i < c.pendingUpdateOffset+c.pendingUpdateLength) →
        d.pendingUpdateOffset ≤ i ∧ i < d.pendingUpdateOffset+d.pendingUpdateLength := by
  have hr := hf.range
  have hs := hf.small
  intro d
  by_cases hp : pending ∧ c.pendingUpdateLength > 0
  · have hd : d.pendingUpdateOffset = min c.pendingUpdateOffset offset ∧
        d.pendingUpdateLength = max (c.pendingUpdateOffset+c.pendingUpdateLength) (offset+length)
          - min c.pendingUpdateOffset offset := by
      simp only [d, VariableRuntimeCache.addPending, hp, and_self, if_true]
      rw [toUint32_of_lt (n := c.pendingUpdateOffset+c.pendingUpdateLength) (by omega),
        toUint64_of_lt (by omega), toUint32_of_lt (by omega), toUint32_of_lt (by omega)]
      exact ⟨rfl, rfl⟩
    exact ⟨by omega, fun i hi => by omega⟩
  · have hd : d.pendingUpdateOffset = offset ∧ d.pendingUpdateLength = length := by
      simp only [d, VariableRuntimeCache.addPending, hp, if_false]
      exact ⟨toUint32_of_lt (by omega), toUint32_of_lt (by omega)⟩
    rw [hd.1, hd.2]
    refine ⟨h, fun i hi => ?_⟩
    rcases hi with hi | ⟨hb,hlo,hhi⟩
    · exact hi
    · exact absurd ⟨hb, by omega⟩ hp

@[simp] theorem addPending_store (c : VariableRuntimeCache) (pending : Bool) (offset length : Nat) :
    (c.addPending pending offset length).store = c.store := by
  unfold VariableRuntimeCache.addPending
  split <;> rfl

/-- The request `SynchronizeRuntimeVariableCache` records before it looks at the read lock. -/
def markPending (m : VariableMemory) (id : CacheId) (pending : Bool) (offset length : Nat) : VariableMemory :=
  (m.setCache id ((m.cache id).addPending pending offset length)).setPendingUpdate true

theorem sync_cases (hr : Ready m) (id : CacheId) (offset length : Nat) : ((m.cache id).store = none ∧
        synchronizeRuntimeVariableCache m (some id) offset length = (m, .success)) ∨
    ∃ pending, m.context.pendingUpdate = some pending ∧
      ((m.context.readLock = some false ∧ synchronizeRuntimeVariableCache m (some id) offset length =
          flushPendingRuntimeVariableCacheUpdates (markPending m id pending offset length)) ∨
        (m.context.readLock = some true ∧ synchronizeRuntimeVariableCache m (some id) offset length =
          (markPending m id pending offset length, .success))) := by
  obtain ⟨pending,hp⟩ := Option.isSome_iff_exists.mp hr.pending
  obtain ⟨lock,hl⟩ := Option.isSome_iff_exists.mp hr.lock
  cases hst : (m.cache id).store with
  | none => exact .inl ⟨rfl, by simp [synchronizeRuntimeVariableCache, hst]⟩
  | some st =>
    refine .inr ⟨pending, hp, ?_⟩
    cases lock with
    | false => exact .inl ⟨hl, by simp [synchronizeRuntimeVariableCache, hst, hp, hl, markPending]⟩
    | true => exact .inr ⟨hl, by simp [synchronizeRuntimeVariableCache, hst, hp, hl, markPending]⟩

variable {id : CacheId}

theorem markPending_ready (hr : Ready m) {pending : Bool} (h : offset+length ≤ (m.source id).length) :
    Ready (markPending m id pending offset length) := by
  have hstore : ∀ id', ((markPending m id pending offset length).cache id').store = (m.cache id').store := by
    intro id'
    simp only [markPending, cache_setPendingUpdate, cache_setCache]
    split
    · rename_i he
      rw [he, addPending_store]
    · rfl
  refine ⟨rfl, by simpa [markPending] using hr.lock, ?_, ?_, ?_⟩
  · rw [hstore]
    exact hr.nv
  · rw [hstore]
    exact hr.volatile
  · intro id'
    have hf := hr.fits id'
    refine ⟨fun st hst => ?_, ?_, by simpa [markPending] using hf.small⟩
    · rw [hstore] at hst
      simpa [markPending] using hf.length st hst
    · simp only [markPending, cache_setPendingUpdate, cache_setCache, source_setPendingUpdate,
        source_setCache]
      split
      · rename_i he
        subst he
        exact (addPending_range hf pending h).1
      · exact hf.range

def CoherentBut (m : VariableMemory) (id : CacheId) (offset length : Nat) : Prop :=
  ∀ id', m.Live id' → ∀ st, (m.cache id').store = some st → ∀ i : Nat, st[i]? ≠ (m.source id')[i]? →
      (id' = id ∧ offset ≤ i ∧ i < offset+length) ∨
      (m.context.pendingUpdate = some true ∧ (m.cache id').pendingUpdateOffset ≤ i ∧
        i < (m.cache id').pendingUpdateOffset + (m.cache id').pendingUpdateLength)

theorem markPending_coherent (hr : Ready m) {pending : Bool}
    (hp : m.context.pendingUpdate = some pending)
    (h : offset+length ≤ (m.source id).length) (hc : CoherentBut m id offset length) :
    Coherent (markPending m id pending offset length) := by
  intro id' hl st hst i hi
  rw [live_iff_of_base (m := m) (by simp [markPending])] at hl
  simp only [markPending, cache_setPendingUpdate, cache_setCache, source_setPendingUpdate,
    source_setCache, pendingUpdate_setPendingUpdate, true_and] at hst hi ⊢
  by_cases he : id' = id
  · subst he
    simp only [if_true, addPending_store] at hst ⊢
    apply (addPending_range (hr.fits id') pending h).2 i
    rcases hc id' hl st hst i hi with ⟨_,hin⟩ | ⟨hpend,hin⟩
    · exact .inl hin
    · exact .inr ⟨Option.some.inj (hp.symm.trans hpend), hin⟩
  rw [if_neg he] at hst ⊢
  rcases hc id' hl st hst i hi with ⟨heq,_⟩ | ⟨_,hin⟩
  · exact absurd heq he
  · exact hin

theorem sync_coherent (hr : Ready m)
    (h : offset+length ≤ (m.source id).length) (hc : CoherentBut m id offset length) :
    Coherent (synchronizeRuntimeVariableCache m (some id) offset length).1 := by
  rcases sync_cases hr id offset length with ⟨hnone,he⟩ | ⟨pending,hp,⟨_,he⟩ | ⟨_,he⟩⟩
  · rw [he]
    intro id' hl st hst i hi
    rcases hc id' hl st hst i hi with ⟨heq,_⟩ | hin
    · rw [heq, hnone] at hst
      cases hst
    · exact hin
  · rw [he]
    exact (flush_inSync (markPending_ready hr h) (markPending_coherent hr hp h hc)).coherent
  · rw [he]
    exact markPending_coherent hr hp h hc

theorem sync_ready (hr : Ready m) (h : offset+length ≤ (m.source id).length) :
    Ready (synchronizeRuntimeVariableCache m (some id) offset length).1 := by
  rcases sync_cases hr id offset length with ⟨_,he⟩ | ⟨pending,_,⟨_,he⟩ | ⟨_,he⟩⟩
  · exact he ▸ hr
  · rw [he]
    exact flush_ready (markPending_ready hr h)
  · rw [he]
    exact markPending_ready hr h

theorem sync_base (hr : Ready m) (id : CacheId) (offset length : Nat) :
    (synchronizeRuntimeVariableCache m (some id) offset length).1.hobVariableBase = m.hobVariableBase := by
  rcases sync_cases hr id offset length with ⟨_,he⟩ | ⟨_,_,⟨_,he⟩ | ⟨_,he⟩⟩ <;>
    simp [he, markPending]

theorem sync_source (hr : Ready m) (id : CacheId) (offset length : Nat) (id' : CacheId) :
    (synchronizeRuntimeVariableCache m (some id) offset length).1.source id' = m.source id' := by
  rcases sync_cases hr id offset length with ⟨_,he⟩ | ⟨_,_,⟨_,he⟩ | ⟨_,he⟩⟩ <;>
    simp [he, markPending]

structure CacheInv (r : CacheRun) : Prop where
  ready : Ready r.memory
  coherent : Coherent r.memory
  flushing : ∀ f, r.flushing = some f → r.memory.hobVariableBase = 0 ∧ f.variableStoreHeader ≠ 0

/-- A pass that leaves HOB variables behind synchronizes the HOB cache, before it restores
`HobVariableBase`, under the read lock, or finds nothing to copy. -/
def HobSyncDeferred (r : CacheRun) : CacheAction → Prop
  | .flushHobEnd => ∀ f, r.flushing = some f → f.errorFlag = true → r.memory.context.readLock = some true ∨
        ∀ st, (r.memory.cache .hob).store = some st → st = r.memory.hobStore
  | _ => True

theorem Coherent.but (h : Coherent m) (id : CacheId) (offset length : Nat) :
    CoherentBut m id offset length := fun id' hl st hst i hi => .inr (h id' hl st hst i hi)

theorem change_coherentBut (hc : Coherent m) {data : Bytes} (hlo : offset ≤ off)
    (hhi : off+data.length ≤ offset+length) (hle : offset+length ≤ (m.source id).length) :
    CoherentBut (m.setSource id (patch (m.source id) off data)) id offset length := by
  intro id' hl st hst i hi
  rw [live_iff_of_base (base_setSource ..)] at hl
  simp only [cache_setSource, source_setSource, context_setSource] at hst hi ⊢
  by_cases he : id' = id
  · subst he
    rw [if_pos rfl, Bytes.getElem?_patch (by omega)] at hi
    by_cases hin : off ≤ i ∧ i < off+data.length
    · exact .inl ⟨rfl, by omega, by omega⟩
    · rw [if_neg hin] at hi
      exact .inr (hc id' hl st hst i hi)
  · rw [if_neg he] at hi
    exact .inr (hc id' hl st hst i hi)

theorem setSource_ready (hr : Ready m) {b : Bytes}
    (h : b.length = (m.source id).length) : Ready (m.setSource id b) := by
  refine ⟨by simpa using hr.pending, by simpa using hr.lock, by simpa using hr.nv,
    by simpa using hr.volatile, fun id' => ?_⟩
  have hf := hr.fits id'
  simp only [cache_setSource, source_setSource]
  split
  · rename_i he
    subst he
    exact ⟨by rw [h]; exact hf.length, by rw [h]; exact hf.range, by rw [h]; exact hf.small⟩
  · exact hf

theorem Ready.congr (hr : Ready m) (hcache : m'.cache = m.cache)
    (hsrc : m'.source = m.source) (hp : m'.context.pendingUpdate = m.context.pendingUpdate)
    (hl : m'.context.readLock.isSome) : Ready m' :=
  ⟨hp ▸ hr.pending, hl, hcache ▸ hr.nv, hcache ▸ hr.volatile, hcache ▸ hsrc ▸ hr.fits⟩

theorem Coherent.congr (hc : Coherent m) (hcache : m'.cache = m.cache)
    (hsrc : m'.source = m.source) (hp : m'.context.pendingUpdate = m.context.pendingUpdate)
    (hlive : ∀ id, m'.Live id → m.Live id) : Coherent m' := by
  intro id hl
  rw [hcache, hsrc, hp]
  exact hc id (hlive id hl)

variable {r : CacheRun}

theorem flush_inv (hi : CacheInv r) :
    CacheInv { r with memory := (flushPendingRuntimeVariableCacheUpdates r.memory).1 } :=
  ⟨flush_ready hi.ready, (flush_inSync hi.ready hi.coherent).coherent,
    fun f h => by simpa using hi.flushing f h⟩

theorem change_inv {data : Bytes} (hi : CacheInv r)
    (hs : cacheStep r (.change id off data offset length) = some r') : CacheInv r' := by
  simp only [cacheStep, Option.ite_none_right_eq_some, Option.some.injEq] at hs
  obtain ⟨⟨_,hlo,hhi,hle⟩,rfl⟩ := hs
  have hlen : (patch (r.memory.source id) off data).length = (r.memory.source id).length :=
    Bytes.length_patch (by omega)
  have hr : Ready (r.memory.setSource id (patch (r.memory.source id) off data)) :=
    setSource_ready hi.ready hlen
  have hle' : offset+length ≤
      ((r.memory.setSource id (patch (r.memory.source id) off data)).source id).length := by
    simpa [hlen] using hle
  refine ⟨sync_ready hr hle', sync_coherent hr hle' (change_coherentBut hi.coherent hlo hhi hle),
    fun f h => ?_⟩
  rw [sync_base hr, base_setSource]
  exact hi.flushing f h

theorem coherent_of_base_zero (hc : Coherent m)
    (h0 : m'.hobVariableBase = 0) (hctx : m'.context = m.context)
    (hsrc : ∀ id, id ≠ .hob → m'.source id = m.source id) : Coherent m' := by
  intro id hl
  cases id with
  | hob => exact absurd h0 hl
  | nv => simpa [VariableMemory.cache, hctx, hsrc] using hc .nv trivial
  | volatile => simpa [VariableMemory.cache, hctx, hsrc] using hc .volatile trivial

theorem hobVariableWritten_inv (hi : CacheInv r)
    (hs : cacheStep r (.hobVariableWritten off) = some r') : CacheInv r' := by
  simp only [cacheStep, Option.ite_none_right_eq_some, Option.some.injEq] at hs
  obtain ⟨⟨hf,hlt⟩,rfl⟩ := hs
  obtain ⟨f,hf⟩ := Option.isSome_iff_exists.mp hf
  have h0 := (hi.flushing f hf).1
  have hone : (slice r.memory.hobStore off 1).length = 1 := Bytes.length_slice hlt
  have hlen : (patch r.memory.hobStore off ((slice r.memory.hobStore off 1).map (· &&& 0xfd))).length =
      r.memory.hobStore.length := Bytes.length_patch (by rw [List.length_map, hone]; exact hlt)
  have hbase : (clearHobState r.memory off).hobVariableBase = 0 := by
    rw [clearHobState, base_setSource, h0]
  have hr : Ready (clearHobState r.memory off) :=
    setSource_ready (b := patch r.memory.hobStore off _) hi.ready hlen
  refine ⟨hr, coherent_of_base_zero hi.coherent hbase ?_ ?_, fun f h => ⟨hbase, (hi.flushing f h).2⟩⟩
  · rw [clearHobState, context_setSource]
  · intro id hid
    rw [clearHobState, source_setSource, if_neg hid]

theorem flushHobBegin_inv (hi : CacheInv r) (hs : cacheStep r .flushHobBegin = some r') : CacheInv r' := by
  simp only [cacheStep] at hs
  split at hs
  · rename_i hbase
    cases hs
    refine ⟨hi.ready.congr rfl rfl rfl hi.ready.lock,
      coherent_of_base_zero hi.coherent rfl rfl fun _ _ => rfl, fun f hf => ?_⟩
    cases hf
    exact ⟨rfl, hbase⟩
  · cases hs
    exact hi

/-- The synchronization at the end of a pass, made while `HobVariableBase` is zero. -/
def syncAtEnd (m : VariableMemory) : VariableMemory := match (m.cache .hob).store with
  | some st => (synchronizeRuntimeVariableCache m (some .hob) 0 st.length).1
  | none => m

theorem endHobFlush_eq (m : VariableMemory) (f : HobFlush) : endHobFlush m f =
      if f.errorFlag then { syncAtEnd m with hobVariableBase := f.variableStoreHeader }
      else { syncAtEnd m with context := { (syncAtEnd m).context with
        hobFlushComplete := (syncAtEnd m).context.hobFlushComplete.map fun _ => true } } := rfl

theorem syncAtEnd_spec (hr : Ready m) (hc : Coherent m) : Ready (syncAtEnd m) ∧ Coherent (syncAtEnd m) ∧
      (syncAtEnd m).hobVariableBase = m.hobVariableBase ∧ (syncAtEnd m).source .hob = m.source .hob := by
  unfold syncAtEnd
  split
  · rename_i st hst
    have hle : 0+st.length ≤ (m.source .hob).length := by
      rw [(hr.fits .hob).length st hst]
      omega
    exact ⟨sync_ready hr hle, sync_coherent hr hle (Coherent.but hc _ _ _), sync_base hr .., sync_source hr ..⟩
  · exact ⟨hr, hc, rfl, rfl⟩

theorem syncAtEnd_covered_of_locked (hr : Ready m) (hlock : m.context.readLock = some true) :
    Covered (syncAtEnd m).context.pendingUpdate ((syncAtEnd m).cache .hob) (m.source .hob) := by
  unfold syncAtEnd
  split
  · rename_i st hst
    have hlen := (hr.fits .hob).length st hst
    rcases sync_cases hr .hob 0 st.length with ⟨hnone,_⟩ | ⟨pending,_,⟨hl,_⟩ | ⟨_,he⟩⟩
    · rw [hst] at hnone
      cases hnone
    · rw [hlock] at hl
      cases hl
    rw [he]
    intro st' hst' i hi
    simp only [markPending, cache_setPendingUpdate, cache_setCache, if_true, addPending_store,
      pendingUpdate_setPendingUpdate, true_and] at hst' ⊢
    refine (addPending_range (hr.fits .hob) pending (by omega)).2 i (.inl ⟨by omega, ?_⟩)
    cases Option.some.inj (hst.symm.trans hst')
    by_contra hge
    rw [List.getElem?_eq_none (by omega), List.getElem?_eq_none (by omega)] at hi
    exact hi rfl
  · rename_i hnone
    intro st hst
    rw [hnone] at hst
    cases hst

theorem syncAtEnd_store (hr : Ready m) (h0 : m.hobVariableBase = 0) :
    ((syncAtEnd m).cache .hob).store = (m.cache .hob).store := by
  unfold syncAtEnd
  split
  · rename_i st hst
    have hle : 0+st.length ≤ (m.source .hob).length := by
      rw [(hr.fits .hob).length st hst]
      omega
    rcases sync_cases hr .hob 0 st.length with ⟨_,he⟩ | ⟨pending,_,⟨_,he⟩ | ⟨_,he⟩⟩
    · rw [he]
    · have hdead : ¬ (markPending m .hob pending 0 st.length).Live .hob := by
        simp [VariableMemory.Live, markPending, h0]
      rw [he, flush_cache (markPending_ready hr hle), if_neg (fun h => hdead h.2.1)]
      simp [markPending]
    · rw [he]
      simp [markPending]
  · rfl

theorem endHobFlush_inv {f : HobFlush} (hi : CacheInv r) (hf : r.flushing = some f)
    (hdef : f.errorFlag = true → r.memory.context.readLock = some true ∨
      ∀ st, (r.memory.cache .hob).store = some st → st = r.memory.hobStore) :
    CacheInv { memory := endHobFlush r.memory f, flushing := none } := by
  have h0 := (hi.flushing f hf).1
  obtain ⟨hr,hc,hbase,hsrc⟩ := syncAtEnd_spec hi.ready hi.coherent
  cases herr : f.errorFlag with
  | false =>
    simp only [endHobFlush_eq, herr, Bool.false_eq_true, if_false]
    exact ⟨hr.congr rfl rfl rfl hr.lock, hc.congr rfl rfl rfl fun _ => id, by simp⟩
  | true =>
    simp only [endHobFlush_eq, herr, if_true]
    refine ⟨hr.congr rfl rfl rfl hr.lock, fun id _ => ?_, by simp⟩
    · cases id
      · rcases hdef herr with hlock | heq
        · exact hsrc ▸ syncAtEnd_covered_of_locked hi.ready hlock
        · refine Covered.of_eq _ fun st hst => ?_
          exact (heq st ((syncAtEnd_store hi.ready h0).symm.trans hst)).trans hsrc.symm
      · exact hc .nv trivial
      · exact hc .volatile trivial

theorem cacheStep_inv {a : CacheAction} (hi : CacheInv r)
    (hd : HobSyncDeferred r a) (hs : cacheStep r a = some r') : CacheInv r' := by
  cases a with
  | change id off data offset length => exact change_inv hi hs
  | readLock b =>
    cases hs
    exact ⟨hi.ready.congr rfl rfl rfl (by simpa using hi.ready.lock),
      hi.coherent.congr rfl rfl rfl fun _ => id, hi.flushing⟩
  | flushPending =>
    cases hs
    exact flush_inv hi
  | flushHobBegin => exact flushHobBegin_inv hi hs
  | hobVariableWritten off => exact hobVariableWritten_inv hi hs
  | hobVariableFailed =>
    simp only [cacheStep, Option.map_eq_some_iff] at hs
    obtain ⟨f,hf,rfl⟩ := hs
    refine ⟨hi.ready, hi.coherent, fun f' hf' => ?_⟩
    cases hf'
    exact hi.flushing f hf
  | flushHobEnd =>
    simp only [cacheStep, Option.map_eq_some_iff] at hs
    obtain ⟨f,hf,rfl⟩ := hs
    exact endHobFlush_inv hi hf (hd f hf)

/-- The buffers handed to `SmmVariableHandler` are as large as the stores they mirror. -/
structure SameSizes (m : VariableMemory) (runtimeHobCache : Option Bytes)
    (runtimeVolatileCache runtimeNvCache : Bytes) : Prop where
  hob : ∀ st, runtimeHobCache = some st → st.length = m.hobStore.length
  volatile : runtimeVolatileCache.length = m.volatileStore.length
  nv : runtimeNvCache.length = m.nvVariableCache.length
  small : ∀ id, (m.source id).length < 2^32

theorem length_copySignature (h : st.length = src.length) :
    (patch st 0 (slice src 0 16)).length = src.length := by
  rw [Bytes.length_patch, h]
  simp only [slice, List.drop_zero, List.length_take]
  omega

theorem covered_whole (h0 : c.pendingUpdateOffset = 0) (hl : c.pendingUpdateLength = src.length)
    (hs : ∀ st, c.store = some st → st.length = src.length) : Covered (some true) c src := by
  intro st hst i hi
  refine ⟨rfl, by omega, ?_⟩
  by_contra hge
  have hlen := hs st hst
  rw [List.getElem?_eq_none (by omega), List.getElem?_eq_none (by omega)] at hi
  exact hi rfl

theorem init_inv {hob : Option Bytes} {vol nv : Bytes} (h : SameSizes m hob vol nv) :
    CacheInv { memory := initRuntimeVariableCacheContext m hob vol nv, flushing := none } := by
  have hvol := length_copySignature h.volatile
  have hnv := length_copySignature h.nv
  have hsvol := h.small .volatile
  have hsnv := h.small .nv
  have hshob := h.small .hob
  have hhob : ∀ st, ((initRuntimeVariableCacheContext m hob vol nv).cache .hob).store = some st →
      st.length = m.hobStore.length := by
    intro st hst
    simp only [VariableMemory.cache, initRuntimeVariableCacheContext, Option.map_eq_some_iff] at hst
    obtain ⟨old,hold,rfl⟩ := hst
    split
    · exact length_copySignature (h.hob old hold)
    · exact h.hob old hold
  refine ⟨⟨rfl, rfl, rfl, rfl, fun id => ?_⟩, fun id hl => ?_, by simp⟩
  · cases id with
    | hob =>
      refine ⟨hhob, ?_, hshob⟩
      simp only [VariableMemory.cache, initRuntimeVariableCacheContext, VariableMemory.source]
      split
      · exact Nat.zero_add _ ▸ toUint32_le _
      · omega
    | nv =>
      refine ⟨fun st hst => ?_, Nat.zero_add _ ▸ toUint32_le _, hsnv⟩
      cases hst
      exact hnv
    | volatile =>
      refine ⟨fun st hst => ?_, Nat.zero_add _ ▸ toUint32_le _, hsvol⟩
      cases hst
      exact hvol
  · cases id with
    | hob =>
      intro st hst
      refine covered_whole rfl ?_ hhob st hst
      have hsome : hob.isSome := by
        simp only [VariableMemory.cache, initRuntimeVariableCacheContext, Option.map_eq_some_iff] at hst
        obtain ⟨old,hold,_⟩ := hst
        simp [hold]
      have hpos : m.hobVariableBase > 0 := Nat.pos_of_ne_zero hl
      simp only [VariableMemory.cache, initRuntimeVariableCacheContext, hpos, hsome, and_self, if_true]
      exact toUint32_of_lt hshob
    | nv =>
      refine covered_whole rfl (toUint32_of_lt hsnv) fun st hst => ?_
      cases hst
      exact hnv
    | volatile =>
      refine covered_whole rfl (toUint32_of_lt hsvol) fun st hst => ?_
      cases hst
      exact hvol

/-- In every run in which each pass that leaves HOB variables behind defers its synchronization,
every state reached is coherent, is in sync when nothing is pending, and is in sync after a flush. -/
theorem runtimeCache_coherent (m : VariableMemory) (hob : Option Bytes) (vol nv : Bytes)
    (hsizes : SameSizes m hob vol nv) (r : CacheRun)
    (hr : Reaches cacheStep HobSyncDeferred
      { memory := initRuntimeVariableCacheContext m hob vol nv, flushing := none } r) :
    Coherent r.memory ∧ (r.memory.context.pendingUpdate = some false → InSync r.memory) ∧
      InSync (flushPendingRuntimeVariableCacheUpdates r.memory).1 := by
  have hi : CacheInv r := hr.invariant (init_inv hsizes) fun _ _ _ => cacheStep_inv
  exact ⟨hi.coherent, hi.coherent.inSync, flush_inSync hi.ready hi.coherent⟩

/-- After such a run a pass that restores `HobVariableBase` leaves the HOB cache coherent exactly when its own
synchronization was deferred: with `HobVariableBase` zero the flush copies no HOB byte and clears
`PendingUpdate`. -/
theorem coherent_endHobFlush_iff {hob : Option Bytes} {vol nv : Bytes} (hsizes : SameSizes m hob vol nv)
    (hr : Reaches cacheStep HobSyncDeferred
      { memory := initRuntimeVariableCacheContext m hob vol nv, flushing := none } r) {f : HobFlush}
    (hf : r.flushing = some f) (herr : f.errorFlag = true) :
    Coherent (endHobFlush r.memory f) ↔ r.memory.context.readLock = some true ∨
      ∀ st, (r.memory.cache .hob).store = some st → st = r.memory.hobStore := by
  have hi : CacheInv r := hr.invariant (init_inv hsizes) fun _ _ _ => cacheStep_inv
  refine ⟨fun hc => ?_, fun h => (endHobFlush_inv hi hf fun _ => h).coherent⟩
  by_contra hn
  push Not at hn
  obtain ⟨hlock,st,hst,hne⟩ := hn
  obtain ⟨h0,hsaved⟩ := hi.flushing f hf
  have he : endHobFlush r.memory f =
      { syncAtEnd r.memory with hobVariableBase := f.variableStoreHeader } := by
    rw [endHobFlush_eq, if_pos herr]
  have hle : 0+st.length ≤ (r.memory.source .hob).length := by
    rw [(hi.ready.fits .hob).length st hst]
    omega
  have hidle : (syncAtEnd r.memory).context.pendingUpdate = some false := by
    simp only [syncAtEnd, hst]
    rcases sync_cases hi.ready .hob 0 st.length with ⟨hnone,_⟩ | ⟨pending,_,⟨_,hs⟩ | ⟨hl,_⟩⟩
    · rw [hst] at hnone
      cases hnone
    · rw [hs]
      exact flush_pendingUpdate (markPending_ready hi.ready hle)
    · exact absurd hl hlock
  have hstore := (syncAtEnd_store hi.ready h0).trans hst
  obtain ⟨_,_,_,hsrc⟩ := syncAtEnd_spec hi.ready hi.coherent
  have hcov := (he ▸ hc) .hob hsaved
  change Covered (syncAtEnd r.memory).context.pendingUpdate ((syncAtEnd r.memory).cache .hob)
    ((syncAtEnd r.memory).source .hob) at hcov
  rw [hidle, hsrc] at hcov
  exact hne (hcov.eq_of_idle hstore)

/-- A variable store of 28 header bytes and one entry: a 32-byte header with its `State` at 30,
the name `A` and one byte of data. -/
def oneVariableStore : Bytes :=
  [0x16, 0x36, 0xcf, 0xdd, 0x75, 0x32, 0x64, 0x41, 0x98, 0xb6, 0xfe, 0x85, 0x70, 0x7f, 0xfe, 0x7d,
    0x44, 0, 0, 0, 0x5a, 0xfe, 0, 0, 0, 0, 0, 0, 0xaa, 0x55, 0x3f, 0, 7, 0, 0, 0, 4, 0, 0, 0, 1, 0, 0, 0,
    1, 2, 3, 4, 5, 6, 7, 8, 9, 10, 11, 12, 13, 14, 15, 16, 0x41, 0, 0, 0, 0x2a, 0xff, 0xff, 0xff]

def oneVariableMemory : VariableMemory where
  hobVariableBase := 0x7f000000
  hobStore := oneVariableStore
  nvVariableCache := oneVariableStore
  volatileStore := oneVariableStore
  context := ⟨none, none, none, ⟨0, 0, none⟩, ⟨0, 0, none⟩, ⟨0, 0, none⟩⟩

def oneVariableInit : CacheRun where
  memory := initRuntimeVariableCacheContext oneVariableMemory (some (List.replicate 68 0xff))
    (List.replicate 68 0xff) (List.replicate 68 0xff)
  flushing := none

theorem oneVariable_sameSizes : SameSizes oneVariableMemory (some (List.replicate 68 0xff))
    (List.replicate 68 0xff) (List.replicate 68 0xff) :=
  ⟨fun st h => by cases h; rfl, rfl, rfl, fun id => by cases id <;> decide⟩

/-- A pass that writes one HOB variable, fails on another and runs under the read lock, then the
reader's release of the lock and the next flush. -/
def deferredPass : List CacheAction :=
  [.readLock true, .flushHobBegin, .hobVariableWritten 30, .hobVariableFailed, .flushHobEnd,
    .readLock false, .flushPending]

def deferredPassEnd : CacheRun := (Run.run cacheStep oneVariableInit deferredPass).get rfl

theorem runtimeCache_coherent_deferredPass : Coherent deferredPassEnd.memory ∧
      (deferredPassEnd.memory.context.pendingUpdate = some false → InSync deferredPassEnd.memory) ∧
      InSync (flushPendingRuntimeVariableCacheUpdates deferredPassEnd.memory).1 := by
  apply runtimeCache_coherent oneVariableMemory _ _ _ oneVariable_sameSizes
  refine Run.reaches_of_run_along (Option.some_get (x := Run.run cacheStep _ deferredPass) rfl).symm ?_
  exact ⟨trivial, trivial, trivial, trivial, fun _ _ _ => .inl rfl, trivial, trivial, trivial⟩

def stalePass : List CacheAction :=
  [.flushPending, .flushHobBegin, .hobVariableWritten 30, .hobVariableFailed, .flushHobEnd]

/-- A pass that writes no HOB variable, after a flush. -/
def idlePass : List CacheAction := [.flushPending, .flushHobBegin, .hobVariableFailed]

/-- At the end of a pass: the reader has the lock, or the cache is the store already, or neither. -/
theorem coherent_endHobFlush_iff_deferredPass :
    (∃ (r : CacheRun) (f : HobFlush), r.flushing = some f ∧ Coherent (endHobFlush r.memory f)) ∧
      (∃ (r : CacheRun) (f : HobFlush), r.flushing = some f ∧ r.memory.context.readLock = some false ∧
        Coherent (endHobFlush r.memory f)) ∧
      ∃ (r : CacheRun) (f : HobFlush), r.flushing = some f ∧ ¬ Coherent (endHobFlush r.memory f) := by
  refine ⟨⟨(Run.run cacheStep oneVariableInit (deferredPass.take 4)).get rfl, _, rfl, ?_⟩,
    ⟨(Run.run cacheStep oneVariableInit idlePass).get rfl, _, rfl, rfl, ?_⟩,
    ⟨(Run.run cacheStep oneVariableInit (stalePass.take 4)).get rfl, _, rfl, ?_⟩⟩
  · exact (coherent_endHobFlush_iff oneVariable_sameSizes (Run.reaches_of_run_along (Option.some_get
      (x := Run.run cacheStep oneVariableInit (deferredPass.take 4)) rfl).symm
        ⟨trivial, trivial, trivial, trivial, trivial⟩) rfl rfl).mpr (.inl rfl)
  · refine (coherent_endHobFlush_iff oneVariable_sameSizes (Run.reaches_of_run_along (Option.some_get
      (x := Run.run cacheStep oneVariableInit idlePass) rfl).symm
        ⟨trivial, trivial, trivial, trivial⟩) rfl rfl).mpr (.inr fun st hst => ?_)
    cases hst
    rfl
  · exact mt (coherent_endHobFlush_iff oneVariable_sameSizes (Run.reaches_of_run_along (Option.some_get
      (x := Run.run cacheStep oneVariableInit (stalePass.take 4)) rfl).symm
        ⟨trivial, trivial, trivial, trivial, trivial⟩) rfl rfl).mp (by decide)

/-- With the lock free the variable is deleted in the HOB store, its cache still
shows it, and nothing is pending. -/
theorem runtimeCache_stale_after_pass :
    ¬ ∀ (m : VariableMemory) (hob : Option Bytes) (vol nv : Bytes), SameSizes m hob vol nv →
      ∀ r, Reaches cacheStep (fun _ _ => True)
        { memory := initRuntimeVariableCacheContext m hob vol nv, flushing := none } r →
        Coherent r.memory := by
  intro h
  have hr := Run.reaches_of_run
    (Option.some_get (x := Run.run cacheStep oneVariableInit stalePass) rfl).symm
  have hc := h _ _ _ _ oneVariable_sameSizes _ hr .hob (by decide) _ rfl 30 (by decide)
  exact absurd hc.1 (by decide)

end Liano.Variable
