import Liano.Variable.ReclaimSpec

/-! `Reclaim` as a function on the entries of the store: the buffer that its loops leave, the new
variable installed or refused, and the store that is written back. -/
namespace Liano.Variable

open List

open Bytes (slice patch HoldsAt)

section
variable {c : VariableConfig} {st : VariableState} {isVolatile : Bool}
  (m : StoreImage c.authFormat) {updating : VariablePointerTrack}

theorem length_flatten_sparedEntries_le (p : Bytes → Bool) :
    ((m.sparedEntries updating).filter p).flatten.length ≤ m.entries.flatten.length := by
  have h : ∀ l : List (Nat × Bytes), ((l.filter fun x => spares updating x.1).map
      (·.2)).flatten.length ≤ (l.map (·.2)).flatten.length := by
    intro l
    induction l with
    | nil => exact le_rfl
    | cons x l ih =>
      rw [filter_cons]
      split
      · simp only [map_cons, flatten_cons, length_append]
        omega
      · simp only [map_cons, flatten_cons, length_append]
        omega
  refine (length_flatten_filter_le p _).trans ?_
  have := h m.locatedEntries
  rwa [StoreImage.locatedEntries, located_map_snd] at this

theorem isEntry_sparedEntries : ∀ e ∈ m.sparedEntries updating, IsEntry c.authFormat e := by
  intro e he
  rw [StoreImage.sparedEntries, mem_map] at he
  obtain ⟨x,hx,rfl⟩ := he
  exact StoreImage.isEntry_of_mem (mem_filter.mp hx).1

theorem named_sparedEntries (hn : NamedEntries c.authFormat m.entries) :
    NamedEntries c.authFormat (m.sparedEntries updating) := by
  intro e he
  rw [StoreImage.sparedEntries, mem_map] at he
  obtain ⟨x,hx,rfl⟩ := he
  exact hn _ (StoreImage.mem_entries (mem_filter.mp hx).1)

def StoreImage.remaining {authFormat : Bool} (m : StoreImage authFormat)
    (updating : VariablePointerTrack) : List Bytes := reclaimedEntries authFormat (m.sparedEntries updating)

theorem length_remaining_le : (m.remaining updating).flatten.length ≤ m.entries.flatten.length :=
  (length_reclaimedEntries_le (isEntry_sparedEntries m)).trans
    (length_flatten_sparedEntries_le m inUse)

/-- The entry in transition that is being updated is not an ADDED one. -/
def TransitionPtrOk {authFormat : Bool} (m : StoreImage authFormat)
    (updating : VariablePointerTrack) : Prop :=
  ∀ x ∈ m.locatedEntries, updating.inDeletedTransitionPtr = some x.1 → isAdded x.2 0 = false

theorem initialBuffer_eq {size : Nat} (hsize : variableStoreHeaderSize ≤ size) :
    ({ validBuffer := patch (replicate size 0xff) 0 (slice m.bytes 0 variableStoreHeaderSize)
       currPtr := getStartPointer
       hwErrVariableTotalSize := 0
       commonVariableTotalSize := 0
       commonUserVariableTotalSize := 0 } : ReclaimBuffer) =
      bufferOf c st isVolatile m.header (size-m.header.length) [] := by
  have hslice : slice m.bytes 0 variableStoreHeaderSize = m.header := by
    rw [StoreImage.bytes, append_assoc, ← m.length_header, Bytes.slice_length]
  have hpatch : patch ([] ++ replicate size 0xff) 0 m.header =
      [] ++ m.header ++ replicate (size-m.header.length) 0xff :=
    patch_erased m.header (by rw [m.length_header]; exact hsize)
  rw [nil_append, nil_append] at hpatch
  rw [hslice, hpatch, bufferOf]
  simp only [flatten_nil, length_nil, append_nil, Nat.sub_zero, add_zero, m.start_eq]
  rfl

theorem reinstall_eq (hn : NamedEntries c.authFormat m.entries)
    (hd : DistinctEntries c.authFormat (m.sparedEntries updating))
    (hu : TransitionPtrOk m updating) {size : Nat}
    (hsize : m.header.length + (m.remaining updating).flatten.length ≤ size) :
    reinstall c st isVolatile m.bytes updating size =
      bufferOf c st isVolatile m.header (size-m.header.length) (m.remaining updating) := by
  have hadded : (m.locatedEntries.filter fun x => updating.currPtr != some x.1 &&
      isAdded x.2 0).map (·.2) = (m.sparedEntries updating).filter fun e => isAdded e 0 := by
    rw [StoreImage.sparedEntries, filter_map, filter_filter]
    refine congrArg (map _) (filter_congr fun x hx => ?_)
    have := hu x hx
    simp only [Function.comp, spares]
    cases ha : isAdded x.2 0 with
    | false => rw [Bool.and_false, Bool.false_and]
    | true =>
      have hne : updating.inDeletedTransitionPtr ≠ some x.1 := fun h => by
        rw [this h] at ha
        exact Bool.false_ne_true ha
      simp only [bne_iff_ne.mpr hne, Bool.and_true, Bool.true_and]
  have hfinal : m.locatedEntries.foldl (promoteStep c.authFormat updating)
      ((m.sparedEntries updating).filter fun e => isAdded e 0) = m.remaining updating := by
    rw [foldl_promoteStep, ← StoreImage.sparedEntries, foldl_promoteEntry_added (isEntry_sparedEntries m) hd]
    rfl
  have hle := length_flatten_le_of_prefix (@prefix_foldl_promoteStep updating m.locatedEntries
    ((m.sparedEntries updating).filter fun e => isAdded e 0) c.authFormat)
  rw [hfinal] at hle
  have hlen := @length_remaining_le c m updating
  have hstore := m.storeSize_header
  have hheader : m.header.length = variableStoreHeaderSize := m.length_header
  rw [reinstall, initialBuffer_eq m (by omega), m.headers_bytes,
    foldl_reinstallAdded m hn (fun x hx => hx) (by rw [hadded, nil_append]; omega), hadded,
    nil_append, foldl_reinstallTransition m hn (fun x hx => hx) ?_ ?_ ?_, hfinal]
  · intro d hdm
    exact isEntry_sparedEntries m d (mem_filter.mp hdm).1
  · rw [hfinal]
    omega
  · rw [hfinal]
    omega

theorem maximumBufferSize_eq (newVariable : Option Bytes) : maximumBufferSize c m.bytes updating newVariable =
      variableStoreHeaderSize + ((m.sparedEntries updating).filter inUse).flatten.length +
        newVariable.elim 0 length + 1 := by
  have h : ((headers c.authFormat m.bytes).filter fun p =>
      (isAdded m.bytes p || isInDeletedTransition m.bytes p) && updating.currPtr != some p &&
        updating.inDeletedTransitionPtr != some p).map
          (fun p => getNextVariablePtr c.authFormat m.bytes p - p) =
      ((m.sparedEntries updating).filter inUse).map length := by
    rw [m.headers_bytes, filter_map, map_map, StoreImage.sparedEntries, filter_map, map_map, filter_filter]
    have hfilter : m.locatedEntries.filter ((fun p =>
        (isAdded m.bytes p || isInDeletedTransition m.bytes p) && updating.currPtr != some p &&
          updating.inDeletedTransitionPtr != some p) ∘ fun x => x.1) =
        m.locatedEntries.filter fun x => (inUse ∘ fun x => x.2) x && spares updating x.1 := by
      refine filter_congr fun x hx => ?_
      simp only [Function.comp, StoreImage.isAdded_bytes hx,
        StoreImage.isInDeletedTransition_bytes hx, spares, inUse, Bool.and_assoc]
    rw [hfilter]
    refine map_congr_left fun x hx => ?_
    have hx' := (mem_filter.mp hx).1
    simp only [Function.comp, next_of_holdsAt (StoreImage.isEntry_of_mem hx')
      (StoreImage.holdsAt hx') (StoreImage.dvd_offset hx'), Nat.add_sub_cancel_left]
  rw [maximumBufferSize, h, length_flatten]

/-- The limits that the totals of the NV store are checked against. -/
def withinSpace (c : VariableConfig) (r : ReclaimBuffer) : Bool :=
  decide (r.hwErrVariableTotalSize ≤ c.pcdHwErrStorageSize) &&
    decide (r.commonVariableTotalSize ≤ c.commonVariableSpace) &&
    decide (r.commonUserVariableTotalSize ≤ c.commonMaxUserVariableSpace)

/-- The new variable has space behind the entries, and for the NV store its totals have too. -/
def newFits (c : VariableConfig) (st : VariableState) (isVolatile : Bool)
    (m : StoreImage c.authFormat) (es : List Bytes) (v : Bytes) : Bool :=
  decide (m.header.length+es.flatten.length+v.length ≤ storeSize m.header) &&
    (isVolatile || withinSpace c (totalsOf c st isVolatile (es ++ [promote v])))

/-- The entries that a reclaim installs, or `none` where it refuses the new variable. -/
def reclaimInstalls (c : VariableConfig) (st : VariableState) (isVolatile : Bool)
    (m : StoreImage c.authFormat) (updating : VariablePointerTrack) : Option Bytes → Option (List Bytes)
  | none => some (m.remaining updating)
  | some v =>
    if newFits c st isVolatile m (m.remaining updating) v then
      some (m.remaining updating ++ [promote v])
    else none

theorem withinSpace_eq (r : ReclaimBuffer) : (decide (r.hwErrVariableTotalSize > c.pcdHwErrStorageSize) ||
      decide (r.commonVariableTotalSize > c.commonVariableSpace) ||
      decide (r.commonUserVariableTotalSize > c.commonMaxUserVariableSpace)) = !withinSpace c r := by
  rw [withinSpace, Bool.not_and, Bool.not_and, ← decide_not, ← decide_not, ← decide_not]
  simp only [not_le, gt_iff_lt]

variable {v : Bytes}

theorem eq_setState_promote {auth : Bool} (hv : IsEntry auth (promote v)) :
    v = setState (promote v) (state v 0) := by
  have hlen : offsetOfState + [varAdded].length ≤ v.length := by
    have h := hv.header_lt (by decide : 4 < 32)
    rw [promote, setState, patch, length_append, length_append, length_take, length_drop] at h
    simp only [offsetOfState, length_singleton] at h ⊢
    omega
  have hlen' : offsetOfState + [state v 0].length ≤ (promote v).length := by
    rw [promote, setState, Bytes.length_patch hlen]
    exact hlen
  apply ext_getElem?
  intro i
  rw [setState, Bytes.getElem?_patch hlen', promote, setState, Bytes.getElem?_patch hlen]
  by_cases hi : i = offsetOfState
  · subst hi
    have hlt : offsetOfState < v.length := by
      rw [length_singleton] at hlen
      omega
    rw [if_pos ⟨le_refl _, by rw [length_singleton]; omega⟩, Nat.sub_self, state, zero_add,
      getD_eq_getElem?_getD, getElem?_eq_getElem hlt]
    rfl
  · rw [if_neg (by rw [length_singleton]; omega), if_neg (by rw [length_singleton]; omega)]

theorem length_of_promote {auth : Bool} (hv : IsEntry auth (promote v)) :
    (promote v).length = v.length := by conv_rhs => rw [eq_setState_promote hv, length_setState hv]

theorem countEntry_of_promote (r : ReclaimBuffer) (hv : IsEntry c.authFormat (promote v)) :
    countEntry c st isVolatile r (promote v) = countEntry c st isVolatile r v := by
  conv_rhs => rw [eq_setState_promote hv, countEntry, attributes_setState hv,
    isUserVariable_setState hv, length_setState hv]
  rfl

theorem installNew_eq {es : List Bytes} {cap : Nat} (hv : IsEntry c.authFormat (promote v))
    (hcap : m.header.length+es.flatten.length+v.length ≤ storeSize m.header →
      es.flatten.length+v.length ≤ cap) :
    installNew c st isVolatile m.bytes (bufferOf c st isVolatile m.header cap es) v =
      (if newFits c st isVolatile m es v then some (es ++ [promote v]) else none).map
        (bufferOf c st isVolatile m.header cap) := by
  have hcurr : (bufferOf c st isVolatile m.header cap es).currPtr = m.header.length+es.flatten.length := rfl
  have hcount : ∀ r : ReclaimBuffer, (if isVolatile then r
      else r.count (isHardwareErrorRecord (attributes v 0)) (isUserVariable c st v 0) v.length) =
        countEntry c st isVolatile r (promote v) := fun r => by
    rw [countEntry_of_promote _ hv, countEntry]
  rw [installNew, hcurr, m.storeSize_bytes, hcount]
  by_cases hfits : m.header.length+es.flatten.length+v.length ≤ storeSize m.header
  · have hcopy : (countEntry c st isVolatile (bufferOf c st isVolatile m.header cap es)
        (promote v)).copy (promote v) = bufferOf c st isVolatile m.header cap (es ++ [promote v]) := by
      refine bufferOf_copy ?_
      rw [flatten_append, flatten_singleton, length_append, length_of_promote hv]
      exact hcap hfits
    have htotals : withinSpace c (countEntry c st isVolatile
        (bufferOf c st isVolatile m.header cap es) (promote v)) =
          withinSpace c (totalsOf c st isVolatile (es ++ [promote v])) := by
      have : countEntry c st isVolatile (bufferOf c st isVolatile m.header cap es) (promote v) =
          { totalsOf c st isVolatile (es ++ [promote v]) with
            validBuffer := (bufferOf c st isVolatile m.header cap es).validBuffer
            currPtr := (bufferOf c st isVolatile m.header cap es).currPtr } := by
        rw [bufferOf, countEntry_with, totalsOf, totalsOf, foldl_append, foldl_cons, foldl_nil]
      rw [this]
      rfl
    have hpromote : patch v offsetOfState [varAdded] = promote v := rfl
    rw [if_neg (not_lt.mpr hfits), newFits, decide_eq_true hfits, Bool.true_and]
    simp only [withinSpace_eq, htotals, hpromote, hcopy]
    cases isVolatile with
    | true => rfl
    | false => cases withinSpace c (totalsOf c st false (es ++ [promote v])) <;> rfl
  · rw [if_pos (Nat.lt_of_not_le hfits), newFits, decide_eq_false hfits, Bool.false_and,
      if_ff, Option.map_none]

def StoreImage.rebuilt {authFormat : Bool} (m : StoreImage authFormat) (es : List Bytes) : Bytes :=
  m.header ++ es.flatten ++ replicate (storeSize m.header - m.header.length - es.flatten.length) 0xff

def StoreImage.rebuild {authFormat : Bool} (m : StoreImage authFormat) (es : List Bytes)
    (hes : ∀ e ∈ es, IsEntry authFormat e)
    (hfits : m.header.length+es.flatten.length ≤ storeSize m.header) : StoreImage authFormat where
  header := m.header
  entries := es
  tail := replicate (storeSize m.header - m.header.length - es.flatten.length) 0xff
  length_header := m.length_header
  isEntry := hes
  startId_tail := startId_erased [] _
  storeSize_header := by
    rw [length_replicate]
    omega
  dvd_storeSize := m.dvd_storeSize

theorem copy_back {es : List Bytes} {cap : Nat}
    (hfits : m.header.length+es.flatten.length ≤ storeSize m.header) :
    patch (replicate (storeSize m.header) 0xff) 0
        ((bufferOf c st isVolatile m.header cap es).validBuffer.take
          (bufferOf c st isVolatile m.header cap es).currPtr) = m.rebuilt es := by
  have htake : (bufferOf c st isVolatile m.header cap es).validBuffer.take
      (bufferOf c st isVolatile m.header cap es).currPtr = m.header ++ es.flatten := by
    rw [bufferOf, ← length_append, take_left]
  have hpatch : patch ([] ++ replicate (storeSize m.header) 0xff) 0 (m.header ++ es.flatten) =
      [] ++ (m.header ++ es.flatten) ++
        replicate (storeSize m.header - (m.header ++ es.flatten).length) 0xff :=
    patch_erased _ (by rw [length_append]; exact hfits)
  rw [htake, StoreImage.rebuilt, ← nil_append (replicate (storeSize m.header) _), hpatch,
    nil_append, length_append, Nat.sub_sub]

end

section
variable {c : VariableConfig} {st : VariableState} (m : StoreImage c.authFormat)
  {updating : VariablePointerTrack} {newVariable : Option Bytes}

section
variable (st : VariableState) (m : StoreImage c.authFormat) (es : List Bytes)

def installVolatile :
    VariableState := { st.setStore .volatile (m.rebuilt es) with
    volatileLastVariableOffset := m.header.length + es.flatten.length }

/-- The emulated NV store with the entries installed. -/
def installEmulated :
    VariableState := { (st.setStore .nv (m.rebuilt es)).setTotals (totalsOf c st false es) with
    nonVolatileLastVariableOffset := m.header.length + es.flatten.length }

/-- The NV store in flash with the entries installed. -/
def installFlash : VariableState :=
  { st.setTotals (totalsOf c st false es) with
    flash := patch st.flash c.nonVolatileVariableBase (m.rebuilt es)
    ftwStatus := st.ftwStatus.tail
    ftwLeft := st.ftwLeft.tail
    nonVolatileLastVariableOffset := m.header.length + es.flatten.length }

end

structure ReclaimInput (c : VariableConfig) (m : StoreImage c.authFormat)
    (updating : VariablePointerTrack) (newVariable : Option Bytes) : Prop where
  named : NamedEntries c.authFormat m.entries
  distinct : DistinctEntries c.authFormat (m.sparedEntries updating)
  transitionPtr : TransitionPtrOk m updating
  isEntry : ∀ v ∈ newVariable, IsEntry c.authFormat (promote v)

variable {m}

theorem length_installs {isVolatile : Bool} (hi : ReclaimInput c m updating newVariable)
    {es : List Bytes} (h : reclaimInstalls c st isVolatile m updating newVariable = some es) :
    m.header.length+es.flatten.length ≤ storeSize m.header := by
  have hlen := @length_remaining_le c m updating
  have hstore := m.storeSize_header
  cases newVariable with
  | none =>
    obtain rfl := Option.some.inj h
    omega
  | some v =>
    rw [reclaimInstalls] at h
    split at h
    · rename_i hfits
      obtain rfl := Option.some.inj h
      rw [newFits, Bool.and_eq_true, decide_eq_true_eq] at hfits
      rw [flatten_append, flatten_singleton, length_append, length_of_promote (hi.isEntry v rfl)]
      omega
    · cases h

/-- The buffer with the new variable, if there is one, or `none` where it is refused. -/
def installedBuffer (c : VariableConfig) (st : VariableState) (isVolatile : Bool) (b : Bytes)
    (r : ReclaimBuffer) : Option Bytes → Option ReclaimBuffer
  | none => some r
  | some v => installNew c st isVolatile b r v

theorem reclaim_eq (isVolatile : Bool) : reclaim c st isVolatile updating newVariable =
      (let b := if isVolatile then st.memory.volatileStore else nvStore c st
      if (isVolatile || c.emuNvMode) && st.poolExhausted then (st, .outOfResources)
      else
        let size := if isVolatile || c.emuNvMode then
          maximumBufferSize c b updating newVariable else storeSize st.memory.nvVariableCache
        let installed := installedBuffer c st isVolatile b
          (reinstall c st isVolatile b updating size) newVariable
        reclaimDone c ((installed.map fun r =>
          (writeBack c st isVolatile (storeSize b) r).1).getD st) isVolatile (storeSize b)) := by
  cases newVariable with
  | none => rfl
  | some v =>
    rw [reclaim]
    simp only [installedBuffer]
    cases installNew c st isVolatile (if isVolatile then st.memory.volatileStore else nvStore c st)
      (reinstall c st isVolatile (if isVolatile then st.memory.volatileStore else nvStore c st)
        updating (if isVolatile || c.emuNvMode then
          maximumBufferSize c (if isVolatile then st.memory.volatileStore else nvStore c st)
            updating (some v) else storeSize st.memory.nvVariableCache)) v <;> rfl

theorem installed_eq {isVolatile : Bool} (hi : ReclaimInput c m updating newVariable) {size : Nat}
    (hsize : m.header.length + (m.remaining updating).flatten.length ≤ size) (hnew : ∀ v ∈ newVariable,
      m.header.length + (m.remaining updating).flatten.length + v.length ≤ storeSize m.header →
        m.header.length + (m.remaining updating).flatten.length + v.length ≤ size) :
    installedBuffer c st isVolatile m.bytes (reinstall c st isVolatile m.bytes updating size)
        newVariable = (reclaimInstalls c st isVolatile m updating newVariable).map
        (bufferOf c st isVolatile m.header (size-m.header.length)) := by
  rw [reinstall_eq m hi.named hi.distinct hi.transitionPtr hsize]
  cases newVariable with
  | none => rfl
  | some v =>
    refine installNew_eq m (hi.isEntry v rfl) fun hfits => ?_
    have := hnew v rfl hfits
    omega

theorem poolSize_fits :
    m.header.length + (m.remaining updating).flatten.length + (newVariable.elim 0 length) ≤
      maximumBufferSize c m.bytes updating newVariable := by
  have hle : (m.remaining updating).flatten.length ≤ _ := length_reclaimedEntries_le (isEntry_sparedEntries m)
  have hheader : m.header.length = variableStoreHeaderSize := m.length_header
  rw [maximumBufferSize_eq]
  omega

section
variable (hi : ReclaimInput c m updating newVariable)
include hi

theorem reclaim_volatile (hb : st.memory.volatileStore = m.bytes) (hpool : st.poolExhausted = false) :
    reclaim c st true updating newVariable =
      synchronize (((reclaimInstalls c st true m updating newVariable).map
        (installVolatile st m)).getD st) .volatile (storeSize m.header) := by
  have hpoolSize := @poolSize_fits c m updating newVariable
  have hinst := @installed_eq c st m updating newVariable true hi
    (maximumBufferSize c m.bytes updating newVariable) (by omega)
    fun v hv _ => by obtain rfl := hv; exact hpoolSize
  rw [reclaim_eq]
  simp only [hpool, Bool.and_false, Bool.false_eq_true, if_false, if_true, Bool.true_or, hb, hinst,
    m.storeSize_bytes]
  cases hes : reclaimInstalls c st true m updating newVariable with
  | none => rfl
  | some es =>
    have hback := @copy_back c st true m es
      (maximumBufferSize c m.bytes updating newVariable - m.header.length)
      (length_installs hi hes)
    simp only [Option.map_some, Option.getD_some, writeBack, Bool.true_or, if_true, hback]
    rfl

theorem reclaim_emulated (hemu : c.emuNvMode = true) (hb : st.memory.nvVariableCache = m.bytes)
    (hpool : st.poolExhausted = false) : reclaim c st false updating newVariable =
      synchronize (((reclaimInstalls c st false m updating newVariable).map
        (installEmulated st m)).getD st) .volatile (storeSize m.header) := by
  have hpoolSize := @poolSize_fits c m updating newVariable
  have hinst := @installed_eq c st m updating newVariable false hi
    (maximumBufferSize c m.bytes updating newVariable) (by omega)
    fun v hv _ => by obtain rfl := hv; exact hpoolSize
  have hstore : nvStore c st = m.bytes := by rw [nvStore, if_pos hemu, hb]
  rw [reclaim_eq]
  simp only [hpool, hemu, Bool.and_false, Bool.false_eq_true, if_false, if_true, Bool.or_true,
    hstore, hinst, m.storeSize_bytes]
  rw [reclaimDone, hemu, Bool.or_true, if_pos rfl]
  cases hes : reclaimInstalls c st false m updating newVariable with
  | none => rfl
  | some es =>
    have hback := @copy_back c st false m es
      (maximumBufferSize c m.bytes updating newVariable - m.header.length)
      (length_installs hi hes)
    simp only [Option.map_some, Option.getD_some, writeBack, hemu, Bool.or_true, if_true,
      Bool.false_eq_true, if_false, hback]
    rfl

theorem reclaim_flash (hemu : c.emuNvMode = false) (hb : nvStore c st = m.bytes)
    (hcache : storeSize st.memory.nvVariableCache = storeSize m.header)
    (hftw : st.ftwStatus.headD .success = .success) : reclaim c st false updating newVariable =
      (let st' := ((reclaimInstalls c st false m updating newVariable).map (installFlash st m)).getD st
      synchronize (st'.setStore .nv (nvStore c st')) .nv (storeSize m.header)) := by
  have hlen := @length_remaining_le c m updating
  have hstore := m.storeSize_header
  have hinst := @installed_eq c st m updating newVariable false hi (storeSize m.header)
    (by omega) fun v _ h => h
  rw [reclaim_eq]
  simp only [hemu, Bool.or_false, Bool.false_and, Bool.false_eq_true, if_false, hb, hcache, hinst,
    m.storeSize_bytes]
  rw [reclaimDone, hemu, Bool.or_false, if_ff]
  cases hes : reclaimInstalls c st false m updating newVariable with
  | none => rfl
  | some es =>
    have hwrite : (writeBack c st false (storeSize m.header)
        (bufferOf c st false m.header (storeSize m.header - m.header.length) es)).1 =
          installFlash st m es := by
      rw [writeBack, hemu, Bool.or_false, if_ff, ftwVariableSpace, hftw]
      rfl
    simp only [Option.map_some, Option.getD_some, hwrite]

end

end

section

def SameStores (m m' : VariableMemory) : Prop := ∃ ctx, m' = { m with context := ctx }

theorem SameStores.trans {m m' m'' : VariableMemory} (h : SameStores m m')
    (h' : SameStores m' m'') : SameStores m m'' := by
  obtain ⟨ctx,rfl⟩ := h
  obtain ⟨ctx',rfl⟩ := h'
  exact ⟨ctx', rfl⟩

section
variable (m : VariableMemory)

theorem sameStores_setCache (id : CacheId) (r : VariableRuntimeCache) : SameStores m (m.setCache id r) := by
  cases id <;> exact ⟨_, rfl⟩

theorem sameStores_setPendingUpdate (b : Bool) : SameStores m (m.setPendingUpdate b) := ⟨_, rfl⟩

theorem sameStores_flushPendingHob : SameStores m (flushPendingHob m) := by
  rw [flushPendingHob]
  split
  · exact sameStores_setCache m .hob _
  · exact ⟨m.context, rfl⟩

theorem sameStores_flush : SameStores m (flushPendingRuntimeVariableCacheUpdates m).1 := by
  rw [flushPendingRuntimeVariableCacheUpdates]
  split
  · split
    · exact (((sameStores_flushPendingHob m).trans (sameStores_setCache _ .nv _)).trans
        (sameStores_setCache _ .volatile _)).trans (sameStores_setPendingUpdate _ false)
    · exact ⟨m.context, rfl⟩
  · exact ⟨m.context, rfl⟩

theorem sameStores_synchronize (id : CacheId) (offset length : Nat) :
    SameStores m (synchronizeRuntimeVariableCache m (some id) offset length).1 := by
  rw [synchronizeRuntimeVariableCache]
  split
  · exact ⟨m.context, rfl⟩
  split
  · have hmark : ∀ pending, SameStores m ((m.setCache id ((m.cache id).addPending
        pending offset length)).setPendingUpdate true) := fun pending =>
      (sameStores_setCache m id _).trans (sameStores_setPendingUpdate _ true)
    split
    · exact (hmark _).trans (sameStores_flush _)
    · exact hmark _
  · exact ⟨m.context, rfl⟩

end

theorem synchronize_eq (st : VariableState) (id : CacheId) (length : Nat) :
    ∃ ctx, (synchronize st id length).1 = { st with memory := { st.memory with context := ctx } } := by
  obtain ⟨ctx,h⟩ := sameStores_synchronize st.memory id 0 length
  exact ⟨ctx, by rw [synchronize, h]⟩

end

end Liano.Variable
