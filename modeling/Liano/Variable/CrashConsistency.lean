import Liano.Variable.StepwiseWrite
import Liano.Variable.UpdatedEntry

/-! An update of a variable in flash that is cut off. A call whose next write fails makes no write
after it, so over all statuses of the single writes the flash that a call leaves is the flash after
any first part of its writes. -/
namespace Liano.Variable

open List

open Bytes (slice patch HoldsAt)

section
variable {auth ign : Bool} {k : VariableKey} {es : List Bytes} {e : Bytes}

section
variable (olds : List Bytes) (hes : entriesOf auth es k = olds ++ [e])
  (holds : ∀ d ∈ olds, isAdded d 0 = false)
include hes holds

theorem contents_of_last_added (ha : isAdded e 0 = true) :
    contents auth false ign es k = some (valueOf auth e) := by
  rw [contents, hes, pick_added holds (by rw [isAccessible_bootTime]; exact inUse_of_added ha) ha]
  rfl

theorem contents_of_last (hu : inUse e = true) :
    contents auth false ign es k = some (valueOf auth e) := by
  cases ha : isAdded e 0 with
  | true => exact contents_of_last_added olds hes holds ha
  | false =>
    rw [contents, hes, pick_transition holds (by rw [isAccessible_bootTime]; exact hu)
      (transition_of_inUse hu ha)]
    rfl

end

theorem contents_of_nil (hes : entriesOf auth es k = []) :
    contents auth false ign es k = none := by
  rw [contents, hes, pick_nil]
  rfl

end

/-- The last offset and the totals are those of the entries, the bytes behind them are erased, and
the space for variables and hardware error records is that of the store. -/
structure NvAccounting (c : VariableConfig) (st : VariableState) (m : StoreImage c.authFormat) : Prop where
  lastOffset : st.nonVolatileLastVariableOffset = getStartPointer+m.entries.flatten.length
  erased : m.tail = replicate m.tail.length 0xff
  totals : st.commonVariableTotalSize+st.hwErrVariableTotalSize = m.entries.flatten.length
  common : st.commonVariableTotalSize ≤ c.commonVariableSpace
  hwErr : st.hwErrVariableTotalSize ≤ c.pcdHwErrStorageSize
  aligned : 4 ∣ st.hwErrVariableTotalSize
  space : getStartPointer+c.commonVariableSpace+c.pcdHwErrStorageSize = storeSize m.header
  alignedSpace : 4 ∣ c.pcdHwErrStorageSize

section
variable {c : VariableConfig} {st : VariableState} {m : StoreImage c.authFormat}
  {req : UpdateRequest} {k : VariableKey} {data v : Bytes}

theorem NvAccounting.fits (h : NvAccounting c st m) (hq : quotaExceeded c st req v = false) :
    headerAlign v.length ≤ m.tail.length := by
  have htotals := h.totals
  have hspace := h.space
  have hcommon := h.common
  have hhwErr := h.hwErr
  have hlen : headerAlign v.length < v.length+4 := by
    unfold headerAlign
    omega
  have hsum := m.storeSize_header
  have hstart := m.start_eq
  have hents : 4 ∣ m.entries.flatten.length := dvd_length_flatten fun e he => (m.isEntry e he).dvd_length
  obtain ⟨d,hd⟩ := dvd_headerAlign v.length
  obtain ⟨g,hg⟩ := m.dvd_storeSize
  have hstart4 : getStartPointer = 28 := rfl
  simp only [quotaExceeded, Bool.or_eq_false_iff, Bool.and_eq_false_iff, Bool.not_eq_false',
    decide_eq_false_iff_not] at hq
  obtain ⟨⟨⟨hq,hq'⟩,-⟩,-⟩ := hq
  cases herr : hasAttribute req.attributes efiVariableHardwareErrorRecord with
  | true =>
    have hle := hq.resolve_left (by rw [herr]; decide)
    omega
  | false =>
    have hle := hq'.resolve_left (by rw [herr]; decide)
    omega

theorem flash_countNew (v : Bytes) (st : VariableState) : (countNew c req v st).flash = st.flash := by
  unfold countNew
  split <;> rfl

theorem memory_countNew (v : Bytes) (st : VariableState) : (countNew c req v st).memory = st.memory := by
  unfold countNew
  split <;> rfl

/-- The entry that is written last, in the flash and in the cache. -/
theorem nvImage_countNew {m' : StoreImage c.authFormat} {st' : VariableState} (hst : NvImage c st m)
    (hbs : m.bytes = m.bytesWith (replicate m.tail.length 0xff))
    (hlast : st.nonVolatileLastVariableOffset = getStartPointer+m.entries.flatten.length)
    (hlong : offsetOfState < v.length) (hfit : v.length ≤ m.tail.length)
    (hm' : m'.bytes = m.bytesWith (tailBytes v m.tail.length v.length varAdded)) (honly : OnlyFlash st st')
    (hflash : InFlash c st' (m.bytesWith (tailBytes v m.tail.length v.length varAdded)))
    (hset : (writeInSteps c v st).1 = st'.setStore .nv (patch st'.memory.nvVariableCache
      st.nonVolatileLastVariableOffset (patch v offsetOfState [varAdded]))) :
    NvImage c (countNew c req v (writeInSteps c v st).1) m' := by
  refine ⟨⟨?_, ?_⟩, ?_⟩
  · rw [flash_countNew, hset, hm']
    exact hflash.holds
  · rw [flash_countNew, hset]
    exact hflash.length
  · rw [memory_countNew, hset, hm']
    change patch st'.memory.nvVariableCache _ _ = _
    have hpatch : patch (m.bytesWith (replicate m.tail.length 0xff))
        (getStartPointer+m.entries.flatten.length+0) (patch v offsetOfState [varAdded]) =
          m.bytesWith (patch (replicate m.tail.length 0xff) 0
            (patch v offsetOfState [varAdded])) := m.patch_bytesWith (by
        rw [Bytes.length_patch (by rw [length_singleton]; omega), length_replicate]
        omega)
    rw [honly.memory, hst.cache, hbs, hlast, ← add_zero (_+m.entries.flatten.length),
      hpatch, patch_tailBytes_added hfit hlong]

/-- What a creation without a reclaim does: it is cut off and leaves an entry that is not in use,
or the new entry is there and the old ones are deleted. -/
theorem writeNonVolatile_nv (hc : FlashVolume c) (hst : NvImage c st m)
    (herased : m.tail = replicate m.tail.length 0xff)
    (hlast : st.nonVolatileLastVariableOffset = getStartPointer+m.entries.flatten.length)
    (hv : IsNewVariable c req k data v) (hname : 0 < k.name.length)
    (hfit : headerAlign v.length ≤ m.tail.length) (hq : quotaExceeded c st req v = false)
    (cacheVariable : CacheVariable) : (∃ (m' : StoreImage c.authFormat) (extra : List Bytes),
        InFlash c (writeNonVolatile c req cacheVariable id v st).1 m'.bytes ∧
        m'.entries = m.entries ++ extra ∧ ∀ e ∈ extra, inUse e = false) ∨
      ∃ (m' : StoreImage c.authFormat) (e : Bytes) (st' : VariableState), NvImage c st' m' ∧
        m'.entries = m.entries ++ [e] ∧ isAdded e 0 = true ∧ keyOf c.authFormat e = k ∧
        valueOf c.authFormat e = (req.attributes &&& ~~~efiVariableAppendWrite, data) ∧
        (writeNonVolatile c req cacheVariable id v st).1 = (deleteOld c cacheVariable st').1 := by
  have hal := le_headerAlign v.length
  have hlong := hv.length
  have h32 := headerSize_pos c.authFormat
  have htwo : offsetOfState = 2 := rfl
  have hbs : m.bytes = m.bytesWith (replicate m.tail.length 0xff) := by
    rw [← herased]
    rfl
  have hflash : InFlash c st (m.bytesWith (replicate m.tail.length 0xff)) := by
    rw [← hbs]
    exact hst.flash
  have hout := writeInSteps_nv hc hflash hlast hv.state (by omega) (by omega)
  rw [writeNonVolatile, hq, if_ff, hc.notEmulated, if_ff]
  rcases hout with ⟨herr,-,n,s,hu,hflash'⟩ | ⟨hok,st',honly,hflash',hset⟩
  · rw [andThen_of_error herr]
    obtain ⟨m',hm',extra,hextra,hunused⟩ := exists_unfinished m hv hfit hu
    refine .inl ⟨m', extra, ?_, hextra, hunused⟩
    rw [hm']
    exact hflash'
  rw [andThen_of_success hok]
  obtain ⟨m',e,hm',hes',hadded,hkey,hval,-⟩ := exists_finished m hv hfit
  refine .inr ⟨m', e, countNew c req v (writeInSteps c v st).1, nvImage_countNew hst hbs hlast (by omega) (by omega)
    hm' honly hflash' hset, hes', hadded, hkey, hval, ?_⟩
  rw [andThen]
  split <;> rfl

end

/-- The variables that `es` stands for before runtime, for `k` with the value `new`. -/
def OldOrNew (c : VariableConfig) (m : StoreImage c.authFormat) (k : VariableKey)
    (new : Option (UInt32 × Bytes)) (st : VariableState) : Prop :=
  ∃ m' : StoreImage c.authFormat, InFlash c st m'.bytes ∧ SameOthers c.authFormat k m.entries m'.entries ∧
    ∀ ign, contents c.authFormat false ign m'.entries k = contents c.authFormat false ign m.entries k ∨
      contents c.authFormat false ign m'.entries k = new

section
variable {c : VariableConfig} {st : VariableState} {m : StoreImage c.authFormat}
  {req : UpdateRequest} {k : VariableKey} {data v : Bytes} {pre post : List Bytes} {e : Bytes}
  {cacheVariable : CacheVariable}

theorem OldOrNew.refl (hst : InFlash c st m.bytes) (new : Option (UInt32 × Bytes)) :
    OldOrNew c m k new st := ⟨m, hst, SameOthers.refl _ _ _, fun _ => .inl rfl⟩

section
variable (hc : FlashVolume c) (hst : NvImage c st m)
include hc hst

theorem deleteOld_oldOrNew (hes : m.entries = pre ++ e :: post) (hpost : entriesOf c.authFormat post k = [])
    (hp : PointsTo c.authFormat k cacheVariable.track pre e) (hnv : cacheVariable.storeType = .nv) :
    OldOrNew c m k none (deleteOld c cacheVariable st).1 := by
  obtain ⟨m',himg,hothers,hcases⟩ := deleteOld_nv hc hst hes hp hnv
  refine ⟨m', himg.flash, hothers, fun ign => ?_⟩
  have hold : entriesOf c.authFormat m.entries k = entriesOf c.authFormat pre k ++ [e] := by
    rw [hes, entriesOf_append, entriesOf_cons_pos _ hp.used hp.key, hpost]
  rw [hpost] at hcases
  rcases hcases with ⟨-,olds,holds,hes'⟩ | ⟨-,hes'⟩
  · left
    rw [contents_of_last olds hes' holds hp.used, contents_of_last _ hold hp.before hp.used]
  · right
    exact contents_of_nil hes'

theorem create_oldOrNew (herased : m.tail = replicate m.tail.length 0xff)
    (hlast : st.nonVolatileLastVariableOffset = getStartPointer+m.entries.flatten.length)
    (hv : IsNewVariable c req k data v) (hname : 0 < k.name.length)
    (hfit : headerAlign v.length ≤ m.tail.length) (hq : quotaExceeded c st req v = false)
    (hnil : entriesOf c.authFormat m.entries k = []) (hnone : cacheVariable.track.currPtr = none) :
    OldOrNew c m k (some (req.attributes &&& ~~~efiVariableAppendWrite, data))
      (writeNonVolatile c req cacheVariable id v st).1 := by
  rcases writeNonVolatile_nv hc hst herased hlast hv hname hfit hq cacheVariable with
    ⟨m', extra, hflash, hes', hunused⟩ | ⟨m', e, st', himg, hes', hadded, hkey, hval, hrun⟩
  · refine ⟨m', hflash, ?_, fun ign => .inl ?_⟩
    · rw [hes']
      exact sameOthers_append _ fun e he => .inl (hunused e he)
    · have hextra : entriesOf c.authFormat extra k = [] :=
        filter_eq_nil_iff.mpr fun e he => by rw [hunused e he]; exact Bool.false_ne_true
      rw [contents, contents, hes', entriesOf_append, hextra, append_nil]
  have hdel : deleteOld c cacheVariable st' = (st', .success) := by rw [deleteOld, hnone]
  rw [hrun, hdel]
  refine ⟨m', himg.flash, ?_, fun ign => .inr ?_⟩
  · rw [hes']
    exact sameOthers_append _ fun d hd => .inr (by rw [mem_singleton.mp hd, hkey])
  · rw [← hval]
    refine contents_of_last_added [] ?_ (by simp) hadded
    rw [hes', entriesOf_append, hnil, entriesOf_cons_pos _ (inUse_of_added hadded) hkey]
    rfl

theorem replace_oldOrNew (hes : m.entries = pre ++ e :: post) (hpost : entriesOf c.authFormat post k = [])
    (hp : PointsTo c.authFormat k cacheVariable.track pre e)
    (hnv : cacheVariable.storeType = .nv) (hacc : NvAccounting c st m)
    (hv : IsNewVariable c req k data v) (hname : 0 < k.name.length)
    (hq : quotaExceeded c st req v = false) :
    OldOrNew c m k (some (req.attributes &&& ~~~efiVariableAppendWrite, data))
      (andThen (updateState c st .nv (getStartPointer+pre.flatten.length)
        varInDeletedTransition) fun st => writeNonVolatile c req cacheVariable id v st).1 := by
  have he : IsEntry c.authFormat e := m.isEntry e (by rw [hes]; simp)
  have hold : entriesOf c.authFormat m.entries k = entriesOf c.authFormat pre k ++ [e] := by
    rw [hes, entriesOf_append, entriesOf_cons_pos _ hp.used hp.key, hpost]
  obtain ⟨hrest,hcases⟩ := updateState_nv hc hst hes varInDeletedTransition
    (state_ne_of_inUse hp.used) (masked_ne hp.used _ (.inl rfl))
  generalize updateState c st .nv (getStartPointer+pre.flatten.length)
    varInDeletedTransition = r at hrest hcases ⊢
  rcases hcases with ⟨herr,himg⟩ | ⟨hok,m₁,hes₁,htail,-,himg⟩
  · rw [andThen_of_error herr]
    exact OldOrNew.refl himg.flash _
  rw [andThen_of_success hok]
  have hp₁ := hp.mark he
  have hothers₁ : SameOthers c.authFormat k m.entries m₁.entries := by
    rw [hes, hes₁]
    exact sameOthers_setState _ _ he (state_ne_of_inUse hp.used)
      (masked_ne hp.used _ (.inl rfl)) hp.key
  have hold₁ : entriesOf c.authFormat m₁.entries k = entriesOf c.authFormat pre k ++ [mark e] := by
    rw [hes₁, entriesOf_append]
    have hcons : entriesOf c.authFormat (mark e :: post) k =
        mark e :: entriesOf c.authFormat post k := entriesOf_cons_pos _ hp₁.used hp₁.key
    rw [hpost] at hcons
    exact congrArg _ hcons
  have hlen : m₁.entries.flatten.length = m.entries.flatten.length := by
    rw [hes, hes₁]
    simp only [flatten_append, flatten_cons, length_append, length_setState he]
  have hlast : r.1.nonVolatileLastVariableOffset = getStartPointer+m₁.entries.flatten.length := by
    rw [hrest.nvOffset, hacc.lastOffset, hlen]
  have hq₁ : quotaExceeded c r.1 req v = false := by
    rw [hrest]
    exact hq
  have hfit : headerAlign v.length ≤ m₁.tail.length := by
    rw [htail]
    exact hacc.fits hq
  rcases writeNonVolatile_nv hc himg (by rw [htail]; exact hacc.erased) hlast hv hname hfit
    hq₁ cacheVariable with ⟨m',extra,hflash,hes',hunused⟩ |
      ⟨m', e', st', himage', hes', hadded, hkey, hval, hrun⟩
  · refine ⟨m', hflash, hothers₁.trans ?_, fun ign => .inl ?_⟩
    · rw [hes']
      exact sameOthers_append _ fun e he => .inl (hunused e he)
    · have hextra : entriesOf c.authFormat extra k = [] :=
        filter_eq_nil_iff.mpr fun e he => by rw [hunused e he]; exact Bool.false_ne_true
      have hes'' : entriesOf c.authFormat m'.entries k = entriesOf c.authFormat pre k ++ [mark e] := by
        rw [hes', entriesOf_append, hextra, append_nil, hold₁]
      rw [contents_of_last _ hes'' hp.before hp₁.used, contents_of_last _ hold hp.before hp.used,
        valueOf_mark he hp.used]
  · -- the new entry is ADDED and the ones before it are not
    have hsplit : m'.entries = pre ++ mark e :: (post ++ [e']) := by
      rw [hes', hes₁, append_assoc, cons_append]
      rfl
    have hpost' : entriesOf c.authFormat (post ++ [e']) k = [e'] := by
      rw [entriesOf_append, hpost, entriesOf_cons_pos _ (inUse_of_added hadded) hkey]
      rfl
    obtain ⟨m'',himage'',hothers'',hcases''⟩ := deleteOld_nv hc himage' hsplit hp₁ hnv
    rw [hrun]
    refine ⟨m'', himage''.flash, (hothers₁.trans ?_).trans hothers'', fun ign => .inr ?_⟩
    · rw [hes']
      exact sameOthers_append _ fun d hd => .inr (by rw [mem_singleton.mp hd, hkey])
    · rw [← hval]
      rw [hpost'] at hcases''
      rcases hcases'' with ⟨-,olds,holds,hleft⟩ | ⟨-,hleft⟩
      · refine contents_of_last_added (olds ++ [mark e]) ?_ ?_ hadded
        · rw [hleft, append_assoc, singleton_append]
        · intro d hd
          rcases mem_append.mp hd with hd | hd
          · exact holds d hd
          · rw [mem_singleton.mp hd]
            exact isAdded_eq_false_of_transition (isInDeletedTransition_mark he hp.used)
      · exact contents_of_last_added [] hleft (by simp) hadded

end

end

section
variable (c : VariableConfig) (st : VariableState) (req : UpdateRequest)

/-- The variable in flash as `FindVariable` gives it to the call, with `IgnoreRtCheck`. -/
def nvVariable : CacheVariable where
  storeType := .nv
  track := (findVariableEx c.authFormat st.atRuntime req.variableName req.vendorGuid true
    st.memory.nvVariableCache).1

def WritesInPlace (cacheVariable : CacheVariable) : Prop :=
  ∀ data mark, updatePlan c st req cacheVariable = .write data mark → req.isNonVolatile = true ∧
      quotaExceeded c st req (plannedVariable c st req cacheVariable data) = false

/-- The value that the call is to give the variable, which has the value `old`. -/
def newValue (cacheVariable : CacheVariable) (old : Option (UInt32 × Bytes)) : Option (UInt32 × Bytes) :=
  match updatePlan c st req cacheVariable with
  | .done _ => old
  | .delete => none
  | .write data _ => some (req.attributes &&& ~~~efiVariableAppendWrite, data)

end

section
variable {c : VariableConfig} {st : VariableState} {m : StoreImage c.authFormat}
  {req : UpdateRequest} {k : VariableKey} {cacheVariable : CacheVariable}

theorem updatePlanExisting_marks {t : VariableStoreType} {p : Nat} {data : Bytes} {mark : Bool}
    (hu : (isAdded (cacheStore st t) p || isInDeletedTransition (cacheStore st t) p) = true)
    (h : updatePlanExisting c st req t p = .write data mark) : mark = true := by
  unfold updatePlanExisting at h
  dsimp only at h
  repeat' split at h
  all_goals first
    | exact UpdatePlan.noConfusion h
    | exact (UpdatePlan.write.inj h).2.symm

theorem execute_oldOrNew (hc : FlashVolume c) (hst : NvImage c st m) (hacc : NvAccounting c st m)
    (hw : m.WellFormed) (hfst : TransitionFirst m k) (hreq : Requests req k)
    (hplace : WritesInPlace c st req (nvVariable c st req)) (ign : Bool) :
    OldOrNew c m k (newValue c st req (nvVariable c st req) (contents c.authFormat false ign m.entries k))
      (execute c st req (nvVariable c st req) id (updatePlan c st req (nvVariable c st req))).1 := by
  obtain ⟨s,hs⟩ := hreq.name
  have hname : 0 < k.name.length := lt_of_lt_of_le (by decide) hreq.isName.two_le
  have htrack : (nvVariable c st req).track =
      (findVariableEx c.authFormat st.atRuntime (k.name ++ s) k.vendorGuid true m.bytes).1 := by
    rw [nvVariable, hst.cache, hs, hreq.vendorGuid]
  have hnv : (nvVariable c st req).storeType = .nv := rfl
  -- the new variable, whose time stamp may be the old one's
  have hnew : ∀ data,
      ((nvVariable c st req).track.currPtr = none ∨ ∃ pre e post, m.entries = pre ++ e :: post ∧
        (nvVariable c st req).track.currPtr = some (getStartPointer+pre.flatten.length)) →
      IsNewVariable c req k data (plannedVariable c st req (nvVariable c st req) data) := by
    intro data hcur
    refine isNewVariable c hreq (fun hauth old hold => ?_) data
    rcases hcur with hnone | ⟨pre,e,post,hes,hsome⟩
    · rw [hnone] at hold
      exact absurd hold (by simp)
    rw [hsome, Option.map_some, Option.some.injEq] at hold
    have he : IsEntry c.authFormat e := m.isEntry e (by rw [hes]; simp)
    have hat := StoreImage.holdsAt (mem_located.mpr ⟨pre, post, hes, rfl⟩ :
      (getStartPointer+pre.flatten.length, e) ∈ m.locatedEntries)
    have hlen : 60 ≤ e.length := by
      have hhdr := he.header
      rw [hauth] at hhdr
      exact hhdr
    have hle : getStartPointer+pre.flatten.length+e.length ≤ m.bytes.length := hat.length_le
    rw [← hold, hnv, cacheStore, hst.cache]
    exact Bytes.length_slice (by omega)
  generalize hcv : nvVariable c st req = cv at htrack hnv hnew hplace ⊢
  by_cases hnil : entriesOf c.authFormat m.entries k = []
  · have hnone : cv.track.currPtr = none := by rw [htrack, find_absent hw.names hreq.isName hnil]
    rw [newValue]
    cases hplan : updatePlan c st req cv with
    | done status => exact OldOrNew.refl hst.flash _
    | delete =>
      have hdel : deleteOld c cv st = (st, .success) := by rw [deleteOld, hnone]
      rw [execute, hdel, hnv]
      exact OldOrNew.refl hst.flash _
    | write data mark =>
      obtain ⟨hreqNv,hq⟩ := hplace data mark hplan
      have hrun : execute c st req cv id (.write data mark) =
          writeNonVolatile c req cv id (plannedVariable c st req cv data) st := by
        unfold execute
        rw [hnone, hreqNv]
        cases mark <;> rfl
      rw [hrun]
      exact create_oldOrNew hc hst hacc.erased hacc.lastOffset (hnew data (.inl hnone)) hname
        (hacc.fits hq) hq hnil hnone
  · obtain ⟨pre,e,post,hes,hpost,hp⟩ := @find_current c.authFormat st.atRuntime k m hw.names
      hreq.isName hw.distinct hfst hnil s
    rw [← htrack] at hp
    rw [newValue]
    cases hplan : updatePlan c st req cv with
    | done status => exact OldOrNew.refl hst.flash _
    | delete =>
      have hrun : (execute c st req cv id .delete).1 = (deleteOld c cv st).1 := by
        rw [execute, hnv, andThen]
        split <;> rfl
      rw [hrun]
      exact deleteOld_oldOrNew hc hst hes hpost hp hnv
    | write data mark =>
      obtain ⟨hreqNv,hq⟩ := hplace data mark hplan
      have hx : (getStartPointer+pre.flatten.length, e) ∈ m.locatedEntries :=
        mem_located.mpr ⟨pre, post, hes, rfl⟩
      have hu : (isAdded (cacheStore st .nv) (getStartPointer+pre.flatten.length) ||
          isInDeletedTransition (cacheStore st .nv) (getStartPointer+pre.flatten.length)) = true := by
        rw [cacheStore, hst.cache, StoreImage.isAdded_bytes hx, StoreImage.isInDeletedTransition_bytes hx]
        exact hp.used
      have hmark : mark = true := by
        rw [updatePlan, hp.currPtr, hnv] at hplan
        exact updatePlanExisting_marks hu hplan
      have hrun : execute c st req cv id (.write data mark) =
          andThen (updateState c st .nv (getStartPointer+pre.flatten.length)
            varInDeletedTransition) fun st' =>
              writeNonVolatile c req cv id (plannedVariable c st req cv data) st' := by
        unfold execute
        rw [hp.currPtr, hreqNv, hmark, hnv]
        rfl
      rw [hrun]
      exact replace_oldOrNew hc hst hes hpost hp hnv hacc
        (hnew data (.inr ⟨pre, e, post, hes, hp.currPtr⟩)) hname hq

theorem flash_updateDone (req : UpdateRequest) (cacheVariable : CacheVariable)
    (r : VariableState × EfiStatus) : (updateDone req cacheVariable r).1.flash = r.1.flash := by
  unfold updateDone andThen
  split
  · rfl
  · dsimp only
    split <;> rfl

/-- A call for a variable in flash, wherever its writes are cut off: a scan of the flash finds the
whole old value or the whole new one, and every other variable as it was. The flush of the variable
HOB at the end of a call makes calls of its own. -/
theorem updateVariable_crash_consistent (c : VariableConfig) (st : VariableState)
    (m : StoreImage c.authFormat) (req : UpdateRequest) (k : VariableKey) (hc : FlashVolume c)
    (hst : NvImage c st m) (hacc : NvAccounting c st m) (hw : m.WellFormed)
    (hfirst : TransitionFirst m k) (hreq : Requests req k)
    (hplace : WritesInPlace c st req (nvVariable c st req)) (ign : Bool) : (seenIn c.authFormat false ign
          (nvStore c (updateVariableWith c st req (nvVariable c st req) id).1) k =
        seenIn c.authFormat false ign (nvStore c st) k ∨ seenIn c.authFormat false ign
          (nvStore c (updateVariableWith c st req (nvVariable c st req) id).1) k =
        newValue c st req (nvVariable c st req) (seenIn c.authFormat false ign (nvStore c st) k)) ∧
    ∀ k', k' ≠ k → IsVariableName k'.name → seenIn c.authFormat false ign
          (nvStore c (updateVariableWith c st req (nvVariable c st req) id).1) k' =
        seenIn c.authFormat false ign (nvStore c st) k' := by
  have hbef : ∀ {k' : VariableKey}, IsVariableName k'.name → seenIn c.authFormat false ign (nvStore c st) k' =
        contents c.authFormat false ign m.entries k' := by
    intro k' hk'
    rw [nvStore_of_holdsAt hc.notEmulated hst.flash.holds, m.seenIn_bytes hw.names hk']
  have hout : OldOrNew c m k (newValue c st req (nvVariable c st req)
      (contents c.authFormat false ign m.entries k))
      (updateVariableWith c st req (nvVariable c st req) id).1 := by
    have hrun := execute_oldOrNew hc hst hacc hw hfirst hreq hplace ign
    have hswitch : switchFromHob c st req (nvVariable c st req) = nvVariable c st req := by
      have hnot : (VariableStoreType.nv == VariableStoreType.hob) = false := rfl
      rw [switchFromHob, nvVariable, hnot, Bool.and_false, if_ff]
    have hboth : ((nvVariable c st req).track.currPtr.isSome &&
        (nvVariable c st req).track.currPtr.isNone) = false := by
      cases (nvVariable c st req).track.currPtr <;> rfl
    unfold updateVariableWith
    split
    · exact OldOrNew.refl hst.flash _
    · dsimp only
      rw [hswitch, hboth, Bool.false_and, if_ff]
      obtain ⟨m',hflash,hm'⟩ := hrun
      refine ⟨m', ⟨?_, ?_⟩, hm'⟩
      · rw [flash_updateDone]
        exact hflash.holds
      · rw [flash_updateDone]
        exact hflash.length
  obtain ⟨m',hflash,hothers,hval⟩ := hout
  have hafter : ∀ {k' : VariableKey}, IsVariableName k'.name → seenIn c.authFormat false ign
          (nvStore c (updateVariableWith c st req (nvVariable c st req) id).1) k' =
        contents c.authFormat false ign m'.entries k' := by
    intro k' hk'
    have hn : NamedEntries c.authFormat m.entries := hw.names
    rw [nvStore_of_holdsAt hc.notEmulated hflash.holds,
      m'.seenIn_bytes (hn.sameOthers hreq.isName hothers) hk']
  constructor
  · rw [hafter hreq.isName, hbef hreq.isName]
    exact hval ign
  · intro k' hne hk'
    rw [hafter hk', hbef hk', contents, contents, hothers k' hne]

end

/-! The variable "A" with two entries, updated with the second write failing. -/

def letterRequest (data : UInt8) : UpdateRequest where
  variableName := [0x41, 0, 0, 0]
  vendorGuid := replicate 16 0
  data := [data]
  attributes := 7
  keyIndex := 0
  monotonicCount := 0
  timeStamp := none

def cutOff (m : StoreImage false) : VariableState :=
  { smallState [] m.bytes 0 108 80 with fvbStatus := [.success, .deviceError] }

theorem requests_letterRequest (data : UInt8) : Requests (letterRequest data) (letterKey 0x41) where
  name := ⟨[], rfl⟩
  isName := ⟨by decide, by decide⟩
  vendorGuid := rfl
  length_guid := by decide
  length_timeStamp ts h := nomatch h

theorem flashVolume_smallConfig : FlashVolume smallConfig := ⟨rfl, by decide⟩

theorem nvImage_cutOff (m : StoreImage false) (hlen : m.bytes.length = 148) :
    NvImage smallConfig (cutOff m) m where
  flash := ⟨Bytes.holdsAt_self _, hlen⟩
  cache := rfl

theorem nvAccounting_twoEntries {d e : Bytes} (hd : IsEntry false d) (he : IsEntry false e)
    (hlen : d.length+e.length = 80) :
    NvAccounting smallConfig (cutOff (twoEntries d e hd he hlen)) (twoEntries d e hd he hlen) where
  lastOffset := by
    change 108 = 28 + [d, e].flatten.length
    simp [hlen]
  erased := by rfl
  totals := by
    change 80 + 0 = [d, e].flatten.length
    simp [hlen]
  common := by
    change 80 ≤ 120
    decide
  hwErr := le_rfl
  aligned := ⟨0, rfl⟩
  space := by
    change 28 + 120 + 0 = storeSize (storeHeader 148)
    decide
  alignedSpace := ⟨0, rfl⟩

/-- With the ADDED entry first, the first write makes the stale twin the one that a scan takes. -/
theorem updateVariable_late_twin : FlashVolume smallConfig ∧ NvImage smallConfig (cutOff twinLate) twinLate ∧
    NvAccounting smallConfig (cutOff twinLate) twinLate ∧ twinLate.WellFormed ∧
    Requests (letterRequest 9) (letterKey 0x41) ∧ newValue smallConfig (cutOff twinLate) (letterRequest 9)
      (nvVariable smallConfig (cutOff twinLate) (letterRequest 9)) (some (7, [1])) = some (7, [9]) ∧
    seenIn false false false (nvStore smallConfig (cutOff twinLate)) (letterKey 0x41) = some (7, [1]) ∧
    seenIn false false false (nvStore smallConfig
      (updateVariableWith smallConfig (cutOff twinLate) (letterRequest 9)
        (nvVariable smallConfig (cutOff twinLate) (letterRequest 9)) id).1) (letterKey 0x41) =
      some (7, [2]) :=
  ⟨flashVolume_smallConfig, nvImage_cutOff twinLate (by decide +kernel), nvAccounting_twoEntries _ _ _,
    twinLate_wellFormed, requests_letterRequest 9, by decide +kernel, by decide +kernel,
    by decide +kernel⟩

theorem updateVariable_crash_consistent_twinFirst : (seenIn false false false
          (nvStore smallConfig (updateVariableWith smallConfig (cutOff twinFirst)
            (letterRequest 9) (nvVariable smallConfig (cutOff twinFirst) (letterRequest 9)) id).1)
              (letterKey 0x41) =
        seenIn false false false (nvStore smallConfig (cutOff twinFirst)) (letterKey 0x41) ∨
      seenIn false false false (nvStore smallConfig (updateVariableWith smallConfig (cutOff twinFirst)
            (letterRequest 9) (nvVariable smallConfig (cutOff twinFirst) (letterRequest 9)) id).1)
              (letterKey 0x41) = newValue smallConfig (cutOff twinFirst) (letterRequest 9)
          (nvVariable smallConfig (cutOff twinFirst) (letterRequest 9))
          (seenIn false false false (nvStore smallConfig (cutOff twinFirst)) (letterKey 0x41))) ∧
    ∀ k', k' ≠ letterKey 0x41 → IsVariableName k'.name → seenIn false false false
          (nvStore smallConfig (updateVariableWith smallConfig (cutOff twinFirst)
            (letterRequest 9) (nvVariable smallConfig (cutOff twinFirst) (letterRequest 9)) id).1)
              k' = seenIn false false false (nvStore smallConfig (cutOff twinFirst)) k' :=
  updateVariable_crash_consistent smallConfig (cutOff twinFirst) twinFirst (letterRequest 9)
    (letterKey 0x41) flashVolume_smallConfig (nvImage_cutOff twinFirst (by decide +kernel))
    (nvAccounting_twoEntries _ _ _) twinFirst_wellFormed twinFirst_transitionFirst
    (requests_letterRequest 9)
    (by
      intro data mark h
      have hplan : updatePlan smallConfig (cutOff twinFirst) (letterRequest 9)
          (nvVariable smallConfig (cutOff twinFirst) (letterRequest 9)) = .write [9] true := by
        decide +kernel
      rw [hplan] at h
      obtain ⟨rfl,rfl⟩ := UpdatePlan.write.inj h
      decide +kernel)
    false

end Liano.Variable
