import Liano.Variable.CrashConsistency

/-! The accounting of the non-volatile store in flash: the last offset, the totals and the cache are
those of its entries. It is kept by a state change whose write may fail, and by a creation that is
not cut off. -/
namespace Liano.Variable

open List

open Bytes (slice patch HoldsAt)

def kindSize (hwErr : Bool) (es : List Bytes) : Nat :=
  (es.filter fun e => isHardwareErrorRecord (attributes e 0) == hwErr).flatten.length

section
variable {auth : Bool} {hwErr : Bool} {es es' pre post : List Bytes} {e : Bytes}

theorem kindSize_nil : kindSize hwErr [] = 0 := rfl

theorem kindSize_cons (e : Bytes) (es : List Bytes) :
    kindSize hwErr (e :: es) = (if isHardwareErrorRecord (attributes e 0) == hwErr then e.length
      else 0) + kindSize hwErr es := by
  unfold kindSize
  rw [filter_cons]
  split
  · rw [flatten_cons, length_append]
  · rw [zero_add]

theorem kindSize_append (es es' : List Bytes) :
    kindSize hwErr (es ++ es') = kindSize hwErr es + kindSize hwErr es' := by
  unfold kindSize
  rw [filter_append, flatten_append, length_append]

theorem kindSize_total (es : List Bytes) : kindSize false es + kindSize true es = es.flatten.length := by
  induction es with
  | nil => rfl
  | cons e es ih =>
    rw [kindSize_cons, kindSize_cons, flatten_cons, length_append, ← ih]
    cases isHardwareErrorRecord (attributes e 0) <;> simp <;> omega

theorem dvd_kindSize (hwErr : Bool) (h : ∀ e ∈ es, IsEntry auth e) : 4 ∣ kindSize hwErr es :=
  dvd_length_flatten fun e he => (h e (mem_filter.mp he).1).dvd_length

theorem kindSize_filter_le (p q : Bytes → Bool) (h : ∀ e, p e = true → q e = false) (es : List Bytes) :
    kindSize hwErr (es.filter p) + kindSize hwErr (es.filter q) ≤ kindSize hwErr es := by
  induction es with
  | nil => exact le_rfl
  | cons e es ih =>
    have hne := h e
    cases hp : p e with
    | true =>
      rw [filter_cons_of_pos hp, filter_cons_of_neg (by rw [hne hp]; decide), kindSize_cons, kindSize_cons]
      omega
    | false =>
      rw [filter_cons_of_neg (by rw [hp]; decide)]
      cases hq : q e with
      | true =>
        rw [filter_cons_of_pos hq, kindSize_cons, kindSize_cons]
        omega
      | false =>
        rw [filter_cons_of_neg (by rw [hq]; decide), kindSize_cons]
        omega

end

/-- The store `m` is in flash and in the cache, erased behind its entries; the last offset and the
totals are those of the entries, within the space of their kind; and the entries in use have data. -/
structure Accounted (c : VariableConfig) (st : VariableState) (m : StoreImage c.authFormat) : Prop where
  image : NvImage c st m
  lastOffset : st.nonVolatileLastVariableOffset = getStartPointer+m.entries.flatten.length
  erased : m.tail = replicate m.tail.length 0xff
  common : st.commonVariableTotalSize = kindSize false m.entries
  hwErr : st.hwErrVariableTotalSize = kindSize true m.entries
  commonSpace : kindSize false m.entries ≤ c.commonVariableSpace
  hwErrSpace : kindSize true m.entries ≤ c.pcdHwErrStorageSize
  space : getStartPointer+c.commonVariableSpace+c.pcdHwErrStorageSize = storeSize m.header
  alignedSpace : 4 ∣ c.pcdHwErrStorageSize
  hasData : ∀ e ∈ m.entries, inUse e = true → 0 < dataSizeOfVariable c.authFormat e 0

def PointsToEntry {authFormat : Bool} (m : StoreImage authFormat) (p : Nat) : Prop :=
  ∃ e, (p,e) ∈ m.locatedEntries ∧ state e 0 ≠ 0xff ∧ 0 < dataSizeOfVariable authFormat e 0

def Keeps (c : VariableConfig) (m : StoreImage c.authFormat) (st : VariableState) : Prop :=
  ∃ m' : StoreImage c.authFormat, Accounted c st m' ∧ ∀ p, PointsToEntry m p → PointsToEntry m' p

structure Untouched (st st' : VariableState) : Prop where
  flash : st'.flash = st.flash
  cache : st'.memory.nvVariableCache = st.memory.nvVariableCache
  lastOffset : st'.nonVolatileLastVariableOffset = st.nonVolatileLastVariableOffset
  common : st'.commonVariableTotalSize = st.commonVariableTotalSize
  hwErr : st'.hwErrVariableTotalSize = st.hwErrVariableTotalSize

section
variable {c : VariableConfig} {st st' : VariableState} {m : StoreImage c.authFormat}

theorem Untouched.refl (st : VariableState) : Untouched st st := ⟨rfl, rfl, rfl, rfl, rfl⟩

theorem Untouched.trans {st'' : VariableState} (h : Untouched st st') (h' : Untouched st' st'') :
    Untouched st st'' := ⟨h'.flash.trans h.flash, h'.cache.trans h.cache, h'.lastOffset.trans h.lastOffset,
    h'.common.trans h.common, h'.hwErr.trans h.hwErr⟩

theorem Accounted.of_untouched (h : Accounted c st m) (hu : Untouched st st') : Accounted c st' m where
  image := by
    refine ⟨⟨?_, ?_⟩, ?_⟩
    · rw [hu.flash]
      exact h.image.flash.holds
    · rw [hu.flash]
      exact h.image.flash.length
    · rw [hu.cache]
      exact h.image.cache
  lastOffset := hu.lastOffset.trans h.lastOffset
  erased := h.erased
  common := hu.common.trans h.common
  hwErr := hu.hwErr.trans h.hwErr
  commonSpace := h.commonSpace
  hwErrSpace := h.hwErrSpace
  space := h.space
  alignedSpace := h.alignedSpace
  hasData := h.hasData

theorem Accounted.keeps (h : Accounted c st m) : Keeps c m st := ⟨m, h, fun _ hp => hp⟩

variable {m' : StoreImage c.authFormat} {p : Nat}

theorem Keeps.trans (h : ∀ p, PointsToEntry m p → PointsToEntry m' p)
    (h' : Keeps c m' st) : Keeps c m st := by
  obtain ⟨m'',hacc,hp⟩ := h'
  exact ⟨m'', hacc, fun p hpm => hp p (h p hpm)⟩

theorem Accounted.nvAccounting (h : Accounted c st m) : NvAccounting c st m where
  lastOffset := h.lastOffset
  erased := h.erased
  totals := by rw [h.common, h.hwErr, kindSize_total]
  common := by rw [h.common]; exact h.commonSpace
  hwErr := by rw [h.hwErr]; exact h.hwErrSpace
  aligned := by rw [h.hwErr]; exact dvd_kindSize true m.isEntry
  space := h.space
  alignedSpace := h.alignedSpace

/-- The entries of a store stay where they are when one of them is exchanged for one as long. -/
theorem mem_located_exchange {pre post : List Bytes} {d e e' : Bytes} {q : Nat}
    (hlen : e'.length = e.length) (h : (q,d) ∈ located p (pre ++ e :: post)) :
    (q,d) ∈ located p (pre ++ e' :: post) ∨ d = e ∧ (q,e') ∈ located p (pre ++ e' :: post) := by
  rw [located_append, located, mem_append, mem_cons] at h
  rw [located_append, located, mem_append, mem_cons, mem_append, mem_cons, hlen]
  rcases h with h | h | h
  · exact .inl (.inl h)
  · obtain ⟨rfl,rfl⟩ := Prod.mk.inj h
    exact .inr ⟨rfl, .inr (.inl rfl)⟩
  · exact .inl (.inr (.inr h))

theorem and_ne_erased {a : UInt8} (mask : UInt8) (h : a ≠ 0xff) : a &&& mask ≠ 0xff := by
  intro hand
  have hself : a &&& (a &&& mask) = a &&& mask := by rw [← UInt8.and_assoc, UInt8.and_self]
  rw [hand, UInt8.and_comm, erased_and] at hself
  exact h hself

theorem Accounted.exchange (h : Accounted c st m)
    {pre post : List Bytes} {e e' : Bytes} (hes : m.entries = pre ++ e :: post)
    (hes' : m'.entries = pre ++ e' :: post) (htail : m'.tail = m.tail)
    (hhdr : m'.header = m.header) (hlen : e'.length = e.length)
    (hattr : attributes e' 0 = attributes e 0)
    (hdata : inUse e' = true → 0 < dataSizeOfVariable c.authFormat e' 0)
    (himg : NvImage c st' m') (hrest : SameRest st st') : Accounted c st' m' := by
  have hcommon : st'.commonVariableTotalSize = st.commonVariableTotalSize := by rw [hrest]
  have hhwErr : st'.hwErrVariableTotalSize = st.hwErrVariableTotalSize := by rw [hrest]
  have hkind : ∀ b, kindSize b m'.entries = kindSize b m.entries := by
    intro b
    rw [hes', hes, kindSize_append, kindSize_append, kindSize_cons, kindSize_cons, hattr, hlen]
  have hflatten : m'.entries.flatten.length = m.entries.flatten.length := by
    rw [← kindSize_total, ← kindSize_total, hkind, hkind]
  refine ⟨himg, ?_, ?_, ?_, ?_, ?_, ?_, ?_, h.alignedSpace, ?_⟩
  · rw [hrest.nvOffset, h.lastOffset, hflatten]
  · rw [htail]
    exact h.erased
  · rw [hcommon, h.common, hkind]
  · rw [hhwErr, h.hwErr, hkind]
  · rw [hkind]
    exact h.commonSpace
  · rw [hkind]
    exact h.hwErrSpace
  · rw [hhdr]
    exact h.space
  · intro d hd hu
    rw [hes'] at hd
    rcases mem_append.mp hd with hd | hd
    · exact h.hasData d (by rw [hes]; exact mem_append_left _ hd) hu
    rcases mem_cons.mp hd with rfl | hd
    · exact hdata hu
    have hmemd : d ∈ m.entries := by
      rw [hes]
      exact mem_append_right _ (mem_cons_of_mem _ hd)
    exact h.hasData d hmemd hu

theorem updateState_keeps (hc : FlashVolume c) (h : Accounted c st m)
    (hp : PointsToEntry m p) (mask : UInt8) : Keeps c m (updateState c st .nv p mask).1 := by
  obtain ⟨e,hmem,hst,hdata⟩ := hp
  obtain ⟨pre,post,hes,rfl⟩ := mem_located.mp hmem
  have he : IsEntry c.authFormat e := m.isEntry e (by rw [hes]; simp)
  have hnew := and_ne_erased mask hst
  obtain ⟨hrest,hcases⟩ := updateState_nv hc h.image hes mask hst hnew
  generalize updateState c st .nv (getStartPointer+pre.flatten.length) mask = r at hrest hcases ⊢
  rcases hcases with ⟨-,himg⟩ | ⟨-,m',hes',htail,hhdr,himg⟩
  · have hdata' : inUse e = true → 0 < dataSizeOfVariable c.authFormat e 0 := fun _ => hdata
    exact (h.exchange hes hes rfl rfl rfl rfl hdata' himg hrest).keeps
  have hdata' : 0 < dataSizeOfVariable c.authFormat (setState e (state e 0 &&& mask)) 0 := by
    rw [dataSize_setState he hst hnew]
    exact hdata
  refine ⟨m', h.exchange hes hes' htail hhdr (length_setState he) (attributes_setState he)
    (fun _ => hdata') himg hrest, ?_⟩
  rintro q ⟨d,hd,hds,hdd⟩
  rw [StoreImage.locatedEntries, hes] at hd
  rcases mem_located_exchange (length_setState he) hd with hd' | ⟨rfl,hd'⟩
  · exact ⟨d, by rw [StoreImage.locatedEntries, hes']; exact hd', hds, hdd⟩
  · refine ⟨_, by rw [StoreImage.locatedEntries, hes']; exact hd', ?_, hdata'⟩
    rw [state_setState he]
    exact hnew

theorem updateVariableStore_volatile_untouched (c : VariableConfig) (st : VariableState)
    (off : Nat) (data : Bytes) : Untouched st (updateVariableStore c st true off data).1 := by
  unfold updateVariableStore
  rw [if_neg (by simp)]
  simp only [if_true]
  split
  · exact Untouched.refl st
  · exact ⟨rfl, rfl, rfl, rfl, rfl⟩

theorem updateState_volatile_untouched (c : VariableConfig) (st : VariableState) (p : Nat)
    (mask : UInt8) : Untouched st (updateState c st .volatile p mask).1 := by
  have h := updateVariableStore_volatile_untouched c st (p+offsetOfState)
    [state (cacheStore st .volatile) p &&& mask]
  unfold updateState
  dsimp only
  rw [if_pos (by simp)]
  exact h

theorem synchronize_untouched (st : VariableState) (id : CacheId) (n : Nat) :
    Untouched st (synchronize st id n).1 := by
  obtain ⟨ctx,h⟩ := synchronize_eq st id n
  rw [h]
  exact ⟨rfl, rfl, rfl, rfl, rfl⟩

theorem reclaim_volatile_untouched (c : VariableConfig) (st : VariableState)
    (updating : VariablePointerTrack) (newVariable : Option Bytes) :
    Untouched st (reclaim c st true updating newVariable).1 := by
  have hback : ∀ (n : Nat) (r : ReclaimBuffer), Untouched st (writeBack c st true n r).1 := by
    intro n r
    exact ⟨rfl, rfl, rfl, rfl, rfl⟩
  unfold reclaim
  dsimp only
  split
  · exact Untouched.refl st
  unfold reclaimDone
  rw [if_pos (by simp)]
  refine Untouched.trans ?_ (synchronize_untouched _ _ _)
  split
  · exact Untouched.refl st
  · exact hback _ _

/-- The pointers lead to entries of the NV store, or they lead to the volatile store. -/
def CacheVariableOk {authFormat : Bool} (m : StoreImage authFormat) (cacheVariable : CacheVariable) :
    Prop := cacheVariable.storeType = .volatile ∨ cacheVariable.storeType = .nv ∧
    (∀ p, cacheVariable.track.currPtr = some p → PointsToEntry m p) ∧
    ∀ q, cacheVariable.track.inDeletedTransitionPtr = some q → PointsToEntry m q

variable {cacheVariable : CacheVariable}

theorem updateState_ok_keeps (hc : FlashVolume c) (h : Accounted c st m)
    (hcv : CacheVariableOk m cacheVariable)
    (hp : cacheVariable.storeType = .nv → PointsToEntry m p) (mask : UInt8) :
    Keeps c m (updateState c st cacheVariable.storeType p mask).1 := by
  rcases hcv with hv | ⟨hnv,-⟩
  · rw [hv]
    exact (h.of_untouched (updateState_volatile_untouched c st p mask)).keeps
  · have hp' := hp hnv
    rw [hnv]
    exact updateState_keeps hc h hp' mask

section
variable (h : CacheVariableOk m cacheVariable)
include h

theorem CacheVariableOk.mono (hm : ∀ p, PointsToEntry m p → PointsToEntry m' p) :
    CacheVariableOk m' cacheVariable :=
  h.imp id fun ⟨hnv, hp, hq⟩ => ⟨hnv, fun p hs => hm p (hp p hs), fun q hs => hm q (hq q hs)⟩

theorem CacheVariableOk.currPtr (hp : cacheVariable.track.currPtr = some p) :
    cacheVariable.storeType = .nv → PointsToEntry m p := by
  intro hnv
  rcases h with hv | ⟨-,hcurr,-⟩
  · rw [hv] at hnv
    exact VariableStoreType.noConfusion hnv
  · exact hcurr p hp

theorem CacheVariableOk.inDeletedTransitionPtr {q : Nat}
    (hq : cacheVariable.track.inDeletedTransitionPtr = some q) :
    cacheVariable.storeType = .nv → PointsToEntry m q := by
  intro hnv
  rcases h with hv | ⟨-,-,htwin⟩
  · rw [hv] at hnv
    exact VariableStoreType.noConfusion hnv
  · exact htwin q hq

end

theorem deleteOld_keeps (hc : FlashVolume c) (h : Accounted c st m)
    (hcv : CacheVariableOk m cacheVariable) : Keeps c m (deleteOld c cacheVariable st).1 := by
  cases hp : cacheVariable.track.currPtr with
  | none =>
    have hdel : deleteOld c cacheVariable st = (st, .success) := by rw [deleteOld, hp]
    rw [hdel]
    exact h.keeps
  | some p =>
    rw [deleteOld_of_current hp]
    have htwin : Keeps c m (deleteTwin c cacheVariable st).1 := by
      cases hq : cacheVariable.track.inDeletedTransitionPtr with
      | none =>
        rw [deleteTwin, hq]
        exact h.keeps
      | some q =>
        rw [deleteTwin, hq]
        exact updateState_ok_keeps hc h hcv (hcv.inDeletedTransitionPtr hq) _
    generalize deleteTwin c cacheVariable st = r at htwin ⊢
    cases herr : r.2.isError with
    | true =>
      rw [andThen_of_error herr]
      exact htwin
    | false =>
      rw [andThen_of_success herr]
      obtain ⟨m',hacc,hm⟩ := htwin
      have hcv' := hcv.mono hm
      exact Keeps.trans hm (updateState_ok_keeps hc hacc hcv' (hcv'.currPtr hp) _)

end

end Liano.Variable
