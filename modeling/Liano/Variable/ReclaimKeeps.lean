import Liano.Variable.Enumeration
import Liano.Variable.ReclaimStore

/-! A reclaim keeps the variables of a store, up to the one that is updated, and leaves it compact. -/
namespace Liano.Variable

open List

open Bytes (slice patch HoldsAt)

section
variable {authFormat : Bool} {m : StoreImage authFormat} {k : VariableKey}

def TransitionFirst (m : StoreImage authFormat) (k : VariableKey) : Prop :=
  ∀ x ∈ m.locatedEntries, ∀ y ∈ m.locatedEntries, keyOf authFormat x.2 = k →
    keyOf authFormat y.2 = k → isAdded x.2 0 = true → isInDeletedTransition y.2 0 = true → y.1 < x.1

/-- `FindVariableEx` with `IgnoreRtCheck`. -/
def trackOf (authFormat : Bool) (b : Bytes) (k : VariableKey) : VariablePointerTrack :=
  (findVariableEx authFormat false k.name k.vendorGuid true b).1

section
variable (hn : NamedEntries authFormat m.entries) (hk : IsVariableName k.name)
include hn hk

theorem lookupMatches_ignore {x : Nat × Bytes} (hx : x ∈ m.locatedEntries) :
    lookupMatches authFormat false k.name k.vendorGuid true x.2 =
      (inUse x.2 && keyOf authFormat x.2 == k) := by
  have h : lookupMatches authFormat false (k.name ++ []) k.vendorGuid true x.2 =
      (isAccessible false true x.2 0 && keyOf authFormat x.2 == k) := StoreImage.lookupMatches_iff hn hk hx []
  rwa [append_nil, isAccessible_ignore] at h

/-- The pointers lead to entries in use of the variable, the second one to one in transition. -/
theorem trackOf_sound : (∀ p, (trackOf authFormat m.bytes k).currPtr = some p →
      ∃ x ∈ m.locatedEntries, x.1 = p ∧ inUse x.2 = true ∧ keyOf authFormat x.2 = k) ∧
    (∀ p, (trackOf authFormat m.bytes k).inDeletedTransitionPtr = some p →
      ∃ x ∈ m.locatedEntries, x.1 = p ∧ isInDeletedTransition x.2 0 = true ∧ keyOf authFormat x.2 = k) := by
  have hmatch : ∀ x ∈ m.locatedEntries, lookupMatches authFormat false k.name k.vendorGuid true x.2 = true →
        inUse x.2 = true ∧ keyOf authFormat x.2 = k := by
    intro x hx h
    rw [lookupMatches_ignore hn hk hx, Bool.and_eq_true, beq_iff_eq] at h
    exact h
  cases hf : m.locatedEntries.find? fun x =>
      lookupMatches authFormat false k.name k.vendorGuid true x.2 && isAdded x.2 0 with
  | some x =>
    obtain ⟨hx,pre,post,hl,hpre⟩ := find?_eq_some_iff_append.mp hf
    rw [Bool.and_eq_true] at hx
    have hnot : ∀ y ∈ pre, lookupMatches authFormat false k.name k.vendorGuid true y.2 = true →
        isAdded y.2 0 = false := by
      intro y hy hm
      have := hpre y hy
      rwa [hm, Bool.true_and, Bool.not_eq_true'] at this
    rw [trackOf, StoreImage.findVariableEx_added hl hx.1 hx.2 hnot]
    refine ⟨?_, ?_⟩
    · rintro p hp
      obtain rfl := Option.some.inj hp
      have hmem := mem_of_find?_eq_some hf
      exact ⟨x, hmem, rfl, hmatch x hmem hx.1⟩
    · rintro p hp
      obtain ⟨y,hy,rfl⟩ := Option.map_eq_some_iff.mp hp
      have hypre := mem_reverse.mp (mem_of_find?_eq_some hy)
      have hmem : y ∈ m.locatedEntries := by
        rw [hl]
        exact mem_append_left _ hypre
      have hm := find?_some (p := fun z : Nat × Bytes =>
        lookupMatches authFormat false k.name k.vendorGuid true z.2) hy
      have := hmatch y hmem hm
      exact ⟨y, hmem, rfl, transition_of_inUse this.1 (hnot y hypre hm), this.2⟩
  | none =>
    have hnot : ∀ y ∈ m.locatedEntries,
        lookupMatches authFormat false k.name k.vendorGuid true y.2 = true → isAdded y.2 0 = false := by
      intro y hy hm
      have := find?_eq_none.mp hf y hy
      rwa [hm, Bool.true_and, Bool.not_eq_true] at this
    rw [trackOf, StoreImage.findVariableEx_transition hnot]
    refine ⟨?_, fun p hp => nomatch hp⟩
    rintro p hp
    obtain ⟨y,hy,rfl⟩ := Option.map_eq_some_iff.mp hp
    have hmem := mem_reverse.mp (mem_of_find?_eq_some hy)
    have hm := find?_some (p := fun z : Nat × Bytes =>
      lookupMatches authFormat false k.name k.vendorGuid true z.2) hy
    exact ⟨y, hmem, rfl, hmatch y hmem hm⟩

end

/-- With its entry in transition first, the pointers name all entries in use of the variable. -/
theorem trackOf_complete (hw : m.WellFormed) (hk : IsVariableName k.name)
    (hfst : TransitionFirst m k) {x : Nat × Bytes} (hx : x ∈ m.locatedEntries)
    (hu : inUse x.2 = true) (hkey : keyOf authFormat x.2 = k) :
    (trackOf authFormat m.bytes k).currPtr = some x.1 ∨
      (trackOf authFormat m.bytes k).inDeletedTransitionPtr = some x.1 := by
  have hn : NamedEntries authFormat m.entries := hw.names
  have hmx : lookupMatches authFormat false k.name k.vendorGuid true x.2 = true := by
    rw [lookupMatches_ignore hn hk hx, hu, hkey, beq_self_eq_true]
    rfl
  have huniq : ∀ y ∈ m.locatedEntries, ∀ z ∈ m.locatedEntries,
      lookupMatches authFormat false k.name k.vendorGuid true y.2 = true →
      lookupMatches authFormat false k.name k.vendorGuid true z.2 = true →
        state y.2 0 = state z.2 0 → y = z := by
    intro y hy z hz hmy hmz hs
    rw [lookupMatches_ignore hn hk hy, Bool.and_eq_true, beq_iff_eq] at hmy
    rw [lookupMatches_ignore hn hk hz, Bool.and_eq_true, beq_iff_eq] at hmz
    exact hw.eq_of_state hy hz (hmy.2.trans hmz.2.symm) hs hmy.1
  cases hf : m.locatedEntries.find? fun x =>
      lookupMatches authFormat false k.name k.vendorGuid true x.2 && isAdded x.2 0 with
  | some y =>
    obtain ⟨hy,pre,post,hl,hpre⟩ := find?_eq_some_iff_append.mp hf
    rw [Bool.and_eq_true] at hy
    have hymem := mem_of_find?_eq_some hf
    have hnot : ∀ z ∈ pre, lookupMatches authFormat false k.name k.vendorGuid true z.2 = true →
        isAdded z.2 0 = false := by
      intro z hz hm
      have := hpre z hz
      rwa [hm, Bool.true_and, Bool.not_eq_true'] at this
    rw [trackOf, StoreImage.findVariableEx_added hl hy.1 hy.2 hnot]
    rcases StoreImage.added_or_transition hu with ha | ⟨ha,ht⟩
    · exact .inl (congrArg some
        (congrArg Prod.fst (huniq y hymem x hx hy.1 hmx (StoreImage.state_eq_of_added hy.2 ha))))
    have hpremem : x ∈ pre := by
      have hkeyy := lookupMatches_ignore hn hk hymem
      rw [hy.1, eq_comm, Bool.and_eq_true, beq_iff_eq] at hkeyy
      have hlt := hfst y hymem x hx hkeyy.2 hkey hy.2 ht
      have hsort := m.locatedEntries_sorted
      rw [hl, pairwise_append, pairwise_cons] at hsort
      rw [hl, mem_append, mem_cons] at hx
      rcases hx with hx | rfl | hx
      · exact hx
      · exact absurd hlt (lt_irrefl _)
      · exact absurd (hsort.2.1.1 x hx) (not_lt.mpr (le_of_lt hlt))
    have hfind : pre.reverse.find? (fun y =>
        lookupMatches authFormat false k.name k.vendorGuid true y.2) = some x := by
      refine StoreImage.find?_eq_some_of_unique (mem_reverse.mpr hpremem) hmx ?_
      intro z hz hmz
      have hzpre := mem_reverse.mp hz
      have hzmem : z ∈ m.locatedEntries := by
        rw [hl]
        exact mem_append_left _ hzpre
      have hzu := hmz
      rw [lookupMatches_ignore hn hk hzmem, Bool.and_eq_true] at hzu
      exact huniq z hzmem x hx hmz hmx (StoreImage.state_eq_of_transition
        (transition_of_inUse hzu.1 (hnot z hzpre hmz)) ht)
    rw [hfind]
    exact .inr rfl
  | none =>
    have hnot : ∀ y ∈ m.locatedEntries,
        lookupMatches authFormat false k.name k.vendorGuid true y.2 = true → isAdded y.2 0 = false := by
      intro y hy hm
      have := find?_eq_none.mp hf y hy
      rwa [hm, Bool.true_and, Bool.not_eq_true] at this
    rw [trackOf, StoreImage.findVariableEx_transition hnot]
    have hfind : m.locatedEntries.reverse.find? (fun y =>
        lookupMatches authFormat false k.name k.vendorGuid true y.2) = some x := by
      refine StoreImage.find?_eq_some_of_unique (mem_reverse.mpr hx) hmx ?_
      intro z hz hmz
      have hzmem := mem_reverse.mp hz
      have hzu := hmz
      rw [lookupMatches_ignore hn hk hzmem, Bool.and_eq_true] at hzu
      exact huniq z hzmem x hx hmz hmx (StoreImage.state_eq_of_transition
        (transition_of_inUse hzu.1 (hnot z hzmem hmz)) (transition_of_inUse hu (hnot x hx hmx)))
    rw [hfind]
    exact .inl rfl

end

section
variable {c : VariableConfig} {st : VariableState} {isVolatile : Bool}
  {m : StoreImage c.authFormat} {updating : VariablePointerTrack} {newVariable : Option Bytes}

def reclaimedStore (c : VariableConfig) (st : VariableState) (isVolatile : Bool) : Bytes :=
  if isVolatile then st.memory.volatileStore else nvStore c st

def lastVariableOffset (st : VariableState) (isVolatile : Bool) : Nat :=
  if isVolatile then st.volatileLastVariableOffset else st.nonVolatileLastVariableOffset

/-- The store to be reclaimed, where the pool buffer or the fault tolerant write is to be had. -/
structure ReclaimReady (c : VariableConfig) (st : VariableState) (isVolatile : Bool)
    (m : StoreImage c.authFormat) : Prop where
  store : reclaimedStore c st isVolatile = m.bytes
  pool : (isVolatile || c.emuNvMode) = true → st.poolExhausted = false
  flash : (isVolatile || c.emuNvMode) = false → HoldsAt st.flash c.nonVolatileVariableBase m.bytes
  cache : (isVolatile || c.emuNvMode) = false → storeSize st.memory.nvVariableCache = storeSize m.header
  ftw : (isVolatile || c.emuNvMode) = false → st.ftwStatus.headD .success = .success

/-- The totals of the NV store. -/
def HasTotals (st : VariableState) (r : ReclaimBuffer) : Prop :=
  st.hwErrVariableTotalSize = r.hwErrVariableTotalSize ∧
    st.commonVariableTotalSize = r.commonVariableTotalSize ∧
    st.commonUserVariableTotalSize = r.commonUserVariableTotalSize

theorem StoreImage.header_le {auth : Bool} (m : StoreImage auth) : 28 ≤ m.bytes.length := by
  have h := m.storeSize_header
  have h28 : m.header.length = 28 := m.length_header
  rw [m.length_bytes]
  omega

theorem nvStore_of_holdsAt (hemu : c.emuNvMode = false)
    (h : HoldsAt st.flash c.nonVolatileVariableBase m.bytes) : nvStore c st = m.bytes := by
  have hsize : storeSize (st.flash.drop c.nonVolatileVariableBase) = storeSize m.bytes := by
    obtain ⟨s,hs⟩ := h.drop_eq (Nat.zero_le _)
    rw [add_zero, drop_zero] at hs
    have := m.header_le
    rw [hs, storeSize, storeSize, uintAt, uintAt, Bytes.slice_append_left _ (by omega)]
  have hslice : slice st.flash (c.nonVolatileVariableBase+0) m.bytes.length =
      slice m.bytes 0 m.bytes.length := h.slice_eq (by omega)
  rw [nvStore, hemu, if_ff, hsize, m.storeSize_bytes, ← m.length_bytes,
    ← add_zero c.nonVolatileVariableBase, hslice, slice, drop_zero, take_length]

theorem holdsAt_patch_whole {flash old new : Bytes} {p : Nat} (h : HoldsAt flash p old)
    (hlen : new.length = old.length) : HoldsAt (patch flash p new) p new := by
  obtain ⟨r,s,rfl,rfl⟩ := h
  exact ⟨r, s, Bytes.patch_append r old s new hlen, rfl⟩

theorem reclaim_installed (hi : ReclaimInput c m updating newVariable)
    (hr : ReclaimReady c st isVolatile m) {es : List Bytes} (hall : ∀ e ∈ es, IsEntry c.authFormat e)
    (hes : reclaimInstalls c st isVolatile m updating newVariable = some es) :
    reclaimedStore c (reclaim c st isVolatile updating newVariable).1 isVolatile = m.rebuilt es ∧
      lastVariableOffset (reclaim c st isVolatile updating newVariable).1 isVolatile =
        m.header.length+es.flatten.length ∧
      (isVolatile = false → HasTotals (reclaim c st isVolatile updating newVariable).1
        (totalsOf c st false es)) ∧
      (reclaim c st isVolatile updating newVariable).1.endOfDxe = st.endOfDxe := by
  have hfits := length_installs hi hes
  cases hv : isVolatile with
  | true =>
    subst hv
    rw [reclaim_volatile hi hr.store (hr.pool rfl), hes]
    obtain ⟨ctx,h⟩ := synchronize_eq (installVolatile st m es) .volatile (storeSize m.header)
    rw [Option.map_some, Option.getD_some, h]
    exact ⟨rfl, rfl, nofun, rfl⟩
  | false =>
    subst hv
    cases hemu : c.emuNvMode with
    | true =>
      have hb : st.memory.nvVariableCache = m.bytes := by
        have := hr.store
        rwa [reclaimedStore, if_ff, nvStore, if_pos hemu] at this
      rw [reclaim_emulated hi hemu hb (hr.pool (by rw [hemu]; rfl)), hes]
      obtain ⟨ctx,h⟩ := synchronize_eq (installEmulated st m es) .volatile
        (storeSize m.header)
      rw [Option.map_some, Option.getD_some, h]
      refine ⟨?_, rfl, fun _ => ⟨rfl, rfl, rfl⟩, rfl⟩
      rw [reclaimedStore, if_ff, nvStore, if_pos hemu]
      rfl
    | false =>
      have hpath : (false || c.emuNvMode) = false := by rw [hemu]; rfl
      rw [reclaim_flash hi hemu hr.store (hr.cache hpath) (hr.ftw hpath), hes]
      refine ⟨?_, rfl, fun _ => ⟨rfl, rfl, rfl⟩, rfl⟩
      have hlen : (m.rebuild es hall hfits).bytes.length = m.bytes.length := by
        rw [StoreImage.length_bytes, StoreImage.length_bytes]
        rfl
      exact nvStore_of_holdsAt (m := m.rebuild es hall hfits) hemu
        (holdsAt_patch_whole (hr.flash hpath) hlen)

theorem walkTotals_eq (hn : ∀ e ∈ m.entries, IsVariableName (keyOf c.authFormat e).name) :
    walkTotals c st m.bytes = totalsOf c st false m.entries := by
  have h : ∀ l : List (Nat × Bytes), (∀ x ∈ l, x ∈ m.locatedEntries) → ∀ r : ReclaimBuffer,
      (l.map (·.1)).foldl (fun r p => r.countVariable c st false m.bytes p) r =
        (l.map (·.2)).foldl (countEntry c st false) r := by
    intro l hl
    induction l with
    | nil => exact fun r => rfl
    | cons x l ih =>
      intro r
      have hx := hl x mem_cons_self
      rw [map_cons, map_cons, foldl_cons, foldl_cons,
        countVariable_eq r (StoreImage.isEntry_of_mem hx) (StoreImage.holdsAt hx)
          (StoreImage.dvd_offset hx) (hn _ (StoreImage.mem_entries hx))]
      exact ih (fun y hy => hl y (mem_cons_of_mem _ hy)) _
  have hall := h m.locatedEntries (fun x hx => hx) ⟨[], 0, 0, 0, 0⟩
  rw [walkTotals, m.headers_bytes, hall, StoreImage.locatedEntries, located_map_snd, totalsOf]

theorem totalsOf_congr {st' : VariableState} (h : st'.endOfDxe = st.endOfDxe) (es : List Bytes) :
    totalsOf c st' isVolatile es = totalsOf c st isVolatile es := by
  have hcnt : countEntry c st' isVolatile = countEntry c st isVolatile := by
    funext r e
    rw [countEntry, countEntry, isUserVariable, isUserVariable, h]
  rw [totalsOf, totalsOf, hcnt]

/-- A store with the ADDED entries of a reclaim, and the variables that count them. -/
structure Compact (c : VariableConfig) (st : VariableState) (isVolatile : Bool)
    (m : StoreImage c.authFormat) : Prop where
  store : reclaimedStore c st isVolatile = m.bytes
  added : ∀ e ∈ m.entries, isAdded e 0 = true
  distinct : m.entries.Pairwise fun d e => keyOf c.authFormat d ≠ keyOf c.authFormat e
  erased : ∀ x ∈ m.tail, x = 0xff
  lastOffset : lastVariableOffset st isVolatile = walkEnd c.authFormat m.bytes
  totals : isVolatile = false → HasTotals st (walkTotals c st m.bytes)

def withNew (authFormat atRuntime ignoreRtCheck : Bool) (newVariable : Option Bytes)
    (old : VariableKey → Option (UInt32 × Bytes)) (k : VariableKey) : Option (UInt32 × Bytes) :=
  match newVariable with
  | none => old k
  | some v =>
    if keyOf authFormat (promote v) = k then
      if isAccessible atRuntime ignoreRtCheck (promote v) 0 then
        some (valueOf authFormat (promote v))
      else none
    else old k

/-- The new variable with the pointers of the lookup of its name, the IN_DELETED_TRANSITION one of
its entries first, and space for it; or no variable and no pointers. -/
structure ReclaimCall (c : VariableConfig) (st : VariableState) (isVolatile : Bool)
    (m : StoreImage c.authFormat) (updating : VariablePointerTrack) (newVariable : Option Bytes) : Prop where
  noUpdate : newVariable = none → updating = ⟨none, none⟩
  isEntry : ∀ v ∈ newVariable, IsEntry c.authFormat (promote v)
  name : ∀ v ∈ newVariable, IsVariableName (keyOf c.authFormat (promote v)).name
  pointers : ∀ v ∈ newVariable, updating = trackOf c.authFormat m.bytes (keyOf c.authFormat (promote v))
  transitionFirst : ∀ v ∈ newVariable, TransitionFirst m (keyOf c.authFormat (promote v))
  fits : ∀ v ∈ newVariable, newFits c st isVolatile m (m.remaining updating) v = true

theorem distinct_sparedEntries (hw : m.WellFormed) :
    DistinctEntries c.authFormat (m.sparedEntries updating) := by
  have h : DistinctEntries c.authFormat (m.locatedEntries.map (·.2)) := by
    rw [StoreImage.locatedEntries, located_map_snd]
    exact hw.distinct
  exact h.sublist (filter_sublist.map _)

variable {k : VariableKey}

theorem transitionPtrOk_trackOf (hn : NamedEntries c.authFormat m.entries)
    (hk : IsVariableName k.name) : TransitionPtrOk m (trackOf c.authFormat m.bytes k) := by
  intro x hx hp
  obtain ⟨y,hy,hyx,ht,-⟩ := (trackOf_sound hn hk).2 _ hp
  rw [← StoreImage.eq_of_offset hy hx hyx]
  exact isAdded_eq_false_of_transition ht

theorem ReclaimCall.input (hw : m.WellFormed) (h : ReclaimCall c st isVolatile m updating newVariable) :
    ReclaimInput c m updating newVariable where
  named := hw.names
  distinct := distinct_sparedEntries hw
  transitionPtr := by
    cases newVariable with
    | none =>
      obtain rfl := h.noUpdate rfl
      exact fun x _ hp => nomatch hp
    | some v =>
      obtain rfl := h.pointers v rfl
      exact transitionPtrOk_trackOf hw.names (h.name v rfl)
  isEntry := h.isEntry

theorem ReclaimCall.installs (h : ReclaimCall c st isVolatile m updating newVariable) :
    reclaimInstalls c st isVolatile m updating newVariable =
      some (m.remaining updating ++ newVariable.toList.map promote) := by
  cases newVariable with
  | none =>
    rw [Option.toList_none, map_nil, append_nil]
    rfl
  | some v => rw [reclaimInstalls, if_pos (h.fits v rfl), Option.toList_some, map_singleton]

theorem isAdded_of_promote {auth : Bool} {v : Bytes} (hv : IsEntry auth (promote v)) :
    isAdded (promote v) 0 = true := by
  have hlt : 2 < v.length := length_of_promote hv ▸ hv.header_lt (by decide)
  rw [isAdded, beq_iff_eq, state, promote, setState, getD_eq_getElem?_getD,
    Bytes.getElem?_patch hlt, if_pos ⟨by decide, by simp [offsetOfState]⟩]
  rfl

theorem spares_trackOf (hw : m.WellFormed) (hk : IsVariableName k.name)
    (hfst : TransitionFirst m k) {x : Nat × Bytes} (hx : x ∈ m.locatedEntries) (hu : inUse x.2 = true) :
    spares (trackOf c.authFormat m.bytes k) x.1 = false ↔ keyOf c.authFormat x.2 = k := by
  have hsound := trackOf_sound hw.names hk
  rw [spares, Bool.and_eq_false_iff, bne_eq_false_iff_eq, bne_eq_false_iff_eq]
  constructor
  · rintro (hp | hp)
    · obtain ⟨y,hy,hyx,-,hkey⟩ := hsound.1 _ hp
      rw [← StoreImage.eq_of_offset hy hx hyx]
      exact hkey
    · obtain ⟨y,hy,hyx,-,hkey⟩ := hsound.2 _ hp
      rw [← StoreImage.eq_of_offset hy hx hyx]
      exact hkey
  · exact trackOf_complete hw hk hfst hx hu

theorem contents_installed {rt ign : Bool} (hw : m.WellFormed)
    (h : ReclaimCall c st isVolatile m updating newVariable)
    (hagree : TwinsAgree c.authFormat rt ign m.entries) :
    contents c.authFormat rt ign (m.remaining updating ++ newVariable.toList.map promote) k =
      withNew c.authFormat rt ign newVariable (contents c.authFormat rt ign m.entries) k := by
  have hspared : TwinsAgree c.authFormat rt ign (m.sparedEntries updating) := by
    have hmem : ∀ d ∈ m.sparedEntries updating, d ∈ m.entries := by
      intro d hd
      obtain ⟨x,hx,rfl⟩ := mem_map.mp hd
      exact StoreImage.mem_entries (mem_filter.mp hx).1
    exact fun d hd e he => hagree d (hmem d hd) e (hmem e he)
  have hkeep : contents c.authFormat rt ign (m.remaining updating) k =
      contents c.authFormat rt ign (m.sparedEntries updating) k :=
    contents_reclaimedEntries (isEntry_sparedEntries m) (distinct_sparedEntries hw) hspared
  cases newVariable with
  | none =>
    obtain rfl := h.noUpdate rfl
    rw [Option.toList_none, map_nil, append_nil, hkeep, withNew, contents,
      entriesOf_sparedEntries m fun x _ hs => by simp [spares] at hs]
    rfl
  | some v =>
    obtain rfl := h.pointers v rfl
    have hname := h.name v rfl
    have hfst := h.transitionFirst v rfl
    have hu : inUse (promote v) = true := inUse_of_added (isAdded_of_promote (h.isEntry v rfl))
    rw [Option.toList_some, map_singleton, withNew]
    by_cases hk : keyOf c.authFormat (promote v) = k
    · have hnil : entriesOf c.authFormat (m.remaining
          (trackOf c.authFormat m.bytes (keyOf c.authFormat (promote v)))) k = [] := by
        rw [StoreImage.remaining, entriesOf_reclaimedEntries (isEntry_sparedEntries m),
          entriesOf_sparedEntries_nil m fun x hx hxu hxk =>
            (spares_trackOf hw hname hfst hx hxu).mpr (hxk.trans hk.symm), reclaimedEntries_nil]
      rw [if_pos hk, contents, entriesOf_append, hnil, nil_append,
        entriesOf_cons_pos [] hu hk, entriesOf, filter_nil, pick_singleton]
      split <;> rfl
    · rw [if_neg hk]
      rw [contents, entriesOf_append, entriesOf_cons_neg [] (.inr hk), entriesOf.eq_1 _ [],
        filter_nil, append_nil, ← contents, hkeep, contents, contents, entriesOf_sparedEntries m]
      intro x hx hs hxu hxk
      exact hk ((spares_trackOf hw hname hfst hx hxu).mp hs ▸ hxk)

/-- A reclaim leaves a compact store, in which every variable is what it was, up to the new one. -/
theorem reclaim_keeps_variables (c : VariableConfig) (st : VariableState) (isVolatile : Bool)
    (m : StoreImage c.authFormat) (updating : VariablePointerTrack) (newVariable : Option Bytes)
    (hw : m.WellFormed) (hr : ReclaimReady c st isVolatile m)
    (hc : ReclaimCall c st isVolatile m updating newVariable) : ∃ m' : StoreImage c.authFormat,
      Compact c (reclaim c st isVolatile updating newVariable).1 isVolatile m' ∧
      m'.entries = reclaimedEntries c.authFormat (m.sparedEntries updating) ++
        newVariable.toList.map promote ∧
      ∀ rt ign k, IsVariableName k.name → TwinsAgree c.authFormat rt ign m.entries →
        seenIn c.authFormat rt ign m'.bytes k =
          withNew c.authFormat rt ign newVariable (seenIn c.authFormat rt ign m.bytes) k := by
  have hi := hc.input hw
  have hes := hc.installs
  have hspared := @isEntry_sparedEntries c m updating
  have hleft := isEntry_reclaimedEntries hspared
  have hnew : ∀ e ∈ newVariable.toList.map promote, IsEntry c.authFormat e ∧ isAdded e 0 = true ∧
      IsVariableName (keyOf c.authFormat e).name := by
    intro e he
    obtain ⟨v,hv,rfl⟩ := mem_map.mp he
    have hv' := Option.mem_toList.mp hv
    exact ⟨hc.isEntry v hv', isAdded_of_promote (hc.isEntry v hv'), hc.name v hv'⟩
  have hnamedLeft := named_reclaimedEntries hspared (named_sparedEntries m hw.names)
  generalize hes' : m.remaining updating ++ newVariable.toList.map promote = es at hes
  have hall : ∀ e ∈ es, IsEntry c.authFormat e ∧ isAdded e 0 = true := by
    intro e he
    rw [← hes'] at he
    rcases mem_append.mp he with he | he
    · exact hleft e he
    · exact ⟨(hnew e he).1, (hnew e he).2.1⟩
  have hnamed : ∀ e ∈ es, IsVariableName (keyOf c.authFormat e).name := by
    intro e he
    have hu := inUse_of_added (hall e he).2
    rw [← hes'] at he
    rcases mem_append.mp he with he | he
    · exact hnamedLeft e he hu
    · exact (hnew e he).2.2
  have hfits := length_installs hi hes
  obtain ⟨hstore,hlast,htotals,hend⟩ := reclaim_installed hi hr (fun e he => (hall e he).1) hes
  let m' := m.rebuild es (fun e he => (hall e he).1) hfits
  refine ⟨m', ?_, hes'.symm, ?_⟩
  · refine ⟨hstore, fun e he => (hall e he).2, ?_, ?_, ?_, ?_⟩
    · show es.Pairwise _
      rw [← hes', pairwise_append]
      refine ⟨distinct_reclaimedEntries hspared hi.distinct, ?_, ?_⟩
      · cases newVariable <;> simp
      · intro d hd e he hkey
        obtain ⟨v,hv,rfl⟩ := mem_map.mp he
        have hv' := Option.mem_toList.mp hv
        obtain rfl := hv'
        obtain rfl := hc.pointers v rfl
        obtain ⟨a,ha,hau,hda⟩ := mem_reclaimedEntries hd
        have hka : keyOf c.authFormat a = keyOf c.authFormat (promote v) := by
          rcases hda with ⟨rfl,-⟩ | ⟨rfl,-⟩
          · exact hkey
          · rw [← hkey, keyOf_promote (hspared a ha) hau]
        obtain ⟨x,hx,rfl⟩ := mem_map.mp ha
        have hxm := mem_filter.mp hx
        have := (spares_trackOf hw (hc.name v rfl) (hc.transitionFirst v rfl) hxm.1 hau).mpr hka
        rw [this] at hxm
        exact Bool.false_ne_true hxm.2
    · intro x hx
      exact (mem_replicate.mp hx).2
    · rw [hlast, m'.walk_bytes.2, ← m'.start_eq]
      rfl
    · intro hv
      have := htotals hv
      rwa [walkTotals_eq hnamed, totalsOf_congr hend]
  · intro rt ign k hk hagree
    have hnamedAll : NamedEntries c.authFormat m'.entries := fun e he _ => hnamed e he
    have hold : ∀ k, IsVariableName k.name → seenIn c.authFormat rt ign m.bytes k =
        contents c.authFormat rt ign m.entries k := fun k hk => m.seenIn_bytes hw.names hk
    rw [m'.seenIn_bytes hnamedAll hk]
    show contents c.authFormat rt ign es k = _
    rw [← hes', contents_installed hw hc hagree]
    cases newVariable with
    | none => exact (hold k hk).symm
    | some v => rw [withNew, withNew, hold k hk]

end

/-! A store of two entries of one variable, the ADDED one first; and one with an ADDED entry that is
not accessible at runtime behind one in transition that is. -/

def smallConfig : VariableConfig where
  authFormat := false
  emuNvMode := false
  flashDevice := .nor
  nonVolatileVariableBase := 0
  fvLength := 148
  blockMap := [(1,148)]
  scratchBufferSize := 120
  maxVariableSize := 80
  maxAuthVariableSize := 80
  maxVolatileVariableSize := 80
  pcdMaxHardwareErrorVariableSize := 80
  pcdHwErrStorageSize := 0
  commonVariableSpace := 120
  commonRuntimeVariableSpace := 120
  commonMaxUserVariableSpace := 120
  variablePropertyGet _ _ := false

def noContext : VariableRuntimeCacheContext where
  readLock := none
  pendingUpdate := none
  hobFlushComplete := none
  variableRuntimeHobCache := ⟨0, 0, none⟩
  variableRuntimeNvCache := ⟨0, 0, none⟩
  variableRuntimeVolatileCache := ⟨0, 0, none⟩

def smallState (volatileStore flash : Bytes) (volatileLast nvLast common : Nat) : VariableState where
  memory := ⟨0, [], flash, volatileStore, noContext⟩
  flash := flash
  atRuntime := false
  endOfDxe := false
  fvbInstance := true
  nonVolatileLastVariableOffset := nvLast
  volatileLastVariableOffset := volatileLast
  hwErrVariableTotalSize := 0
  commonVariableTotalSize := common
  commonUserVariableTotalSize := 0
  currentBootVarErrFlag := 0xff
  fvbStatus := []
  ftwStatus := []
  ftwLeft := []
  poolExhausted := false

def letterKey (char : UInt8) : VariableKey := ⟨[char, 0, 0, 0], replicate 16 0⟩

theorem isEntry_shortEntry_added : IsEntry false (shortEntry 0x3f 0x41 3) := ⟨by decide, by decide, by decide⟩

def twoEntries (d e : Bytes) (hd : IsEntry false d) (he : IsEntry false e)
    (hlen : d.length+e.length = 80) : StoreImage false where
  header := storeHeader 148
  entries := [d, e]
  tail := replicate 40 0xff
  length_header := by decide
  isEntry := by
    rintro x (_ | ⟨_,_ | ⟨_,_ | _⟩⟩)
    · exact hd
    · exact he
  startId_tail := by decide
  storeSize_header := by
    have h : storeSize (storeHeader 148) = 148 := by decide
    have h' : (storeHeader 148).length = 28 := by decide
    rw [h, h', length_replicate, flatten_cons, flatten_cons, flatten_nil, append_nil, length_append, hlen]
  dvd_storeSize := by decide

def twinLate : StoreImage false :=
  twoEntries (shortEntry 0x3f 0x41 1) (shortEntry 0x3e 0x41 2) ⟨by decide, by decide, by decide⟩
    ⟨by decide, by decide, by decide⟩ (by decide)

def twinAtRuntime : StoreImage false :=
  twoEntries (shortEntry 0x3e 0x41 1) (patch (shortEntry 0x3f 0x41 2) 4 [3])
    ⟨by decide, by decide, by decide⟩ ⟨by decide, by decide, by decide⟩ (by decide)

theorem twinLate_wellFormed : twinLate.WellFormed where
  names := by
    rintro e (_ | ⟨_,_ | ⟨_,_ | _⟩⟩) _
    · exact ⟨by decide, by decide⟩
    · exact ⟨by decide, by decide⟩
  distinct := pairwise_pair.mpr fun _ h => absurd h (by decide)

theorem twinAtRuntime_wellFormed : twinAtRuntime.WellFormed where
  names := by
    rintro e (_ | ⟨_,_ | ⟨_,_ | _⟩⟩) _
    · exact ⟨by decide, by decide⟩
    · exact ⟨by decide, by decide⟩
  distinct := pairwise_pair.mpr fun _ h => absurd h (by decide)

theorem reclaimReady_small (m : StoreImage false) (flash : Bytes) (vl nl common : Nat) :
    ReclaimReady smallConfig (smallState m.bytes flash vl nl common) true m where
  store := rfl
  pool _ := rfl
  flash h := nomatch h
  cache h := nomatch h
  ftw h := nomatch h

/-- A late twin comes back in the place of the new variable, and a twin that only runtime can see is
lost. -/
theorem reclaim_changes_variables : (twinLate.WellFormed ∧
      ReclaimReady smallConfig (smallState twinLate.bytes [] 108 0 0) true twinLate ∧
      newFits smallConfig (smallState twinLate.bytes [] 108 0 0) true twinLate
        (twinLate.remaining (trackOf false twinLate.bytes (letterKey 0x41)))
          (shortEntry 0xff 0x41 3) = true ∧ valueOf false (promote (shortEntry 0xff 0x41 3)) = (7, [3]) ∧
      seenIn false false true (reclaim smallConfig (smallState twinLate.bytes [] 108 0 0) true
        (trackOf false twinLate.bytes (letterKey 0x41))
          (some (shortEntry 0xff 0x41 3))).1.memory.volatileStore (letterKey 0x41) = some (7, [2])) ∧
    twinAtRuntime.WellFormed ∧
      ReclaimReady smallConfig (smallState twinAtRuntime.bytes [] 108 0 0) true twinAtRuntime ∧
      seenIn false true false twinAtRuntime.bytes (letterKey 0x41) = some (7, [1]) ∧
      seenIn false true false (reclaim smallConfig (smallState twinAtRuntime.bytes [] 108 0 0) true
        ⟨none, none⟩ none).1.memory.volatileStore (letterKey 0x41) = none := by
  refine ⟨⟨twinLate_wellFormed, reclaimReady_small twinLate [] 108 0 0, by decide +kernel,
    by decide +kernel, by decide +kernel⟩, twinAtRuntime_wellFormed,
    reclaimReady_small twinAtRuntime [] 108 0 0, by decide +kernel, by decide +kernel⟩

def twinFirst : StoreImage false :=
  twoEntries (shortEntry 0x3e 0x41 1) (shortEntry 0x3f 0x41 2) ⟨by decide, by decide, by decide⟩
    ⟨by decide, by decide, by decide⟩ (by decide)

theorem twinFirst_wellFormed : twinFirst.WellFormed where
  names := by
    rintro e (_ | ⟨_,_ | ⟨_,_ | _⟩⟩) _
    · exact ⟨by decide, by decide⟩
    · exact ⟨by decide, by decide⟩
  distinct := pairwise_pair.mpr fun _ h => absurd h (by decide)

theorem twinFirst_transitionFirst : TransitionFirst twinFirst (letterKey 0x41) := by
  unfold TransitionFirst
  decide +kernel

theorem reclaimCall_twinFirst : ReclaimCall smallConfig (smallState twinFirst.bytes [] 108 0 0) true twinFirst
      (trackOf false twinFirst.bytes (letterKey 0x41)) (some (shortEntry 0xff 0x41 3)) where
  noUpdate h := nomatch h
  isEntry := by
    intro v hv
    obtain rfl := Option.mem_some_iff.mp hv
    exact isEntry_shortEntry_added
  name := by
    intro v hv
    obtain rfl := Option.mem_some_iff.mp hv
    exact ⟨by decide, by decide⟩
  pointers := by
    intro v hv
    obtain rfl := Option.mem_some_iff.mp hv
    rfl
  transitionFirst := by
    intro v hv
    obtain rfl := Option.mem_some_iff.mp hv
    exact twinFirst_transitionFirst
  fits := by
    intro v hv
    obtain rfl := Option.mem_some_iff.mp hv
    decide +kernel

theorem reclaim_keeps_variables_twinFirst : ∃ m' : StoreImage false,
      Compact smallConfig (reclaim smallConfig (smallState twinFirst.bytes [] 108 0 0) true
        (trackOf false twinFirst.bytes (letterKey 0x41)) (some (shortEntry 0xff 0x41 3))).1 true m' ∧
      m'.entries = reclaimedEntries false (twinFirst.sparedEntries
        (trackOf false twinFirst.bytes (letterKey 0x41))) ++
          (some (shortEntry 0xff 0x41 3)).toList.map promote ∧
      ∀ rt ign k, IsVariableName k.name → TwinsAgree false rt ign twinFirst.entries →
        seenIn false rt ign m'.bytes k = withNew false rt ign (some (shortEntry 0xff 0x41 3))
          (seenIn false rt ign twinFirst.bytes) k :=
  reclaim_keeps_variables smallConfig _ true twinFirst _ _ twinFirst_wellFormed
    (reclaimReady_small twinFirst [] 108 0 0) reclaimCall_twinFirst

end Liano.Variable
