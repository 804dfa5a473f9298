import Liano.Variable.AccountedFlag

/-! The accounting of the non-volatile store over runs of updates and reclaims. -/
namespace Liano.Variable

open List

open Bytes (slice patch HoldsAt)

section
variable {c : VariableConfig} {st : VariableState} {m : StoreImage c.authFormat}
  {req : UpdateRequest} {k : VariableKey} {data v : Bytes} {cacheVariable : CacheVariable}

theorem writeBlocks_onlyFlash (blocks : List Nat) (linearOffset ptr : Nat) (data : Bytes)
    (st : VariableState) : OnlyFlash st (writeBlocks c blocks linearOffset ptr data st).1 := by
  have hwrite : ∀ (st : VariableState) (ptr : Nat) (d : Bytes), OnlyFlash st (fvbWrite c st ptr d).1 := by
    intro st ptr d
    unfold fvbWrite
    dsimp only
    split <;> rfl
  induction blocks generalizing linearOffset ptr data st with
  | nil => exact OnlyFlash.refl st
  | cons length blocks ih =>
    rw [writeBlocks]
    split
    · split
      · exact hwrite _ _ _
      unfold andThen
      dsimp only
      split
      · exact hwrite _ _ _
      · exact (hwrite _ _ _).trans (ih _ _ _ _)
    · exact ih _ _ _ _

theorem updateVariableStore_sameRest (st : VariableState) (isVolatile : Bool) (off : Nat)
    (data : Bytes) : SameRest st (updateVariableStore c st isVolatile off data).1 := by
  unfold updateVariableStore
  split
  · split
    · exact SameRest.refl st
    · split
      · exact SameRest.refl st
      · exact (writeBlocks_onlyFlash _ _ _ _ _).sameRest
  dsimp only
  generalize (if isVolatile = true then CacheId.volatile else CacheId.nv) = id
  split
  · exact SameRest.refl st
  · exact SameRest.setStore _ _ _

theorem updateState_sameRest (st : VariableState) (t : VariableStoreType) (p : Nat)
    (mask : UInt8) : SameRest st (updateState c st t p mask).1 := by
  have h := @updateVariableStore_sameRest c st (t == .volatile) (p+offsetOfState)
    [state (cacheStore st t) p &&& mask]
  unfold updateState
  dsimp only
  split
  · exact h
  · exact h.trans (SameRest.setStore _ _ _)

theorem updateState_volatile_status (p : Nat) (mask : UInt8) :
    (updateState c st .volatile p mask).1.fvbStatus = st.fvbStatus := by
  have hvol : (VariableStoreType.volatile == VariableStoreType.volatile) = true := rfl
  unfold updateState
  rw [if_pos (by simp), hvol]
  unfold updateVariableStore
  rw [if_neg (by simp)]
  simp only [if_true]
  split <;> rfl

theorem writeBlocks_byte {blocks : List Nat} {linearOffset ptr : Nat} {n : UInt8}
    (hle : linearOffset ≤ ptr) (hcov : ptr < linearOffset+blocks.sum) :
    (writeBlocks c blocks linearOffset ptr [n] st).1.fvbStatus = st.fvbStatus.tail := by
  induction blocks generalizing linearOffset with
  | nil =>
    rw [sum_nil] at hcov
    omega
  | cons length blocks ih =>
    rw [sum_cons] at hcov
    rw [writeBlocks]
    by_cases hin : linearOffset ≤ ptr ∧ ptr < linearOffset+length
    · have hfit : ptr + [n].length ≤ linearOffset+length := by
        rw [length_singleton]
        omega
      rw [if_pos hin, if_pos hfit]
      unfold fvbWrite
      dsimp only
      split <;> rfl
    · rw [if_neg hin]
      exact ih (by omega) (by omega)

theorem updateState_status (hc : FlashVolume c) (h : Accounted c st m) {p : Nat}
    (hp : PointsToEntry m p) (mask : UInt8) (hok : (updateState c st .nv p mask).2.isError = false) :
    (updateState c st .nv p mask).1.fvbStatus = st.fvbStatus.drop 1 := by
  obtain ⟨e,hmem,-,-⟩ := hp
  have he := StoreImage.isEntry_of_mem hmem
  have hle := (StoreImage.holdsAt hmem).length_le
  have hlt : offsetOfState < e.length := he.header_lt (by decide)
  have hflash := h.image.flash.holds.length_le
  have hlen := h.image.flash.length
  have hcov := hc.covered
  have hpath : (!false && !c.emuNvMode) = true := by rw [hc.notEmulated]; rfl
  have hnv : (VariableStoreType.nv == VariableStoreType.volatile) = false := rfl
  dsimp only at hle
  unfold updateState at hok ⊢
  rw [hnv] at hok ⊢
  dsimp only at hok ⊢
  generalize state (cacheStore st .nv) p &&& mask = n at hok ⊢
  have hst : (updateVariableStore c st false (p+offsetOfState) [n]).2.isError = false →
      (updateVariableStore c st false (p+offsetOfState) [n]).1.fvbStatus = st.fvbStatus.drop 1 := by
    intro hstore
    rw [updateVariableStore, if_pos hpath] at hstore ⊢
    cases hfvb : st.fvbInstance with
    | false =>
      rw [hfvb, if_pos (by rfl)] at hstore
      exact Bool.noConfusion hstore
    | true =>
      have hbnd : ¬ p + offsetOfState + c.nonVolatileVariableBase + [n].length >
          c.fvLength := by
        rw [length_singleton]
        omega
      rw [if_neg (by decide), if_neg hbnd, writeBlocks_byte (Nat.zero_le _) (by omega), drop_one]
  cases herr : (updateVariableStore c st false (p+offsetOfState) [n]).2.isError with
  | true =>
    rw [herr, if_pos (by rfl), herr] at hok
    exact Bool.noConfusion hok
  | false => exact hst herr

theorem promote_alignedVariable (hlong : offsetOfState < v.length) : promote (alignedVariable v) =
      (tailBytes v (headerAlign v.length) v.length varAdded).take (headerAlign v.length) := by
  have hal := le_headerAlign v.length
  have hlen : (alignedVariable v).length = headerAlign v.length := by
    rw [alignedVariable, length_append, length_replicate]
    omega
  apply ext_getElem?
  intro i
  rw [promote, setState, Bytes.getElem?_patch (by rw [length_singleton, hlen]; omega),
    length_singleton, getElem?_take, getElem?_tailBytes]
  by_cases htwo : i = offsetOfState
  · rw [if_pos (by omega), if_pos (by omega), if_pos (by omega), if_pos htwo, htwo, Nat.sub_self,
      getElem?_cons_zero]
  rw [if_neg (by omega)]
  by_cases hi : i < v.length
  · rw [alignedVariable, getElem?_append_left hi, if_pos (by omega), if_pos (by omega),
      if_neg htwo, if_pos hi, getD_of_lt hi]
  rw [alignedVariable, getElem?_append_right (by omega), getElem?_replicate]
  by_cases hend : i < headerAlign v.length
  · rw [if_pos (by omega), if_pos hend, if_pos hend, if_neg htwo, if_neg hi]
  · rw [if_neg (by omega), if_neg hend]

theorem newVariableOk (hv : IsNewVariable c req k data v) (hdata : 0 < data.length) :
    NewVariableOk c (alignedVariable v) := by
  have h32 := headerSize_pos c.authFormat
  have htwo : offsetOfState = 2 := rfl
  have hlong := hv.length
  have hal := le_headerAlign v.length
  have hlen : (alignedVariable v).length = headerAlign v.length := by
    rw [alignedVariable, length_append, length_replicate]
    omega
  have hpromote := @promote_alignedVariable v (by omega)
  have hflds : (alignedVariable v).length < 2^32-1 →
      EntryFields c req k data (promote (alignedVariable v)) varAdded := by
    intro hfit
    rw [hpromote]
    exact entryFields hv (by omega) le_rfl le_rfl (by omega) (by decide)
  refine ⟨fun hfit => (hflds hfit).isEntry, fun hfit => ?_, ?_, ?_⟩
  · rw [(hflds hfit).dataSize]
    exact hdata
  · exact Bytes.length_patch (by rw [length_singleton, hlen]; omega)
  · rw [attributes, attributes, uintAt, uintAt, promote, setState,
      Bytes.slice_patch_of_disjoint (by rw [length_singleton, hlen]; omega)
        (.inr (by rw [length_singleton]; omega))]

theorem writeNew_accounted (hc : FlashVolume c) (h : Accounted c st m)
    (hcv : CacheVariableOk m cacheVariable) (hv : IsNewVariable c req k data v)
    (hname : 0 < k.name.length) (hdata : 0 < data.length)
    (hcut : req.isNonVolatile = true → quotaExceeded c st req v = false →
      Uncut c st st.nonVolatileLastVariableOffset v.length) (huntorn : Untorn st) : ∃ m' : StoreImage c.authFormat, Accounted c
      (if req.isNonVolatile then writeNonVolatile c req cacheVariable id v st
        else writeVolatile c cacheVariable v st).1 m' := by
  cases hnv : req.isNonVolatile with
  | false =>
    rw [if_ff, writeVolatile]
    split
    · exact ⟨m, h.of_untouched (reclaim_volatile_untouched _ _ _ _)⟩
    have hstore := updateVariableStore_volatile_untouched c st st.volatileLastVariableOffset
      (patch v offsetOfState [varAdded])
    unfold andThen
    split
    · exact ⟨m, h.of_untouched hstore⟩
    have hoff : ∀ (s : VariableState) (n : Nat), Untouched s { s with volatileLastVariableOffset := n } :=
      fun _ _ => ⟨rfl, rfl, rfl, rfl, rfl⟩
    obtain ⟨m',hacc,-⟩ := deleteOld_keeps hc ((h.of_untouched hstore).of_untouched (hoff _ _)) hcv
    exact ⟨m', hacc⟩
  | true =>
    rw [if_pos rfl]
    cases hq : quotaExceeded c st req v with
    | false =>
      obtain ⟨m',hacc,-⟩ := writeNonVolatile_keeps hc h hv hname hdata hq (hcut hnv hq) hcv
      exact ⟨m', hacc⟩
    | true =>
      rw [writeNonVolatile, hq, if_pos rfl]
      split
      · exact recordNoSpace_accounted hc h req v _
      have hnew : ∀ w ∈ some (alignedVariable v), NewVariableOk c w := by
        intro w hw
        rw [← Option.mem_some_iff.mp hw]
        exact newVariableOk hv hdata
      obtain ⟨m',hacc⟩ := reclaim_accounted hc h huntorn (updatingIn cacheVariable .nv) hnew
      dsimp only
      split
      · exact recordNoSpace_accounted hc hacc req v _
      · exact ⟨m', hacc⟩

/-- The variable that a lookup found lies in its store with its whole header, and it has data. -/
structure FoundOk (c : VariableConfig) (st : VariableState) (cacheVariable : CacheVariable) : Prop where
  header : ∀ p, cacheVariable.track.currPtr = some p →
    p + getVariableHeaderSize c.authFormat ≤ (cacheStore st cacheVariable.storeType).length
  data : ∀ p, cacheVariable.track.currPtr = some p →
    dataOf c.authFormat (cacheStore st cacheVariable.storeType) p ≠ []

theorem FoundOk.of_currPtr (p : Nat) (hp : cacheVariable.track.currPtr = some p)
    (hheader : p + getVariableHeaderSize c.authFormat ≤ (cacheStore st cacheVariable.storeType).length)
    (hdata : dataOf c.authFormat (cacheStore st cacheVariable.storeType) p ≠ []) : FoundOk c st cacheVariable := by
  constructor <;> intro q hq <;> rw [← Option.some.inj (hp.symm.trans hq)] <;> assumption

theorem isNewVariable_planned (hreq : Requests req k) (hfnd : FoundOk c st cacheVariable) (data : Bytes) :
    IsNewVariable c req k data (plannedVariable c st req cacheVariable data) := by
  refine isNewVariable c hreq (fun hauth old hold => ?_) data
  rw [Option.map_eq_some_iff] at hold
  obtain ⟨p,hp,hold⟩ := hold
  have hhdr := hfnd.header p hp
  rw [hauth] at hhdr
  have h60 : getVariableHeaderSize true = 60 := rfl
  rw [← hold]
  exact Bytes.length_slice (by omega)

/-- The existing variable is marked in flash, which takes one `Fvb->Write`. -/
def marksInFlash (cacheVariable : CacheVariable) (mark : Bool) : Bool :=
  mark && cacheVariable.track.currPtr.isSome && cacheVariable.storeType == .nv

def CreationUncut (c : VariableConfig) (st : VariableState) (req : UpdateRequest)
    (cacheVariable : CacheVariable) : Prop :=
  ∀ data mark, updatePlan c st req cacheVariable = .write data mark → req.isNonVolatile = true →
    quotaExceeded c st req (plannedVariable c st req cacheVariable data) = false → Uncut c
        { st with
          fvbStatus := st.fvbStatus.drop (if marksInFlash cacheVariable mark then 1 else 0) }
        st.nonVolatileLastVariableOffset (plannedVariable c st req cacheVariable data).length

theorem mergedData_eq {b : Bytes} {p : Nat} {merged : Bytes}
    (h : mergedData c b p req = some merged) : merged = dataOf c.authFormat b p ++ req.data := by
  unfold mergedData at h
  simp only [Option.ite_none_left_eq_some] at h
  exact (Option.some.inj h.2).symm

theorem data_pos_of_plan (hfnd : FoundOk c st cacheVariable)
    (hused : ∀ p, cacheVariable.track.currPtr = some p → (isAdded (cacheStore st cacheVariable.storeType) p ||
        isInDeletedTransition (cacheStore st cacheVariable.storeType) p) = true) {mark : Bool}
    (h : updatePlan c st req cacheVariable = .write data mark) : 0 < data.length := by
  unfold updatePlan at h
  cases hp : cacheVariable.track.currPtr with
  | none =>
    rw [hp] at h
    dsimp only at h
    unfold updatePlanNew at h
    split at h
    · cases h
    split at h
    · cases h
    rename_i hdata
    split at h
    · cases h
    · obtain ⟨rfl,-⟩ := UpdatePlan.write.inj h
      rw [Bool.or_eq_true, not_or, beq_iff_eq] at hdata
      exact Nat.pos_of_ne_zero hdata.1
  | some p =>
    rw [hp] at h
    unfold updatePlanExisting at h
    dsimp only at h
    rw [if_pos (hused p hp)] at h
    split at h
    · cases h
    split at h
    · cases h
    split at h
    · cases h
    split at h
    · cases h
    rename_i hdelete
    split at h
    · cases h
    split at h
    · -- an append keeps the existing data
      split at h
      · cases h
      rename_i merged hmerged
      obtain ⟨rfl,-⟩ := UpdatePlan.write.inj h
      have hdata := length_pos_of_ne_nil (hfnd.data p hp)
      rw [mergedData_eq hmerged, length_append]
      omega
    · rename_i happ
      obtain ⟨rfl,-⟩ := UpdatePlan.write.inj h
      rw [Bool.not_eq_true] at happ
      rw [happ, Bool.not_false, Bool.true_and, Bool.or_eq_true, not_or, beq_iff_eq] at hdelete
      exact Nat.pos_of_ne_zero hdelete.1

theorem found_used (c : VariableConfig) (st : VariableState) (req : UpdateRequest) (ign : Bool) :
    ∀ p, (switchFromHob c st req (foundVariable c st req ign)).track.currPtr = some p →
      (isAdded (cacheStore st (switchFromHob c st req (foundVariable c st req ign)).storeType) p ||
        isInDeletedTransition (cacheStore st
          (switchFromHob c st req (foundVariable c st req ign)).storeType) p) = true := by
  refine @found_of_lookup c st req ign (fun cv => ∀ p, cv.track.currPtr = some p →
    (isAdded (cacheStore st cv.storeType) p || isInDeletedTransition (cacheStore st cv.storeType) p) = true)
    (fun p hp => by cases hp) fun ign t _ => ?_
  refine (findVariableLoop_pointers (fun q hq => by cases hq) fun p _ hm => ?_).1
  rw [Bool.and_eq_true, isAccessible, Bool.and_eq_true] at hm
  exact hm.1.1

theorem updateDone_accounted (h : Accounted c st m) {r : VariableState × EfiStatus}
    (hr : r.1 = st) : Accounted c (updateDone req cacheVariable r).1 m := by
  subst hr
  unfold updateDone andThen
  split
  · exact h
  dsimp only
  split
  · exact h
  · exact h.of_untouched (synchronize_untouched _ _ _)

theorem execute_accounted (hc : FlashVolume c) (h : Accounted c st m) (hreq : Requests req k)
    (hcv : CacheVariableOk m cacheVariable) (hused : ∀ p, cacheVariable.track.currPtr = some p →
      (isAdded (cacheStore st cacheVariable.storeType) p ||
        isInDeletedTransition (cacheStore st cacheVariable.storeType) p) = true)
    (hfnd : FoundOk c st cacheVariable) (hcut : CreationUncut c st req cacheVariable) (huntorn : Untorn st) :
    ∃ m' : StoreImage c.authFormat,
      Accounted c (execute c st req cacheVariable id (updatePlan c st req cacheVariable)).1 m' := by
  have hname : 0 < k.name.length := lt_of_lt_of_le (by decide) hreq.isName.two_le
  cases hplan : updatePlan c st req cacheVariable with
  | done status => exact ⟨m, h⟩
  | delete =>
    obtain ⟨m',hacc,-⟩ := deleteOld_keeps hc h hcv
    refine ⟨m', ?_⟩
    rw [execute, andThen]
    split
    · exact hacc
    · dsimp only
      split <;> exact hacc
  | write data mark =>
    have hdata := data_pos_of_plan hfnd hused hplan
    have hv := isNewVariable_planned hreq hfnd data
    have hcut' := hcut data mark hplan
    -- without a mark nothing happens before the write
    have hunmarked : marksInFlash cacheVariable mark = false → ∃ m' : StoreImage c.authFormat, Accounted c
        (if req.isNonVolatile then writeNonVolatile c req cacheVariable id
          (plannedVariable c st req cacheVariable data) st
          else writeVolatile c cacheVariable (plannedVariable c st req cacheVariable data) st).1 m' := by
      intro hno
      rw [hno, if_ff, drop_zero] at hcut'
      exact writeNew_accounted hc h hcv hv hname hdata hcut' huntorn
    unfold execute
    cases mark with
    | false => exact hunmarked rfl
    | true =>
      cases hp : cacheVariable.track.currPtr with
      | none =>
        refine hunmarked ?_
        rw [marksInFlash, hp]
        rfl
      | some p =>
        dsimp only
        have hkeep := updateState_ok_keeps hc h hcv (hcv.currPtr hp) varInDeletedTransition
        have hrest := @updateState_sameRest c st cacheVariable.storeType p varInDeletedTransition
        have hst : (updateState c st cacheVariable.storeType p varInDeletedTransition).2.isError = false →
            (updateState c st cacheVariable.storeType p varInDeletedTransition).1.fvbStatus =
              st.fvbStatus.drop (if marksInFlash cacheVariable true then 1 else 0) := by
          intro hok
          rcases hcv with hvol | ⟨hnv,hcurr,-⟩
          · rw [marksInFlash, hvol]
            have hnot : (VariableStoreType.volatile == VariableStoreType.nv) = false := rfl
            rw [hnot, Bool.and_false, if_ff, drop_zero]
            exact updateState_volatile_status p _
          rw [hnv] at hok ⊢
          have hin : marksInFlash cacheVariable true = true := by
            rw [marksInFlash, hp, hnv]
            rfl
          rw [hin, if_pos rfl]
          exact updateState_status hc h (hcurr p hp) _ hok
        generalize updateState c st cacheVariable.storeType p varInDeletedTransition = r
          at hkeep hrest hst ⊢
        obtain ⟨m',hacc,hmono⟩ := hkeep
        cases herr : r.2.isError with
        | true =>
          rw [andThen_of_error herr]
          exact ⟨m', hacc⟩
        | false =>
          rw [andThen_of_success herr]
          have huntorn' : Untorn r.1 := by
            rw [hrest]
            exact huntorn
          refine writeNew_accounted hc hacc (hcv.mono hmono) hv hname hdata ?_ huntorn'
          intro hnv hq
          have hq' : quotaExceeded c st req (plannedVariable c st req cacheVariable data) = false := by
            rw [hrest] at hq
            exact hq
          have hcut'' := hcut' hnv hq'
          rw [← hst herr] at hcut''
          rw [hrest]
          exact hcut''

theorem execute_flush (flush : VariableState → VariableState) (plan : UpdatePlan) :
    (execute c st req cacheVariable flush plan).1 = (execute c st req cacheVariable id plan).1 ∨
      (execute c st req cacheVariable flush plan).1 = flush (execute c st req cacheVariable id plan).1 := by
  have hthen : ∀ r : VariableState × EfiStatus,
      (andThen r fun st => (flush st, .success)).1 = (andThen r fun st => (id st, .success)).1 ∨
        (andThen r fun st => (flush st, .success)).1 = flush (andThen r fun st => (id st, .success)).1 := by
    intro r
    unfold andThen
    split
    · exact .inl rfl
    · exact .inr rfl
  have hch : ∀ (r : VariableState × EfiStatus)
      (next next' : VariableState → VariableState × EfiStatus),
      (∀ st, (next st).1 = (next' st).1 ∨ (next st).1 = flush (next' st).1) →
        (andThen r next).1 = (andThen r next').1 ∨ (andThen r next).1 = flush (andThen r next').1 := by
    intro r next next' hnext
    unfold andThen
    split
    · exact .inl rfl
    · exact hnext r.1
  cases plan with
  | done status => exact .inl rfl
  | delete =>
    unfold execute
    dsimp only
    split
    · exact .inl rfl
    · exact hthen _
  | write data mark =>
    refine hch _ _ _ fun st' => ?_
    split
    · unfold writeNonVolatile
      split
      · split
        · exact .inl rfl
        dsimp only
        split
        · exact .inl rfl
        · exact .inr rfl
      · exact hch _ _ _ fun st'' => hthen _
    · exact .inl rfl

/-- What a call needs of its request, of the variable found and of the coming writes. -/
structure CallOk (c : VariableConfig) (st : VariableState) (req : UpdateRequest) (ign : Bool) : Prop where
  requests : ∃ k, Requests req k
  found : FoundOk c st (switchFromHob c st req (foundVariable c st req ign))
  uncut : CreationUncut c st req (switchFromHob c st req (foundVariable c st req ign))
  untorn : Untorn st

def flushedState (c : VariableConfig) (st : VariableState) (req : UpdateRequest) (ign : Bool) :
    VariableState := let cv := switchFromHob c st req (foundVariable c st req ign)
  if (foundVariable c st req ign).track.currPtr.isSome && cv.track.currPtr.isNone &&
      ((!req.isAppend && req.data.length == 0) || req.attributes == 0) then st
  else (execute c st req cv id (updatePlan c st req cv)).1

theorem updateVariableWith_accounted (hc : FlashVolume c) (h : Accounted c st m) {ign : Bool}
    (hcall : CallOk c st req ign) (flush : VariableState → VariableState)
    (hflush : ∀ m' : StoreImage c.authFormat, Accounted c (flushedState c st req ign) m' →
      ∃ m'' : StoreImage c.authFormat, Accounted c (flush (flushedState c st req ign)) m'') :
    ∃ m' : StoreImage c.authFormat,
      Accounted c (updateVariableWith c st req (foundVariable c st req ign) flush).1 m' := by
  obtain ⟨⟨k,hreq⟩,hfnd,hcut,huntorn⟩ := hcall
  have hcv := cacheVariableOk_found h req ign
  have hused := found_used c st req ign
  have hrun := execute_accounted hc h hreq hcv hused hfnd hcut huntorn
  unfold updateVariableWith
  split
  · exact ⟨m, h⟩
  dsimp only
  unfold flushedState at hflush
  split
  · rename_i hhob
    rw [if_pos hhob] at hflush
    exact hflush m h
  rename_i hhob
  rw [if_neg hhob] at hflush
  obtain ⟨m',hacc⟩ := hrun
  rcases @execute_flush c st req (switchFromHob c st req (foundVariable c st req ign)) flush
    (updatePlan c st req (switchFromHob c st req (foundVariable c st req ign))) with hsame | hlast
  · refine ⟨m', updateDone_accounted hacc hsame⟩
  · obtain ⟨m'',hacc'⟩ := hflush m' hacc
    exact ⟨m'', updateDone_accounted hacc' hlast⟩

/-- The call that the flush makes for the variable at `p` of the HOB store. -/
def hobRequest (c : VariableConfig) (b : Bytes) (p : Nat) : UpdateRequest :=
  ⟨b.drop (getVariableNamePtr c.authFormat p), vendorGuidOf c.authFormat b p,
    dataOf c.authFormat b p, attributes b p, 0, 0, none⟩

theorem updateFromHob_eq (c : VariableConfig) (b : Bytes) (p : Nat) (st : VariableState) :
    updateFromHob c b p st = updateVariableWith c st (hobRequest c b p)
      (foundVariable c st (hobRequest c b p) false) id := by
  cases hfind : findVariable c.authFormat st.atRuntime (variableStores st)
      (b.drop (getVariableNamePtr c.authFormat p)) (vendorGuidOf c.authFormat b p) false with
  | none => simp only [updateFromHob, foundVariable, hobRequest, hfind]
  | some found => simp only [updateFromHob, foundVariable, hobRequest, hfind]

/-- The calls of the flush's loop over the rest of the HOB store. -/
def FlushCallsOk (c : VariableConfig) (variableName vendorGuid : Bytes) :
    VariableState × Bool → List Nat → Prop
  | _, [] => True
  | r, p :: ps =>
    (isAdded r.1.memory.hobStore p = true → CallOk c r.1 (hobRequest c r.1.memory.hobStore p) false) ∧
    FlushCallsOk c variableName vendorGuid (flushHobVariable c variableName vendorGuid r p) ps

/-- A turn of the flush keeps what an update and the clearing of a state in the HOB keep. -/
theorem flushHobVariable_keeps {P : VariableState → Prop} {variableName vendorGuid : Bytes}
    {r : VariableState × Bool} {p : Nat} (h : P r.1)
    (hcall : isAdded r.1.memory.hobStore p = true → P (updateFromHob c r.1.memory.hobStore p r.1).1)
    (hclear : ∀ st, P st → P { st with memory := clearHobState st.memory (p+offsetOfState) }) :
    P (flushHobVariable c variableName vendorGuid r p).1 := by
  unfold flushHobVariable
  dsimp only
  split
  · exact h
  rename_i hadded
  rw [Bool.not_eq_true', Bool.not_eq_false] at hadded
  have hw : ∀ b : Prop, [Decidable b] →
      P (if b then updateFromHob c r.1.memory.hobStore p r.1 else (r.1, .success)).1 := by
    intro b _
    split
    · exact hcall hadded
    · exact h
  have hpair : ∀ w : VariableState × EfiStatus, P w.1 → P (if w.2.isError then (w.1,true) else
      ({ w.1 with memory := clearHobState w.1.memory (p+offsetOfState) }, r.2)).1 := by
    intro w hkept
    split
    · exact hkept
    · exact hclear _ hkept
  exact hpair _ (hw _)

theorem flushHobVariable_accounted (hc : FlashVolume c) {r : VariableState × Bool}
    (h : Accounted c r.1 m) (variableName vendorGuid : Bytes) {p : Nat}
    (hcall : isAdded r.1.memory.hobStore p = true →
      CallOk c r.1 (hobRequest c r.1.memory.hobStore p) false) : ∃ m' : StoreImage c.authFormat,
      Accounted c (flushHobVariable c variableName vendorGuid r p).1 m' := by
  refine @flushHobVariable_keeps c (fun st => ∃ m' : StoreImage c.authFormat, Accounted c st m')
    variableName vendorGuid r p ⟨m, h⟩ (fun hin => ?_) ?_
  · exact updateVariableWith_accounted hc h (hcall hin) id fun m' hm' => ⟨m', hm'⟩
  · rintro st ⟨m',hacc⟩
    exact ⟨m', hacc.of_untouched ⟨rfl, rfl, rfl, rfl, rfl⟩⟩

/-- The flush in `st` makes calls that are not cut off. -/
def FlushOk (c : VariableConfig) (variableName vendorGuid : Bytes) (st : VariableState) : Prop :=
  st.memory.hobVariableBase ≠ 0 → FlushCallsOk c variableName vendorGuid
    ({ st with memory := { st.memory with hobVariableBase := 0 } }, false)
    (headers c.authFormat st.memory.hobStore)

theorem FlushOk.of_base {variableName vendorGuid : Bytes}
    (hbase : st.memory.hobVariableBase = 0) : FlushOk c variableName vendorGuid st := fun h => absurd hbase h

theorem endHobFlush_stores (memory : VariableMemory) (f : HobFlush) :
    (endHobFlush memory f).volatileStore = memory.volatileStore ∧
      (endHobFlush memory f).nvVariableCache = memory.nvVariableCache := by
  unfold endHobFlush
  cases hstore : (memory.cache .hob).store with
  | none =>
    dsimp only
    split <;> exact ⟨rfl, rfl⟩
  | some store =>
    obtain ⟨ctx,hctx⟩ := sameStores_synchronize memory .hob 0 store.length
    dsimp only
    rw [hctx]
    split <;> exact ⟨rfl, rfl⟩

theorem flushHobVariableToFlash_accounted (hc : FlashVolume c) (h : Accounted c st m)
    {variableName vendorGuid : Bytes} (hok : FlushOk c variableName vendorGuid st) :
    ∃ m' : StoreImage c.authFormat,
      Accounted c (flushHobVariableToFlash c variableName vendorGuid st) m' := by
  have hloop : ∀ (ps : List Nat) (r : VariableState × Bool) (m : StoreImage c.authFormat),
      Accounted c r.1 m → FlushCallsOk c variableName vendorGuid r ps → ∃ m' : StoreImage c.authFormat,
          Accounted c (ps.foldl (flushHobVariable c variableName vendorGuid) r).1 m' := by
    intro ps
    induction ps with
    | nil => exact fun r m hr _ => ⟨m, hr⟩
    | cons p ps ih =>
      rintro r m hr ⟨hcall,hrest⟩
      obtain ⟨m',hm'⟩ := flushHobVariable_accounted hc hr variableName vendorGuid hcall
      exact ih _ m' hm' hrest
  unfold flushHobVariableToFlash
  split
  · exact ⟨m, h⟩
  rename_i hbase
  have hstart : Accounted c
      { st with memory := { st.memory with hobVariableBase := 0 } } m :=
    h.of_untouched ⟨rfl, rfl, rfl, rfl, rfl⟩
  obtain ⟨m',hm'⟩ := hloop _ _ m hstart (hok hbase)
  exact ⟨m', hm'.of_untouched ⟨rfl, (endHobFlush_stores _ _).2, rfl, rfl, rfl⟩⟩

theorem updateVariable_accounted (hc : FlashVolume c) (h : Accounted c st m) {ign : Bool}
    (hcall : CallOk c st req ign)
    (hflush : FlushOk c req.variableName req.vendorGuid (flushedState c st req ign)) :
    ∃ m' : StoreImage c.authFormat, Accounted c (updateVariable c st req (foundVariable c st req ign)).1 m' :=
  updateVariableWith_accounted hc h hcall _ fun _ hm' => flushHobVariableToFlash_accounted hc hm' hflush

end

/-- The total size of the entries that a walk with `GetNextVariablePtr` comes to. -/
def walkedSize (authFormat : Bool) (b : Bytes) : Nat :=
  ((headers authFormat b).map fun p => getNextVariablePtr authFormat b p - p).sum

/-- `NonVolatileLastVariableOffset` is where a walk of the store in flash stops, the store is erased
from there on, the cache equals it, and the totals are the size of the entries walked. -/
def NvAccounted (c : VariableConfig) (st : VariableState) : Prop :=
  st.nonVolatileLastVariableOffset = walkEnd c.authFormat (nvStore c st) ∧
    (∀ n ∈ (nvStore c st).drop st.nonVolatileLastVariableOffset, n = 0xff) ∧
    st.memory.nvVariableCache = nvStore c st ∧ st.commonVariableTotalSize+st.hwErrVariableTotalSize =
      walkedSize c.authFormat (nvStore c st)

theorem StoreImage.walkedSize_bytes {auth : Bool} (m : StoreImage auth) :
    walkedSize auth m.bytes = m.entries.flatten.length := by
  have hsum : ∀ l : List (Nat × Bytes), (∀ x ∈ l, x ∈ m.locatedEntries) →
      ((l.map (·.1)).map fun p => getNextVariablePtr auth m.bytes p - p).sum =
        (l.map (·.2)).flatten.length := by
    intro l hl
    induction l with
    | nil => rfl
    | cons x l ih =>
      have hx := hl x mem_cons_self
      have hnext := next_of_holdsAt (isEntry_of_mem hx) (holdsAt hx) (dvd_offset hx)
      rw [map_cons, map_cons, map_cons, sum_cons, flatten_cons,
        length_append, ih fun y hy => hl y (mem_cons_of_mem _ hy), hnext, Nat.add_sub_cancel_left]
  have hsnd : m.locatedEntries.map (·.2) = m.entries := located_map_snd _ _
  rw [walkedSize, m.headers_bytes, hsum m.locatedEntries fun x hx => hx, hsnd]

section
variable {c : VariableConfig} {st st₀ : VariableState} {m : StoreImage c.authFormat}

theorem Accounted.nvAccounted (hc : FlashVolume c) (h : Accounted c st m) : NvAccounted c st := by
  have hstore : nvStore c st = m.bytes := nvStore_of_holdsAt hc.notEmulated h.image.flash.holds
  have hdrop : m.bytes.drop st.nonVolatileLastVariableOffset = m.tail := by
    rw [h.lastOffset, ← m.length_front, StoreImage.bytes, drop_left]
  refine ⟨?_, ?_, ?_, ?_⟩
  · rw [hstore, m.walk_bytes.2, h.lastOffset]
  · intro n hn
    rw [hstore, hdrop, h.erased] at hn
    exact (mem_replicate.mp hn).2
  · rw [hstore, h.image.cache]
  · rw [hstore, m.walkedSize_bytes, h.common, h.hwErr, kindSize_total]

/-- Runs of the driver, with every outcome of its single writes but for the creations that are cut
off and the fault tolerant writes that are torn, in a call or in one that its flush of the variable HOB makes. A deletion is a call too. Whatever
leaves the NV store and its accounting alone may happen in between: the volatile store, the HOB, the
phase and the coming statuses are arbitrary. -/
inductive NvRun (c : VariableConfig) (st₀ : VariableState) : VariableState → Prop
  | start : NvRun c st₀ st₀
  | update {st : VariableState} (req : UpdateRequest) (ign : Bool) : NvRun c st₀ st → CallOk c st req ign →
      FlushOk c req.variableName req.vendorGuid (flushedState c st req ign) →
      NvRun c st₀ (updateVariable c st req (foundVariable c st req ign)).1
  | reclaim {st : VariableState} : NvRun c st₀ st → Untorn st →
      NvRun c st₀ (reclaim c st false ⟨none, none⟩ none).1
  | elsewhere {st st' : VariableState} : NvRun c st₀ st → Untouched st st' → NvRun c st₀ st'

/-- Every state that such a run reaches from an accounted store is accounted. -/
theorem nvAccounted_of_run (hc : FlashVolume c) (h : Accounted c st₀ m) (hrun : NvRun c st₀ st) :
    NvAccounted c st := by
  have hacc : ∃ m' : StoreImage c.authFormat, Accounted c st m' := by
    induction hrun with
    | start => exact ⟨m, h⟩
    | update req ign _ hcall hflush ih =>
      obtain ⟨m',hm'⟩ := ih
      exact updateVariable_accounted hc hm' hcall hflush
    | reclaim _ huntorn ih =>
      obtain ⟨m',hm'⟩ := ih
      exact reclaim_accounted hc hm' huntorn _ fun w hw => absurd hw (by simp)
    | elsewhere _ hu ih =>
      obtain ⟨m',hm'⟩ := ih
      exact ⟨m', hm'.of_untouched hu⟩
  obtain ⟨m',hm'⟩ := hacc
  exact hm'.nvAccounted hc

end

/-! The variable "A" with two entries is updated, and the header or the write after it fails. -/

theorem accounted_twinFirst : Accounted smallConfig (cutOff twinFirst) twinFirst where
  image := nvImage_cutOff twinFirst (by decide +kernel)
  lastOffset := by decide +kernel
  erased := rfl
  common := by decide +kernel
  hwErr := by decide +kernel
  commonSpace := by decide +kernel
  hwErrSpace := by decide +kernel
  space := by decide +kernel
  alignedSpace := ⟨0, rfl⟩
  hasData := by decide +kernel

def cutOffBehindHeader : VariableState :=
  { cutOff twinFirst with fvbStatus := [.success, .success, .deviceError] }

/-- The header left in flash is behind `NonVolatileLastVariableOffset`, and not in the cache. -/
theorem not_nvAccounted_cutOffBehindHeader : Accounted smallConfig cutOffBehindHeader twinFirst ∧
    Requests (letterRequest 9) (letterKey 0x41) ∧
    ¬ NvAccounted smallConfig (updateVariable smallConfig cutOffBehindHeader (letterRequest 9)
      (foundVariable smallConfig cutOffBehindHeader (letterRequest 9) true)).1 := by
  refine ⟨accounted_twinFirst.of_untouched ⟨rfl, rfl, rfl, rfl, rfl⟩, requests_letterRequest 9, ?_⟩
  rintro ⟨hlast,-⟩
  exact absurd hlast (by decide +kernel)

theorem nvAccounted_of_run_cutOff :
    NvAccounted smallConfig (updateVariable smallConfig (cutOff twinFirst) (letterRequest 9)
      (foundVariable smallConfig (cutOff twinFirst) (letterRequest 9) true)).1 := by
  refine nvAccounted_of_run flashVolume_smallConfig accounted_twinFirst
    (.update (letterRequest 9) true .start ⟨⟨letterKey 0x41, requests_letterRequest 9⟩,
      .of_currPtr 68 ?_ ?_ ?_, fun data mark h _ _ => .inr (.inl ?_), nofun⟩ ?_)
  · decide +kernel
  · decide +kernel
  · decide +kernel
  · -- the mark takes the first status, and the header's write fails
    have hplan : updatePlan smallConfig (cutOff twinFirst) (letterRequest 9)
        (switchFromHob smallConfig (cutOff twinFirst) (letterRequest 9)
          (foundVariable smallConfig (cutOff twinFirst) (letterRequest 9) true)) =
            .write [9] true := by decide +kernel
    rw [hplan] at h
    obtain ⟨rfl,rfl⟩ := UpdatePlan.write.inj h
    decide +kernel
  · refine FlushOk.of_base ?_
    decide +kernel

end Liano.Variable
