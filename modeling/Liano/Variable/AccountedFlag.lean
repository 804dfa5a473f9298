import Liano.Variable.AccountedReclaim

/-! The accounting through the change of a byte of data, which is how the error flag is recorded, and
the pointers that a call gets from its lookup. -/
namespace Liano.Variable

open List

open Bytes (slice patch HoldsAt)

section
variable {auth : Bool} {e : Bytes} {off : Nat} {x : UInt8}

theorem header_le_dataPtr (auth : Bool) (e : Bytes) :
    getVariableHeaderSize auth ≤ getVariableDataPtr auth e 0 := by
  simp only [getVariableDataPtr, getVariableNamePtr, getPadSize]
  omega

section
variable (hoff : getVariableDataPtr auth e 0 ≤ off) (hlt : off < e.length)
include hoff hlt

theorem slice_patchData {q len : Nat} (hq : q+len ≤ getVariableDataPtr auth e 0) :
    slice (patch e off [x]) q len = slice e q len :=
  Bytes.slice_patch_of_disjoint (by rw [length_singleton]; omega) (.inl (by omega))

theorem patchData_fields : startId (patch e off [x]) 0 = startId e 0 ∧ state (patch e off [x]) 0 = state e 0 ∧
      attributes (patch e off [x]) 0 = attributes e 0 ∧
      nameSizeOfVariable auth (patch e off [x]) 0 = nameSizeOfVariable auth e 0 ∧
      dataSizeOfVariable auth (patch e off [x]) 0 = dataSizeOfVariable auth e 0 := by
  have hhdr := header_le_dataPtr auth e
  have h32 := headerSize_pos auth
  have htwo : offsetOfState = 2 := rfl
  obtain ⟨-,h2,-,h4,-,-⟩ := layout_fields auth
  have huint : ∀ q len, q+len ≤ getVariableHeaderSize auth →
      uintAt (patch e off [x]) q len = uintAt e q len := by
    intro q len hq
    rw [uintAt, uintAt, slice_patchData hoff hlt (by omega)]
  have hst : state (patch e off [x]) 0 = state e 0 := by
    rw [state, state, getD_eq_getElem?_getD, getD_eq_getElem?_getD,
      Bytes.getElem?_patch (by rw [length_singleton]; omega), if_neg (by omega)]
  have hattr : attributes (patch e off [x]) 0 = attributes e 0 := by
    rw [attributes, attributes, huint _ _ (by omega)]
  have herased : sizesErased auth (patch e off [x]) 0 = sizesErased auth e 0 := by
    rw [sizesErased, sizesErased, hst, hattr, huint _ _ (by omega), huint _ _ (by omega)]
  refine ⟨huint _ _ (by omega), hst, hattr, ?_, ?_⟩
  · rw [nameSizeOfVariable, nameSizeOfVariable, herased, huint _ _ (by omega)]
  · rw [dataSizeOfVariable, dataSizeOfVariable, herased, huint _ _ (by omega)]

end

theorem isEntry_patchData (he : IsEntry auth e)
    (hoff : getVariableDataPtr auth e 0 ≤ off) (hlt : off < e.length) :
    IsEntry auth (patch e off [x]) := by
  obtain ⟨hstart,-,-,hname,hdata⟩ := @patchData_fields auth e off x hoff hlt
  have hlen : (patch e off [x]).length = e.length := Bytes.length_patch (by rw [length_singleton]; omega)
  refine ⟨?_, hstart.trans he.startId, ?_⟩
  · rw [hlen]
    exact he.header
  · rw [hlen, ← he.next, getNextVariablePtr, getNextVariablePtr, getVariableDataPtr,
      getVariableDataPtr, hname, hdata]

end

theorem findVariableLoop_pointers {P : Nat → Prop} {matching : Nat → Bool} {b : Bytes}
    {ps : List Nat} {d : Option Nat} (hd : ∀ q, d = some q → P q)
    (hps : ∀ p ∈ ps, matching p = true → P p) :
    (∀ p, (findVariableLoop matching b d ps).currPtr = some p → P p) ∧
      ∀ q, (findVariableLoop matching b d ps).inDeletedTransitionPtr = some q → P q := by
  induction ps generalizing d with
  | nil => exact ⟨hd, fun q hq => Option.noConfusion rfl (heq_of_eq hq)⟩
  | cons p ps ih =>
    have hps' := fun q hq => hps q (mem_cons_of_mem _ hq)
    rw [findVariableLoop]
    by_cases hm : matching p = true
    · have hp := hps p mem_cons_self hm
      rw [if_pos hm]
      split
      · exact ih (fun q hq => Option.some.inj hq ▸ hp) hps'
      · exact ⟨fun q hq => Option.some.inj hq ▸ hp, hd⟩
    · rw [if_neg hm]
      exact ih hd hps'

theorem findInStores_some {auth rt ign : Bool} {stores : VariableStoreList}
    {name guid : Bytes} {ts : List VariableStoreType} {t : VariableStoreType}
    {track : VariablePointerTrack}
    (h : findInStores auth rt stores name guid ign ts = some (t,track)) :
    ∃ b, stores t = some b ∧ track = (findVariableEx auth rt name guid ign b).1 ∧
      track.currPtr.isSome = true := by
  induction ts with
  | nil => cases h
  | cons s ts ih =>
    rw [findInStores] at h
    cases hs : stores s with
    | none =>
      rw [hs] at h
      exact ih h
    | some b =>
      rw [hs] at h
      dsimp only at h
      split at h
      · exact ih h
      rename_i hok
      obtain ⟨rfl,rfl⟩ := Prod.mk.inj (Option.some.inj h)
      refine ⟨b, hs, rfl, ?_⟩
      cases hcurr : (findVariableEx auth rt name guid ign b).1.currPtr with
      | some p => rfl
      | none =>
        refine absurd ?_ hok
        have hst : (findVariableEx auth rt name guid ign b).2 =
            if (findVariableEx auth rt name guid ign b).1.currPtr.isSome then
              .success else .notFound := rfl
        rw [hst, hcurr]
        rfl

/-- What `FindVariable` gives a caller of `UpdateVariable`. -/
def foundVariable (c : VariableConfig) (st : VariableState) (req : UpdateRequest)
    (ignoreRtCheck : Bool) : CacheVariable :=
  match findVariable c.authFormat st.atRuntime (variableStores st) req.variableName
      req.vendorGuid ignoreRtCheck with
  | some (t,track) => ⟨t, track⟩
  | none => ⟨.nv, ⟨none, none⟩⟩

section
variable {c : VariableConfig} {st st' : VariableState} {m : StoreImage c.authFormat}
  {req : UpdateRequest} {ign : Bool}

theorem find_pointsTo (m : StoreImage c.authFormat) (rt : Bool) (name guid : Bytes) (ign : Bool) :
    (∀ p, (findVariableEx c.authFormat rt name guid ign m.bytes).1.currPtr = some p →
        ∃ e, (p,e) ∈ m.locatedEntries ∧ inUse e = true) ∧
      ∀ q, (findVariableEx c.authFormat rt name guid ign m.bytes).1.inDeletedTransitionPtr =
        some q → ∃ e, (q,e) ∈ m.locatedEntries ∧ inUse e = true := by
  refine findVariableLoop_pointers (fun q hq => by cases hq) ?_
  intro p hp hm
  rw [m.headers_bytes, mem_map] at hp
  obtain ⟨y,hy,rfl⟩ := hp
  rw [Bool.and_eq_true, accessible_of_holdsAt (StoreImage.isEntry_of_mem hy) (StoreImage.holdsAt hy)] at hm
  exact ⟨y.2, hy, inUse_of_accessible hm.1⟩

theorem Accounted.pointsToEntry (h : Accounted c st m) {p : Nat}
    (hp : ∃ e, (p,e) ∈ m.locatedEntries ∧ inUse e = true) : PointsToEntry m p := by
  obtain ⟨e,he,hu⟩ := hp
  exact ⟨e, he, state_ne_of_inUse hu, h.hasData e (StoreImage.mem_entries he) hu⟩

theorem cacheVariableOk_nv (h : Accounted c st m) (rt : Bool) (name guid : Bytes) (ign : Bool) :
    CacheVariableOk m ⟨.nv, (findVariableEx c.authFormat rt name guid ign st.memory.nvVariableCache).1⟩ := by
  rw [h.image.cache]
  obtain ⟨hcurr,htwin⟩ := find_pointsTo m rt name guid ign
  exact .inr ⟨rfl, fun p hp => h.pointsToEntry (hcurr p hp), fun q hq => h.pointsToEntry (htwin q hq)⟩

/-- After the exchange of a variable HOB's entry `UpdateVariable` works on a lookup in the NV or the
volatile store, or on nothing. -/
theorem found_of_lookup {P : CacheVariable → Prop} (hnone : P ⟨.nv, ⟨none, none⟩⟩)
    (hlookup : ∀ (ign : Bool) (t : VariableStoreType), t ≠ .hob →
      P ⟨t, (findVariableEx c.authFormat st.atRuntime req.variableName req.vendorGuid ign
        (cacheStore st t)).1⟩) : P (switchFromHob c st req (foundVariable c st req ign)) := by
  unfold switchFromHob
  split
  · exact hlookup false .nv nofun
  rename_i hnot
  unfold foundVariable at hnot ⊢
  cases hf : findVariable c.authFormat st.atRuntime (variableStores st) req.variableName
      req.vendorGuid ign with
  | none => exact hnone
  | some found =>
    obtain ⟨t,track⟩ := found
    rw [hf] at hnot
    obtain ⟨b,hb,htrack,hsome⟩ := findInStores_some hf
    cases t with
    | volatile =>
      obtain rfl : st.memory.volatileStore = b := Option.some.inj hb
      rw [htrack]
      exact hlookup ign .volatile nofun
    | nv =>
      obtain rfl : st.memory.nvVariableCache = b := Option.some.inj hb
      rw [htrack]
      exact hlookup ign .nv nofun
    | hob =>
      refine absurd ?_ hnot
      have hbase : st.memory.hobVariableBase ≠ 0 := by
        intro hzero
        rw [variableStores, if_pos hzero] at hb
        cases hb
      simp [hsome, hbase]

theorem cacheVariableOk_found (h : Accounted c st m) (req : UpdateRequest) (ign : Bool) :
    CacheVariableOk m (switchFromHob c st req (foundVariable c st req ign)) := by
  refine found_of_lookup ?_ fun ign t ht => ?_
  · exact .inr ⟨rfl, fun p hp => Option.noConfusion rfl (heq_of_eq hp),
      fun q hq => Option.noConfusion rfl (heq_of_eq hq)⟩
  · cases t with
    | volatile => exact .inl rfl
    | nv => exact cacheVariableOk_nv h _ _ _ _
    | hob => exact absurd rfl ht

theorem recordVarErrorFlag_accounted (hc : FlashVolume c) (h : Accounted c st m) (flag : UInt8) :
    ∃ m' : StoreImage c.authFormat, Accounted c (recordVarErrorFlag c st flag) m' := by
  unfold recordVarErrorFlag
  split
  · exact ⟨m, h.of_untouched ⟨rfl, rfl, rfl, rfl, rfl⟩⟩
  split
  · rename_i p twin hf
    obtain ⟨b,hb,htrack,-⟩ := findInStores_some hf
    have hcache : b = m.bytes := (Option.some.inj hb).symm.trans h.image.cache
    rw [hcache] at htrack
    obtain ⟨e,hmem,hu⟩ := (find_pointsTo m st.atRuntime varErrorFlagName
      edkiiVarErrorFlagGuid false).1 p (by rw [← htrack])
    obtain ⟨pre,post,hes,rfl⟩ := mem_located.mp hmem
    have he : IsEntry c.authFormat e := StoreImage.isEntry_of_mem hmem
    have hat := StoreImage.holdsAt hmem
    have hdata := h.hasData e (StoreImage.mem_entries hmem) hu
    have hend := he.data_le
    have hptr : getVariableDataPtr c.authFormat m.bytes (getStartPointer+pre.flatten.length) =
        getStartPointer+pre.flatten.length + getVariableDataPtr c.authFormat e 0 := by
      simp only [getVariableDataPtr, getVariableNamePtr, getPadSize, nameSize_of_holdsAt he hat]
      omega
    dsimp only
    rw [h.image.cache, hptr]
    split
    · exact ⟨m, h⟩
    generalize hold : m.bytes.getD (getStartPointer+pre.flatten.length +
      getVariableDataPtr c.authFormat e 0) 0 = old
    have hbnd : getStartPointer+pre.flatten.length + getVariableDataPtr c.authFormat e 0 <
        m.bytes.length := by
      have hle : getStartPointer+pre.flatten.length+e.length ≤ m.bytes.length := hat.length_le
      omega
    have hclear : old &&& (old &&& flag) = old &&& flag := by rw [← UInt8.and_assoc, UInt8.and_self]
    obtain ⟨honly,hcases⟩ := updateVariableStore_byte hc h.image.flash hbnd
      (show _ &&& (old &&& flag) = _ by rw [hold]; exact hclear)
    have hrest := honly.sameRest
    generalize updateVariableStore c st false (getStartPointer+pre.flatten.length +
      getVariableDataPtr c.authFormat e 0) [old &&& flag] = r at honly hcases hrest ⊢
    have hlt : getVariableDataPtr c.authFormat e 0 < e.length := by omega
    have hent : IsEntry c.authFormat
        (patch e (getVariableDataPtr c.authFormat e 0) [old &&& flag]) :=
      isEntry_patchData he le_rfl hlt
    obtain ⟨-,hst,hattr,-,hsize⟩ := @patchData_fields c.authFormat e
      (getVariableDataPtr c.authFormat e 0) (old &&& flag) le_rfl hlt
    have hdata' : inUse (patch e (getVariableDataPtr c.authFormat e 0) [old &&& flag]) = true →
        0 < dataSizeOfVariable c.authFormat
          (patch e (getVariableDataPtr c.authFormat e 0) [old &&& flag]) 0 := by
      intro _
      rw [hsize]
      exact hdata
    rcases hcases with ⟨herr,hflash⟩ | ⟨hok,hflash⟩
    · rw [if_pos herr]
      have himg : NvImage c r.1 m := ⟨hflash, by rw [honly.memory]; exact h.image.cache⟩
      exact ⟨m, h.exchange hes hes rfl rfl rfl rfl (fun _ => hdata) himg hrest⟩
    rw [if_neg (by rw [hok]; decide)]
    have hpatch := @StoreImage.bytes_replace_patch c.authFormat m pre post e [old &&& flag]
      (getVariableDataPtr c.authFormat e 0) hes
      (by rw [length_singleton]; exact hlt) hent
    have himg : NvImage c (r.1.setStore .nv (patch r.1.memory.nvVariableCache
        (getStartPointer+pre.flatten.length + getVariableDataPtr c.authFormat e 0) [old &&& flag]))
        (m.replace pre e (patch e (getVariableDataPtr c.authFormat e 0) [old &&& flag]) post
          hes (Bytes.length_patch (by rw [length_singleton]; exact hlt)) hent) := by
      refine ⟨⟨?_, hflash.length⟩, ?_⟩
      · rw [hpatch]
        exact hflash.holds
      · rw [hpatch]
        change patch r.1.memory.nvVariableCache _ _ = _
        rw [honly.memory, h.image.cache]
    have hlen : (patch e (getVariableDataPtr c.authFormat e 0) [old &&& flag]).length =
        e.length := Bytes.length_patch (by rw [length_singleton]; exact hlt)
    have hacc := @Accounted.exchange c st _ m (m.replace pre e
      (patch e (getVariableDataPtr c.authFormat e 0) [old &&& flag]) post hes hlen hent)
      h pre post e _ hes rfl rfl rfl hlen hattr hdata' himg
      (hrest.trans (SameRest.setStore _ .nv _))
    exact ⟨_, hacc.of_untouched (synchronize_untouched _ _ _)⟩
  · exact ⟨m, h⟩

theorem recordNoSpace_accounted (hc : FlashVolume c) (h : Accounted c st m) (req : UpdateRequest)
    (v : Bytes) (systemSpace : Nat) :
    ∃ m' : StoreImage c.authFormat, Accounted c (recordNoSpace c req v systemSpace st) m' := by
  have hstep : ∀ (b : Bool) (flag : UInt8) (st : VariableState) (m : StoreImage c.authFormat),
      Accounted c st m → ∃ m', Accounted c (if b = true then recordVarErrorFlag c st flag else st) m' := by
    intro b flag st m hst
    cases b with
    | true => exact recordVarErrorFlag_accounted hc hst flag
    | false => exact ⟨m, hst⟩
  unfold recordNoSpace
  obtain ⟨m',h'⟩ := hstep _ varErrorFlagUserError st m h
  exact hstep _ _ _ m' h'

end

end Liano.Variable
