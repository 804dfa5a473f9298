import Liano.Variable.NvWrites
import Liano.Variable.ReclaimKeeps

/-! The entries of the variable that an update is about: where its pointers lead, how they are
marked and deleted, and that nothing of this touches another variable. -/
namespace Liano.Variable

open List

/-- The variables other than `k` have the same entries in use. -/
def SameOthers (authFormat : Bool) (k : VariableKey) (es es' : List Bytes) : Prop :=
  ∀ k', k' ≠ k → entriesOf authFormat es' k' = entriesOf authFormat es k'

section
variable {authFormat : Bool} {k : VariableKey} {es es' es'' pre post : List Bytes} {e : Bytes}
  {s : UInt8}

theorem SameOthers.refl (authFormat : Bool) (k : VariableKey) (es : List Bytes) :
    SameOthers authFormat k es es := fun _ _ => rfl

theorem SameOthers.trans (h : SameOthers authFormat k es es')
    (h' : SameOthers authFormat k es' es'') : SameOthers authFormat k es es'' :=
  fun k' hne => (h' k' hne).trans (h k' hne)

theorem sameOthers_setState (pre post : List Bytes) (he : IsEntry authFormat e)
    (hst : state e 0 ≠ 0xff) (hs : s ≠ 0xff) (hk : keyOf authFormat e = k) :
    SameOthers authFormat k (pre ++ e :: post) (pre ++ setState e s :: post) := by
  intro k' hne
  have hkey : keyOf authFormat e ≠ k' := fun h => hne (h.symm.trans hk)
  have hkey' : keyOf authFormat (setState e s) ≠ k' := by
    rw [keyOf_setState he hst hs]
    exact hkey
  rw [entriesOf_append, entriesOf_append, entriesOf_cons_neg _ (.inr hkey),
    entriesOf_cons_neg _ (.inr hkey')]

theorem sameOthers_append (es : List Bytes) {extra : List Bytes}
    (h : ∀ e ∈ extra, inUse e = false ∨ keyOf authFormat e = k) :
    SameOthers authFormat k es (es ++ extra) := by
  intro k' hne
  have hnil : entriesOf authFormat extra k' = [] := by
    refine filter_eq_nil_iff.mpr fun e he => ?_
    rcases h e he with hu | hk
    · simp [hu]
    · simp [hk, Ne.symm hne]
  rw [entriesOf_append, hnil, append_nil]

theorem NamedEntries.sameOthers (hn : NamedEntries authFormat es) (hk : IsVariableName k.name)
    (h : SameOthers authFormat k es es') : NamedEntries authFormat es' := by
  intro e he hu
  by_cases hkey : keyOf authFormat e = k
  · rw [hkey]
    exact hk
  · have hmem : e ∈ entriesOf authFormat es' (keyOf authFormat e) := mem_entriesOf.mpr ⟨he, hu, rfl⟩
    rw [h _ hkey] at hmem
    exact hn e (mem_entriesOf.mp hmem).1 hu

theorem state_of_inUse (h : inUse e = true) : state e 0 = 0x3f ∨ state e 0 = 0x3e := by
  rw [inUse, Bool.or_eq_true] at h
  rcases h with h | h
  · exact .inl (beq_iff_eq.mp h)
  · exact .inr (beq_iff_eq.mp h)

theorem masked_ne (h : inUse e = true) (mask : UInt8) (hm : mask = 0xfe ∨ mask = 0xfd) :
    state e 0 &&& mask ≠ 0xff := by
  rcases state_of_inUse h with hs | hs <;> rcases hm with hm | hm <;> rw [hs, hm] <;> decide

/-- The entry marked IN_DELETED_TRANSITION. -/
def mark (e : Bytes) : Bytes := setState e (state e 0 &&& varInDeletedTransition)

/-- The entry set to DELETED. -/
def delete (e : Bytes) : Bytes := setState e (state e 0 &&& varDeleted)

section
variable (he : IsEntry authFormat e) (h : inUse e = true)
include he h

theorem isInDeletedTransition_mark : isInDeletedTransition (mark e) 0 = true := by
  rw [isInDeletedTransition, mark, state_setState he]
  rcases state_of_inUse h with hs | hs <;> rw [hs] <;> decide

theorem inUse_delete : inUse (delete e) = false := by
  rw [inUse, isAdded, isInDeletedTransition, delete, state_setState he]
  rcases state_of_inUse h with hs | hs <;> rw [hs] <;> decide

theorem keyOf_mark : keyOf authFormat (mark e) = keyOf authFormat e :=
  keyOf_setState he (state_ne_of_inUse h) (masked_ne h _ (.inl rfl))

theorem valueOf_mark : valueOf authFormat (mark e) = valueOf authFormat e := by
  rw [valueOf, valueOf, mark, attributes_setState he,
    dataOf_setState he (state_ne_of_inUse h) (masked_ne h varInDeletedTransition (.inl rfl))]

end

/-- The pointers lead to the entry `e` behind `pre`, and to its twin where it has one. -/
structure PointsTo (authFormat : Bool) (k : VariableKey) (track : VariablePointerTrack)
    (pre : List Bytes) (e : Bytes) : Prop where
  currPtr : track.currPtr = some (getStartPointer+pre.flatten.length)
  key : keyOf authFormat e = k
  used : inUse e = true
  twin : track.inDeletedTransitionPtr = none ∧ entriesOf authFormat pre k = [] ∨
    ∃ pre' t mid, pre = pre' ++ t :: mid ∧
      track.inDeletedTransitionPtr = some (getStartPointer+pre'.flatten.length) ∧
      keyOf authFormat t = k ∧ isInDeletedTransition t 0 = true ∧
      entriesOf authFormat pre' k = [] ∧ entriesOf authFormat mid k = []

section
variable {track : VariablePointerTrack} (h : PointsTo authFormat k track pre e)
include h

theorem PointsTo.before : ∀ d ∈ entriesOf authFormat pre k, isAdded d 0 = false := by
  rcases h.twin with ⟨-,hnil⟩ | ⟨pre',t,mid,rfl,-,hkey,ht,hnil,hnil'⟩
  · rw [hnil]
    simp
  intro d hd
  rw [entriesOf_append, hnil, entriesOf_cons_pos _ (inUse_of_transition ht) hkey, hnil',
    nil_append, mem_singleton] at hd
  rw [hd]
  exact isAdded_eq_false_of_transition ht

theorem PointsTo.mark (he : IsEntry authFormat e) : PointsTo authFormat k track pre (mark e) where
  currPtr := h.currPtr
  key := (keyOf_mark he h.used).trans h.key
  used := inUse_of_transition (isInDeletedTransition_mark he h.used)
  twin := h.twin

end

theorem exists_current {m : StoreImage authFormat} (hd : DistinctEntries authFormat m.entries)
    (hfst : TransitionFirst m k) (hne : entriesOf authFormat m.entries k ≠ []) :
    ∃ pre e post, m.entries = pre ++ e :: post ∧ keyOf authFormat e = k ∧ inUse e = true ∧
      entriesOf authFormat post k = [] ∧ (entriesOf authFormat pre k = [] ∨
        isAdded e 0 = true ∧ ∃ pre' t mid, pre = pre' ++ t :: mid ∧ keyOf authFormat t = k ∧
          isInDeletedTransition t 0 = true ∧ entriesOf authFormat pre' k = [] ∧
          entriesOf authFormat mid k = []) := by
  have hmem : ∀ {e : Bytes}, e ∈ entriesOf authFormat m.entries k → keyOf authFormat e = k ∧
      inUse e = true := fun h => ⟨(mem_entriesOf.mp h).2.2, (mem_entriesOf.mp h).2.1⟩
  have hnot : ∀ {l : List Bytes},
      (∀ x ∈ l, ¬ (inUse x && keyOf authFormat x == k) = true) → entriesOf authFormat l k = [] :=
    fun h => filter_eq_nil_iff.mpr h
  rcases entriesOf_cases hd k with hnil | ⟨e,hone⟩ | ⟨t,e,htwo,hstates⟩
  · exact absurd hnil hne
  · obtain ⟨pre,post,hes,hpre,-,hpost⟩ := filter_eq_cons_iff.mp hone
    obtain ⟨hk,hu⟩ := hmem (e := e) (by rw [hone]; exact mem_singleton_self e)
    exact ⟨pre, e, post, hes, hk, hu, hpost, .inl (hnot hpre)⟩
  obtain ⟨hkt,hut⟩ := hmem (e := t) (by rw [htwo]; simp)
  obtain ⟨hke,hue⟩ := hmem (e := e) (by rw [htwo]; simp)
  obtain ⟨pre',rest,hes,hpre',-,hrest⟩ := filter_eq_cons_iff.mp htwo
  obtain ⟨mid,post,hmid,hmid',-,hpost⟩ := filter_eq_cons_iff.mp hrest
  have hadded : isInDeletedTransition t 0 = true ∧ isAdded e 0 = true := by
    refine hstates.resolve_left fun h => ?_
    have ht : (getStartPointer+pre'.flatten.length, t) ∈ m.locatedEntries :=
      mem_located.mpr ⟨pre', rest, hes, rfl⟩
    have he : (getStartPointer + (pre' ++ t :: mid).flatten.length, e) ∈ m.locatedEntries :=
      mem_located.mpr ⟨pre' ++ t :: mid, post, by rw [hes, hmid, append_assoc, cons_append], rfl⟩
    have hlt := hfst _ ht _ he hkt hke h.1 h.2
    simp only [flatten_append, flatten_cons, length_append] at hlt
    omega
  refine ⟨pre' ++ t :: mid, e, post, ?_, hke, hue, hpost,
    .inr ⟨hadded.2, pre', t, mid, rfl, hkt, hadded.1, hnot hpre', hnot hmid'⟩⟩
  rw [hes, hmid, append_assoc, cons_append]

end

theorem find?_reverse_last {α : Type} {f : α → Bool} {pre post : List α} {x : α} (hx : f x = true)
    (hpost : ∀ y ∈ post, ¬ f y = true) : (pre ++ x :: post).reverse.find? f = some x := by
  have hnone : post.reverse.find? f = none := find?_eq_none.mpr fun y hy => hpost y (mem_reverse.mp hy)
  rw [reverse_append, reverse_cons, find?_append, find?_append, hnone, find?_cons_of_pos hx]
  rfl

section
variable {auth rt : Bool} {k : VariableKey} {m : StoreImage auth}

section
variable (hn : NamedEntries auth m.entries) (hk : IsVariableName k.name)
include hn hk

theorem lookupMatches_iff_key {x : Nat × Bytes} (hx : x ∈ m.locatedEntries) (s : Bytes) :
    lookupMatches auth rt (k.name ++ s) k.vendorGuid true x.2 = true ↔
      inUse x.2 = true ∧ keyOf auth x.2 = k := by
  rw [StoreImage.lookupMatches_iff hn hk hx, isAccessible_ignore, Bool.and_eq_true, beq_iff_eq]

theorem find_absent (hnil : entriesOf auth m.entries k = []) (s : Bytes) :
    (findVariableEx auth rt (k.name ++ s) k.vendorGuid true m.bytes).1 = ⟨none, none⟩ := by
  have hnone : ∀ y ∈ m.locatedEntries,
      ¬ lookupMatches auth rt (k.name ++ s) k.vendorGuid true y.2 = true := by
    intro y hy hm
    have hin := (lookupMatches_iff_key hn hk hy s).mp hm
    have hmem : y.2 ∈ entriesOf auth m.entries k := mem_entriesOf.mpr ⟨StoreImage.mem_entries hy, hin⟩
    rw [hnil] at hmem
    exact absurd hmem not_mem_nil
  rw [StoreImage.findVariableEx_transition fun y hy hm => absurd hm (hnone y hy),
    find?_eq_none.mpr fun y hy => hnone y (mem_reverse.mp hy)]
  rfl

theorem find_current (hd : DistinctEntries auth m.entries) (hf : TransitionFirst m k)
    (hne : entriesOf auth m.entries k ≠ []) (s : Bytes) :
    ∃ pre e post, m.entries = pre ++ e :: post ∧ entriesOf auth post k = [] ∧ PointsTo auth k
        (findVariableEx auth rt (k.name ++ s) k.vendorGuid true m.bytes).1 pre e := by
  obtain ⟨pre,e,post,hes,hke,hue,hpost,hpre⟩ := exists_current hd hf hne
  refine ⟨pre, e, post, hes, hpost, ?_⟩
  have hloc : m.locatedEntries = located getStartPointer pre ++ (getStartPointer+pre.flatten.length, e) ::
        located (getStartPointer+pre.flatten.length+e.length) post := by
    rw [StoreImage.locatedEntries, hes, located_append]
    rfl
  have hmatch : ∀ {x : Nat × Bytes}, x ∈ m.locatedEntries →
      (lookupMatches auth rt (k.name ++ s) k.vendorGuid true x.2 = true ↔
        inUse x.2 = true ∧ keyOf auth x.2 = k) := fun hx => lookupMatches_iff_key hn hk hx s
  have hx : (getStartPointer+pre.flatten.length, e) ∈ m.locatedEntries := by
    rw [hloc]
    exact mem_append_right _ mem_cons_self
  have hxm := (hmatch hx).mpr ⟨hue, hke⟩
  have hmemPre : ∀ y ∈ located getStartPointer pre, y ∈ m.locatedEntries := fun y hy => by
    rw [hloc]
    exact mem_append_left _ hy
  -- no entry of the variable in a part of the store without one
  have hskip : ∀ {p : Nat} {l : List Bytes}, entriesOf auth l k = [] →
      ∀ y ∈ located p l, ¬ (inUse y.2 = true ∧ keyOf auth y.2 = k) := by
    intro p l hnil y hy hin
    have hyl : y.2 ∈ l := by
      have := mem_map_of_mem (f := (·.2)) hy
      rwa [located_map_snd] at this
    have hmem : y.2 ∈ entriesOf auth l k := mem_entriesOf.mpr ⟨hyl, hin⟩
    rw [hnil] at hmem
    exact absurd hmem not_mem_nil
  rcases hpre with hnil | ⟨hadded,pre',t,mid,hsplit,hkt,htrans,hnil',hmid⟩
  · have hpreNone : (located getStartPointer pre).reverse.find? (fun y =>
        lookupMatches auth rt (k.name ++ s) k.vendorGuid true y.2) = none :=
      find?_eq_none.mpr fun y hy hm =>
        hskip hnil y (mem_reverse.mp hy) ((hmatch (hmemPre y (mem_reverse.mp hy))).mp hm)
    cases ha : isAdded e 0 with
    | true =>
      rw [StoreImage.findVariableEx_added hloc hxm ha fun y hy hm =>
        absurd ((hmatch (hmemPre y hy)).mp hm) (hskip hnil y hy), hpreNone]
      exact ⟨rfl, hke, hue, .inl ⟨rfl, hnil⟩⟩
    | false =>
      have hpostSkip : ∀ y ∈ located (getStartPointer+pre.flatten.length+e.length) post,
          ¬ lookupMatches auth rt (k.name ++ s) k.vendorGuid true y.2 = true := by
        intro y hy hm
        have hy' : y ∈ m.locatedEntries := by
          rw [hloc]
          exact mem_append_right _ (mem_cons_of_mem _ hy)
        exact hskip hpost y hy ((hmatch hy').mp hm)
      have hnone : ∀ y ∈ m.locatedEntries,
          lookupMatches auth rt (k.name ++ s) k.vendorGuid true y.2 = true → isAdded y.2 0 = false := by
        intro y hy hm
        rw [hloc] at hy
        rcases mem_append.mp hy with hy | hy
        · exact absurd ((hmatch (hmemPre y hy)).mp hm) (hskip hnil y hy)
        · rcases mem_cons.mp hy with rfl | hy
          · exact ha
          · exact absurd hm (hpostSkip y hy)
      have hlast : m.locatedEntries.reverse.find? (fun y =>
          lookupMatches auth rt (k.name ++ s) k.vendorGuid true y.2) =
            some (getStartPointer+pre.flatten.length, e) := by
        rw [hloc]
        exact find?_reverse_last hxm hpostSkip
      rw [StoreImage.findVariableEx_transition hnone, hlast]
      exact ⟨rfl, hke, hue, .inl ⟨rfl, hnil⟩⟩
  · have hlocPre : located getStartPointer pre = located getStartPointer pre' ++
        (getStartPointer+pre'.flatten.length, t) ::
          located (getStartPointer+pre'.flatten.length+t.length) mid := by
      rw [hsplit, located_append]
      rfl
    have htm : lookupMatches auth rt (k.name ++ s) k.vendorGuid true t = true := by
      have hty : (getStartPointer+pre'.flatten.length, t) ∈ m.locatedEntries :=
        hmemPre _ (by rw [hlocPre]; exact mem_append_right _ mem_cons_self)
      exact (hmatch hty).mpr ⟨inUse_of_transition htrans, hkt⟩
    have hmidSkip : ∀ y ∈ located (getStartPointer+pre'.flatten.length+t.length) mid,
        ¬ lookupMatches auth rt (k.name ++ s) k.vendorGuid true y.2 = true := by
      intro y hy hm
      have hym : y ∈ m.locatedEntries := hmemPre y (by
        rw [hlocPre]
        exact mem_append_right _ (mem_cons_of_mem _ hy))
      exact hskip hmid y hy ((hmatch hym).mp hm)
    have htwin : (located getStartPointer pre).reverse.find? (fun y =>
        lookupMatches auth rt (k.name ++ s) k.vendorGuid true y.2) =
          some (getStartPointer+pre'.flatten.length, t) := by
      rw [hlocPre]
      exact find?_reverse_last htm hmidSkip
    have hnotAdded : ∀ y ∈ located getStartPointer pre,
        lookupMatches auth rt (k.name ++ s) k.vendorGuid true y.2 = true → isAdded y.2 0 = false := by
      intro y hy hm
      have hin := (hmatch (hmemPre y hy)).mp hm
      rw [hlocPre] at hy
      rcases mem_append.mp hy with hy | hy
      · exact absurd hin (hskip hnil' y hy)
      · rcases mem_cons.mp hy with rfl | hy
        · exact isAdded_eq_false_of_transition htrans
        · exact absurd hin (hskip hmid y hy)
    rw [StoreImage.findVariableEx_added hloc hxm hadded hnotAdded, htwin]
    exact ⟨rfl, hke, hue, .inr ⟨pre', t, mid, hsplit, rfl, hkt, htrans, hnil', hmid⟩⟩

end

end

section
variable {c : VariableConfig} {st : VariableState} {m : StoreImage c.authFormat}
  {k : VariableKey} {pre post : List Bytes} {e : Bytes} {cacheVariable : CacheVariable}

/-- The first write of `deleteOld`: the twin is set to DELETED. -/
def deleteTwin (c : VariableConfig) (cacheVariable : CacheVariable) (st : VariableState) :
    VariableState × EfiStatus := match cacheVariable.track.inDeletedTransitionPtr with
  | none => (st, .success)
  | some q => updateState c st cacheVariable.storeType q varDeleted

theorem deleteOld_of_current {p : Nat} (h : cacheVariable.track.currPtr = some p) :
    deleteOld c cacheVariable st = andThen (deleteTwin c cacheVariable st) fun st =>
      updateState c st cacheVariable.storeType p varDeleted := by
  unfold deleteOld deleteTwin
  generalize cacheVariable.track.inDeletedTransitionPtr = q
  generalize cacheVariable.track.currPtr = r at h ⊢
  subst h
  cases q <;> rfl

section
variable (hc : FlashVolume c) (hst : NvImage c st m) (hes : m.entries = pre ++ e :: post)
  (hp : PointsTo c.authFormat k cacheVariable.track pre e) (hnv : cacheVariable.storeType = .nv)
include hc hst hes hp hnv

theorem deleteTwin_nv : ∃ (m' : StoreImage c.authFormat) (pre' : List Bytes),
      m'.entries = pre' ++ e :: post ∧ pre'.flatten.length = pre.flatten.length ∧
      SameOthers c.authFormat k m.entries m'.entries ∧ NvImage c (deleteTwin c cacheVariable st).1 m' ∧
      ((deleteTwin c cacheVariable st).2.isError = true ∧
          (∀ d ∈ entriesOf c.authFormat pre' k, isAdded d 0 = false) ∨
        (deleteTwin c cacheVariable st).2.isError = false ∧ entriesOf c.authFormat pre' k = []) := by
  have hbef := hp.before
  rcases hp.twin with ⟨hnone,hnil⟩ | ⟨pre',t,mid,hsplit,hsome,hkt,htrans,hnil',hmid⟩
  · rw [deleteTwin, hnone]
    exact ⟨m, pre, hes, rfl, SameOthers.refl _ _ _, hst, .inr ⟨rfl, hnil⟩⟩
  have hused := inUse_of_transition htrans
  have hest : m.entries = pre' ++ t :: (mid ++ e :: post) := by
    rw [hes, hsplit, append_assoc, cons_append]
  have het : IsEntry c.authFormat t := m.isEntry t (by rw [hest]; simp)
  obtain ⟨-,hcases⟩ := updateState_nv hc hst hest varDeleted
    (state_ne_of_inUse hused) (masked_ne hused _ (.inr rfl))
  rw [deleteTwin, hsome, hnv]
  dsimp only
  rcases hcases with ⟨herr,himg⟩ | ⟨hok,m',hes',-,-,himg⟩
  · exact ⟨m, pre, hes, rfl, SameOthers.refl _ _ _, himg, .inl ⟨herr, hbef⟩⟩
  refine ⟨m', pre' ++ delete t :: mid, ?_, ?_, ?_, himg, .inr ⟨hok, ?_⟩⟩
  · rw [hes', append_assoc, cons_append]
    rfl
  · rw [hsplit]
    simp only [flatten_append, flatten_cons, length_append, delete, length_setState het]
  · rw [hes', hest]
    exact sameOthers_setState _ _ het (state_ne_of_inUse hused)
      (masked_ne hused _ (.inr rfl)) hkt
  · rw [entriesOf_append, hnil', entriesOf_cons_neg _ (.inl (inUse_delete het hused)), hmid, append_nil]

/-- The old entries are deleted: a write fails and `e` is still there, or none of them is left. -/
theorem deleteOld_nv : ∃ m' : StoreImage c.authFormat, NvImage c (deleteOld c cacheVariable st).1 m' ∧
      SameOthers c.authFormat k m.entries m'.entries ∧ ((deleteOld c cacheVariable st).2.isError = true ∧
          (∃ olds, (∀ d ∈ olds, isAdded d 0 = false) ∧ entriesOf c.authFormat m'.entries k =
            olds ++ e :: entriesOf c.authFormat post k) ∨ (deleteOld c cacheVariable st).2.isError = false ∧
          entriesOf c.authFormat m'.entries k = entriesOf c.authFormat post k) := by
  have he : IsEntry c.authFormat e := m.isEntry e (by rw [hes]; simp)
  obtain ⟨m',pre',hes',hlen,hothers,himg,hcases⟩ := deleteTwin_nv hc hst hes hp hnv
  rw [deleteOld_of_current hp.currPtr, hnv]
  generalize deleteTwin c cacheVariable st = r at himg hcases ⊢
  have hcons : entriesOf c.authFormat (e :: post) k = e :: entriesOf c.authFormat post k :=
    entriesOf_cons_pos _ hp.used hp.key
  rcases hcases with ⟨herr,hbef⟩ | ⟨hok,hnil⟩
  · rw [andThen, if_pos herr]
    refine ⟨m', himg, hothers, .inl ⟨herr, _, hbef, ?_⟩⟩
    rw [hes', entriesOf_append, hcons]
  rw [andThen, hok, if_ff]
  obtain ⟨-,hstep⟩ := updateState_nv hc himg hes' varDeleted
    (state_ne_of_inUse hp.used) (masked_ne hp.used _ (.inr rfl))
  rw [hlen] at hstep
  rcases hstep with ⟨herr,himage'⟩ | ⟨hok',m'',hes'',-,-,himage'⟩
  · refine ⟨m', himage', hothers, .inl ⟨herr, [], by simp, ?_⟩⟩
    rw [hes', entriesOf_append, hnil, hcons]
  refine ⟨m'', himage', hothers.trans ?_, .inr ⟨hok', ?_⟩⟩
  · rw [hes', hes'']
    exact sameOthers_setState _ _ he (state_ne_of_inUse hp.used)
      (masked_ne hp.used _ (.inr rfl)) hp.key
  · have hgone : inUse (setState e (state e 0 &&& varDeleted)) = false := inUse_delete he hp.used
    rw [hes'', entriesOf_append, hnil, entriesOf_cons_neg _ (.inl hgone), nil_append]

end

end

end Liano.Variable
