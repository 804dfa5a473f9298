import Liano.Variable.Reinstall

/-! What `Reclaim` makes of a well-formed store: the entries it installs, or that it refuses the
new variable, and the store it writes back. -/
namespace Liano.Variable

open List

open Bytes (slice patch HoldsAt)

section
variable {authFormat : Bool} {es : List Bytes} {k : VariableKey}

/-- `promoteStep` for an entry that is in transition and not being updated. -/
def promoteEntry (authFormat : Bool) (done : List Bytes) (e : Bytes) : List Bytes :=
  if !done.any (fun d => keyOf authFormat d == keyOf authFormat e) then done ++ [promote e] else done

variable {updating : VariablePointerTrack} {e : Bytes}

theorem foldl_promoteStep (l : List (Nat × Bytes)) (done : List Bytes) :
    l.foldl (promoteStep authFormat updating) done =
      (((l.filter fun x => spares updating x.1).map (·.2)).filter
        fun e => isInDeletedTransition e 0).foldl (promoteEntry authFormat) done := by
  induction l generalizing done with
  | nil => rfl
  | cons x l ih =>
    rw [foldl_cons, ih, promoteStep]
    cases hs : spares updating x.1 with
    | false => rw [filter_cons_of_neg (by simp [hs])]; rfl
    | true =>
      rw [filter_cons_of_pos (by simp [hs]), map_cons]
      cases ht : isInDeletedTransition x.2 0 with
      | false => rw [filter_cons_of_neg (by simp [ht])]; rfl
      | true =>
        rw [filter_cons_of_pos (by simp [ht]), foldl_cons, promoteEntry]
        rfl

theorem foldl_promoteEntry {ts done : List Bytes}
    (hts : ts.Pairwise fun d e => keyOf authFormat d ≠ keyOf authFormat e)
    (hkey : ∀ e ∈ ts, keyOf authFormat (promote e) = keyOf authFormat e) :
    ts.foldl (promoteEntry authFormat) done = done ++ (ts.filter fun e =>
      !done.any fun d => keyOf authFormat d == keyOf authFormat e).map promote := by
  induction ts generalizing done with
  | nil => simp only [foldl_nil, filter_nil, map_nil, append_nil]
  | cons t ts ih =>
    rw [pairwise_cons] at hts
    have ih' := fun d => @ih d hts.2 fun e he => hkey e (mem_cons_of_mem _ he)
    rw [foldl_cons, promoteEntry]
    cases ht : done.any fun d => keyOf authFormat d == keyOf authFormat t with
    | true =>
      rw [Bool.not_true, if_ff, ih',
        filter_cons_of_neg (by rw [ht]; exact Bool.false_ne_true)]
    | false =>
      rw [Bool.not_false, if_pos rfl, ih', filter_cons_of_pos (by rw [ht]; rfl),
        map_cons, append_assoc, singleton_append]
      refine congrArg (fun l : List Bytes => done ++ promote t :: l.map promote) ?_
      refine filter_congr fun e he => ?_
      have hne : (keyOf authFormat (promote t) == keyOf authFormat e) = false := by
        rw [hkey t mem_cons_self]
        exact beq_eq_false_iff_ne.mpr (hts.1 e he)
      rw [any_append, any_cons, any_nil, hne, Bool.or_false, Bool.or_false]

theorem pairwise_transition (hd : DistinctEntries authFormat es) :
    (es.filter fun e => isInDeletedTransition e 0).Pairwise fun d e =>
      keyOf authFormat d ≠ keyOf authFormat e := by
  refine (hd.filter _).imp_of_mem ?_
  intro d e hmd hme h hk
  have htd := (mem_filter.mp hmd).2
  have hte := (mem_filter.mp hme).2
  have hf := h hk (StoreImage.state_eq_of_transition (x := (0,d)) (y := (0,e)) htd hte)
  rw [inUse_of_transition htd] at hf
  exact Bool.noConfusion hf

theorem any_added (es : List Bytes) (e : Bytes) :
    ((es.filter fun d => isAdded d 0).any fun d => keyOf authFormat d == keyOf authFormat e) =
      hasAddedTwin authFormat es e := by rw [hasAddedTwin, any_filter]

theorem foldl_promoteEntry_added (hes : ∀ e ∈ es, IsEntry authFormat e)
    (hd : DistinctEntries authFormat es) :
    (es.filter fun e => isInDeletedTransition e 0).foldl (promoteEntry authFormat)
        (es.filter fun e => isAdded e 0) = reclaimedEntries authFormat es := by
  have hkey : ∀ e ∈ es.filter fun e => isInDeletedTransition e 0,
      keyOf authFormat (promote e) = keyOf authFormat e := by
    intro e he
    rw [mem_filter] at he
    exact keyOf_promote (hes e he.1) (inUse_of_transition he.2)
  rw [foldl_promoteEntry (pairwise_transition hd) hkey, reclaimedEntries, promotedEntries, filter_filter]
  refine congrArg (fun l : List Bytes => _ ++ map promote l) (filter_congr fun e _ => ?_)
  rw [any_added, Bool.and_comm]

theorem length_flatten_filter_le (p : Bytes → Bool) (es : List Bytes) :
    (es.filter p).flatten.length ≤ es.flatten.length := by
  induction es with
  | nil => exact le_rfl
  | cons e es ih =>
    rw [filter_cons]
    split
    · rw [flatten_cons, flatten_cons, length_append, length_append]
      omega
    · rw [flatten_cons, length_append]
      omega

theorem isAdded_promote (he : IsEntry authFormat e) : isAdded (promote e) 0 = true := by
  rw [isAdded, promote, state_setState he, beq_iff_eq]

theorem length_promote (he : IsEntry authFormat e) : (promote e).length = e.length := length_setState he

theorem length_reclaimedEntries_le (hes : ∀ e ∈ es, IsEntry authFormat e) :
    (reclaimedEntries authFormat es).flatten.length ≤ (es.filter inUse).flatten.length := by
  have h : ∀ (q : Bytes → Bool), ∀ ds : List Bytes, (∀ e ∈ ds, IsEntry authFormat e) →
      (∀ e ∈ ds, q e = true → isInDeletedTransition e 0 = true) →
      (ds.filter fun e => isAdded e 0).flatten.length +
        ((ds.filter q).map promote).flatten.length ≤ (ds.filter inUse).flatten.length := by
    intro q ds hds hq
    induction ds with
    | nil => exact le_rfl
    | cons e ds ih =>
      have ih' := ih (fun d hd => hds d (mem_cons_of_mem _ hd))
        fun d hd => hq d (mem_cons_of_mem _ hd)
      have hlen := length_promote (hds e mem_cons_self)
      have hqe := hq e mem_cons_self
      cases ha : isAdded e 0 with
      | true =>
        have hqv : q e = false := Bool.eq_false_iff.mpr fun hqv => by
          rw [isAdded_eq_false_of_transition (hqe hqv)] at ha
          exact Bool.false_ne_true ha
        rw [filter_cons_of_pos (by rw [ha]), filter_cons_of_neg (by rw [hqv]; decide),
          filter_cons_of_pos (inUse_of_added ha)]
        simp only [flatten_cons, length_append]
        omega
      | false =>
        rw [filter_cons_of_neg (by rw [ha]; decide)]
        cases hqv : q e with
        | true =>
          rw [filter_cons_of_pos hqv, filter_cons_of_pos (inUse_of_transition (hqe hqv))]
          simp only [map_cons, flatten_cons, length_append]
          omega
        | false =>
          rw [filter_cons_of_neg (by rw [hqv]; decide), filter_cons]
          split
          · simp only [flatten_cons, length_append]
            omega
          · exact ih'
  rw [reclaimedEntries, promotedEntries, flatten_append, length_append]
  refine h _ es hes fun e _ hq => ?_
  rw [Bool.and_eq_true] at hq
  exact hq.1

theorem mem_reclaimedEntries {d : Bytes} (h : d ∈ reclaimedEntries authFormat es) :
    ∃ e ∈ es, inUse e = true ∧ (d = e ∧ isAdded e 0 = true ∨
      d = promote e ∧ isInDeletedTransition e 0 = true ∧ hasAddedTwin authFormat es e = false) := by
  rw [reclaimedEntries, promotedEntries, mem_append, mem_filter, mem_map] at h
  rcases h with ⟨hd,ha⟩ | ⟨e,he,rfl⟩
  · exact ⟨d, hd, inUse_of_added ha, .inl ⟨rfl, ha⟩⟩
  · rw [mem_filter, Bool.and_eq_true, Bool.not_eq_true'] at he
    exact ⟨e, he.1, inUse_of_transition he.2.1, .inr ⟨rfl, he.2⟩⟩

section
variable (hes : ∀ e ∈ es, IsEntry authFormat e)
include hes

theorem isEntry_reclaimedEntries :
    ∀ d ∈ reclaimedEntries authFormat es, IsEntry authFormat d ∧ isAdded d 0 = true := by
  intro d hd
  obtain ⟨e,he,hu,⟨rfl,ha⟩ | ⟨rfl,-⟩⟩ := mem_reclaimedEntries hd
  · exact ⟨hes d he, ha⟩
  · exact ⟨isEntry_promote (hes e he) hu, isAdded_promote (hes e he)⟩

theorem named_reclaimedEntries
    (hn : NamedEntries authFormat es) : NamedEntries authFormat (reclaimedEntries authFormat es) := by
  intro d hd _
  obtain ⟨e,he,hu,⟨rfl,-⟩ | ⟨rfl,-⟩⟩ := mem_reclaimedEntries hd
  · exact hn d he hu
  · rw [keyOf_promote (hes e he) hu]
    exact hn e he hu

theorem entriesOf_reclaimedEntries : entriesOf authFormat (reclaimedEntries authFormat es) k =
      reclaimedEntries authFormat (entriesOf authFormat es k) := by
  have htwin : ∀ e, keyOf authFormat e = k →
      hasAddedTwin authFormat (entriesOf authFormat es k) e = hasAddedTwin authFormat es e := by
    intro e hk
    rw [hasAddedTwin, hasAddedTwin, entriesOf, any_filter]
    refine any_congr_of_mem fun d _ => ?_
    cases ha : isAdded d 0 <;> grind [inUse]
  rw [reclaimedEntries, entriesOf_append, reclaimedEntries]
  refine congrArg₂ (· ++ ·) ?_ ?_
  · rw [entriesOf, entriesOf, filter_filter, filter_filter]
    refine filter_congr fun e _ => ?_
    rw [Bool.and_comm]
  · rw [promotedEntries, promotedEntries, entriesOf, filter_map, filter_filter, entriesOf, filter_filter]
    refine congrArg (map promote) (filter_congr fun e he => ?_)
    have hent := hes e he
    cases ht : isInDeletedTransition e 0 with
    | false => simp
    | true =>
      have hu := inUse_of_transition ht
      have hup : inUse (promote e) = true := inUse_of_added (isAdded_promote hent)
      have hk := keyOf_promote hent hu
      simp only [Function.comp, hup, hk, hu, Bool.true_and]
      by_cases hkey : keyOf authFormat e = k
      · have hte := htwin e hkey
        rw [entriesOf] at hte
        rw [hte, hkey, beq_self_eq_true, Bool.true_and, Bool.and_true]
      · rw [beq_eq_false_iff_ne.mpr hkey, Bool.false_and, Bool.and_false]

end

theorem reclaimedEntries_nil : reclaimedEntries authFormat [] = [] := rfl

theorem reclaimedEntries_added (ha : isAdded e 0 = true) : reclaimedEntries authFormat [e] = [e] := by
  have ht := isInDeletedTransition_eq_false_of_added ha
  simp [reclaimedEntries, promotedEntries, ha, ht]

theorem reclaimedEntries_transition (ht : isInDeletedTransition e 0 = true) :
    reclaimedEntries authFormat [e] = [promote e] := by
  have ha := isAdded_eq_false_of_transition ht
  simp [reclaimedEntries, promotedEntries, hasAddedTwin, ha, ht]

theorem reclaimedEntries_twins {d : Bytes} (hk : keyOf authFormat d = keyOf authFormat e)
    (h : isAdded d 0 = true ∧ isInDeletedTransition e 0 = true ∨
      isInDeletedTransition d 0 = true ∧ isAdded e 0 = true) :
    reclaimedEntries authFormat [d, e] = if isAdded d 0 then [d] else [e] := by
  rcases h with ⟨ha,ht⟩ | ⟨ht,ha⟩
  · have ha' := isAdded_eq_false_of_transition ht
    have ht' := isInDeletedTransition_eq_false_of_added ha
    simp [reclaimedEntries, promotedEntries, hasAddedTwin, ha, ht, ha', ht', hk]
  · have ha' := isAdded_eq_false_of_transition ht
    have ht' := isInDeletedTransition_eq_false_of_added ha
    simp [reclaimedEntries, promotedEntries, hasAddedTwin, ha, ht, ha', ht', hk]

def TwinsAgree (authFormat atRuntime ignoreRtCheck : Bool) (es : List Bytes) : Prop :=
  ∀ d ∈ es, ∀ e ∈ es, inUse d = true → inUse e = true → keyOf authFormat d = keyOf authFormat e →
      isAccessible atRuntime ignoreRtCheck d 0 = isAccessible atRuntime ignoreRtCheck e 0

theorem isAccessible_promote {rt ign : Bool} (he : IsEntry authFormat e)
    (hu : inUse e = true) : isAccessible rt ign (promote e) 0 = isAccessible rt ign e 0 := by
  rw [promote, isAccessible_setState he, beq_self_eq_true, Bool.true_or, Bool.true_and, isAccessible,
    ← inUse, hu, Bool.true_and]

theorem valueOf_setState {s : UInt8} (he : IsEntry authFormat e)
    (hu : inUse e = true) (hs : s ≠ 0xff) : valueOf authFormat (setState e s) = valueOf authFormat e := by
  rw [valueOf, valueOf, attributes_setState he, dataOf_setState he (state_ne_of_inUse hu) hs]

theorem contents_reclaimedEntries {rt ign : Bool} (hes : ∀ e ∈ es, IsEntry authFormat e)
    (hd : DistinctEntries authFormat es) (hacc : TwinsAgree authFormat rt ign es) :
    contents authFormat rt ign (reclaimedEntries authFormat es) k = contents authFormat rt ign es k := by
  have hmem : ∀ e ∈ entriesOf authFormat es k,
      e ∈ es ∧ inUse e = true ∧ keyOf authFormat e = k := fun e he => mem_entriesOf.mp he
  rw [contents, contents, entriesOf_reclaimedEntries hes]
  rcases entriesOf_cases hd k with h | ⟨e,h⟩ | ⟨d,e,h,hs⟩
  · rw [h, reclaimedEntries_nil]
  · rw [h] at hmem ⊢
    obtain ⟨he,hu,-⟩ := hmem e (by simp)
    rcases StoreImage.added_or_transition (x := (0,e)) hu with ha | ⟨-,ht⟩
    · rw [reclaimedEntries_added ha]
    rw [reclaimedEntries_transition ht, pick_singleton, pick_singleton, isAccessible_promote (hes e he) hu]
    split
    · exact congrArg some (valueOf_setState (hes e he) hu varAdded_ne)
    · rfl
  · rw [h] at hmem ⊢
    obtain ⟨hdm,hdu,hdk⟩ := hmem d (by simp)
    obtain ⟨hem,heu,hek⟩ := hmem e (by simp)
    have hagree := hacc d hdm e hem hdu heu (hdk.trans hek.symm)
    rw [reclaimedEntries_twins (hdk.trans hek.symm) hs]
    cases hda : isAccessible rt ign d 0 with
    | false =>
      have hnone : pick rt ign [d, e] = none := by
        rw [← Option.not_isSome_iff_eq_none, pick_isSome_iff]
        rintro ⟨x,hx,hax⟩
        simp only [mem_cons, not_mem_nil, or_false] at hx
        rcases hx with rfl | rfl
        · rw [hda] at hax
          exact Bool.false_ne_true hax
        · rw [← hagree, hda] at hax
          exact Bool.false_ne_true hax
      rw [hnone]
      split
      · rw [pick_singleton, hda, if_ff]
      · rw [pick_singleton, ← hagree, hda, if_ff]
    | true =>
      rcases hs with ⟨ha,ht⟩ | ⟨ht,ha⟩
      · rw [if_pos ha, pick_singleton, hda, if_pos rfl]
        exact congrArg _ (@pick_added rt ign d [] [e] (by simp) hda ha).symm
      · have hd' := isAdded_eq_false_of_transition ht
        rw [hd', if_ff, pick_singleton, ← hagree, hda, if_pos rfl]
        exact congrArg _ (@pick_added rt ign e [d] [] (by simpa using hd') (hagree.symm.trans hda) ha).symm

theorem distinct_reclaimedEntries (hes : ∀ e ∈ es, IsEntry authFormat e)
    (hd : DistinctEntries authFormat es) :
    (reclaimedEntries authFormat es).Pairwise fun d e => keyOf authFormat d ≠ keyOf authFormat e := by
  have hst : ∀ p : Bytes → Bool, (∀ d e, p d = true → p e = true → state d 0 = state e 0) →
      (∀ d, p d = true → inUse d = true) →
        (es.filter p).Pairwise fun d e => keyOf authFormat d ≠ keyOf authFormat e := by
    intro p hp hu
    refine (hd.filter _).imp_of_mem ?_
    intro d e hmd hme h hk
    have hpd := (mem_filter.mp hmd).2
    have hf := h hk (hp d e hpd (mem_filter.mp hme).2)
    rw [hu d hpd] at hf
    exact Bool.noConfusion hf
  rw [reclaimedEntries, pairwise_append]
  refine ⟨?_, ?_, ?_⟩
  · exact hst _ (fun d e => StoreImage.state_eq_of_added (x := (0,d)) (y := (0,e)))
      fun d => inUse_of_added
  · rw [promotedEntries, pairwise_map]
    refine (hst _ ?_ ?_).imp_of_mem ?_
    · intro d e hpd hpe
      rw [Bool.and_eq_true] at hpd hpe
      exact StoreImage.state_eq_of_transition (x := (0,d)) (y := (0,e)) hpd.1 hpe.1
    · intro d hpd
      rw [Bool.and_eq_true] at hpd
      exact inUse_of_transition hpd.1
    · intro d e hmd hme hne
      rw [mem_filter, Bool.and_eq_true] at hmd hme
      rwa [keyOf_promote (hes d hmd.1) (inUse_of_transition hmd.2.1),
        keyOf_promote (hes e hme.1) (inUse_of_transition hme.2.1)]
  · intro d hdm x hx
    rw [promotedEntries, mem_map] at hx
    obtain ⟨e,he,rfl⟩ := hx
    rw [mem_filter] at hdm he
    rw [Bool.and_eq_true, Bool.not_eq_true', hasAddedTwin, any_eq_false] at he
    rw [keyOf_promote (hes e he.1) (inUse_of_transition he.2.1)]
    intro hk
    have := he.2.2 d hdm.1
    rw [hdm.2, hk, beq_self_eq_true] at this
    exact this rfl

theorem entriesOf_sparedEntries (m : StoreImage authFormat)
    (h : ∀ x ∈ m.locatedEntries, spares updating x.1 = false → inUse x.2 = true → keyOf authFormat x.2 ≠ k) :
    entriesOf authFormat (m.sparedEntries updating) k = entriesOf authFormat m.entries k := by
  conv_rhs => rw [← located_map_snd getStartPointer m.entries, ← StoreImage.locatedEntries]
  rw [entriesOf, entriesOf, StoreImage.sparedEntries, filter_map, filter_map, filter_filter]
  refine congrArg (map _) (filter_congr fun x hx => ?_)
  have := h x hx
  cases hs : spares updating x.1 <;> cases hu : inUse x.2 <;> simp_all

theorem entriesOf_sparedEntries_nil (m : StoreImage authFormat)
    (h : ∀ x ∈ m.locatedEntries, inUse x.2 = true → keyOf authFormat x.2 = k →
      spares updating x.1 = false) : entriesOf authFormat (m.sparedEntries updating) k = [] := by
  rw [entriesOf, StoreImage.sparedEntries, filter_map, filter_filter, map_eq_nil_iff, filter_eq_nil_iff]
  intro x hx hf
  simp only [Function.comp, Bool.and_eq_true, beq_iff_eq] at hf
  rw [h x hx hf.1.1 hf.1.2] at hf
  exact Bool.false_ne_true hf.2

end

end Liano.Variable
