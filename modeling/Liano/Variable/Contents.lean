import Liano.Variable.StoreEdits

/-! The map from variables to values that the entries of a store stand for. It depends, for each
variable, on the entries of that variable only. -/
namespace Liano.Variable

open List hiding lookup

def NamedEntries (authFormat : Bool) (es : List Bytes) : Prop :=
  ∀ e ∈ es, inUse e = true → IsVariableName (keyOf authFormat e).name

/-- A name has at most one ADDED and one IN_DELETED_TRANSITION entry. -/
def DistinctEntries (authFormat : Bool) (es : List Bytes) : Prop := es.Pairwise fun d e =>
    keyOf authFormat d = keyOf authFormat e → state d 0 = state e 0 → inUse d = false

def valueOf (authFormat : Bool) (e : Bytes) : UInt32 × Bytes := (attributes e 0, dataOf authFormat e 0)

def entriesOf (authFormat : Bool) (es : List Bytes) (k : VariableKey) : List Bytes :=
  es.filter fun e => inUse e && keyOf authFormat e == k

def pick (atRuntime ignoreRtCheck : Bool) (es : List Bytes) : Option Bytes :=
  (es.find? fun e => isAccessible atRuntime ignoreRtCheck e 0 && isAdded e 0).or
    (es.reverse.find? fun e => isAccessible atRuntime ignoreRtCheck e 0 && isInDeletedTransition e 0)

def contents (authFormat atRuntime ignoreRtCheck : Bool) (es : List Bytes) (k : VariableKey) :
    Option (UInt32 × Bytes) :=
  (pick atRuntime ignoreRtCheck (entriesOf authFormat es k)).map (valueOf authFormat)

/-- The attributes and the data that a scan of a store by `FindVariableEx` leads to. -/
def seenIn (authFormat atRuntime ignoreRtCheck : Bool) (b : Bytes) (k : VariableKey) :
    Option (UInt32 × Bytes) :=
  (findVariableEx authFormat atRuntime k.name k.vendorGuid ignoreRtCheck b).1.currPtr.map fun p =>
    (attributes b p, dataOf authFormat b p)

section
variable {auth atRuntime ign : Bool} {k : VariableKey}

theorem pick_entriesOf (l : List (Nat × Bytes)) :
    pick atRuntime ign (entriesOf auth (l.map (·.2)) k) =
      (findEntry (fun e => isAccessible atRuntime ign e 0 && keyOf auth e == k)
        l).map (·.2) := by
  have hacc : ∀ e : Bytes, isAccessible atRuntime ign e 0 = true → inUse e = true :=
    fun e h => inUse_of_accessible h
  rw [pick, entriesOf, findEntry, ← filter_reverse, find?_filter, find?_filter,
    ← map_reverse, find?_map, find?_map, Option.map_or]
  refine congrArg₂ Option.or ?_ ?_
  · refine congrArg _ (find?_congr fun x _ => ?_)
    cases ha : isAccessible atRuntime ign x.2 0 <;> grind
  · refine congrArg _ (find?_congr fun x _ => ?_)
    cases ha : isAccessible atRuntime ign x.2 0 <;> grind

theorem StoreImage.seenIn_bytes (m : StoreImage auth)
    (hn : NamedEntries auth m.entries) (hk : IsVariableName k.name) :
    seenIn auth atRuntime ign m.bytes k =
      contents auth atRuntime ign m.entries k := by
  have hfind : (findVariableEx auth atRuntime k.name k.vendorGuid ign
      m.bytes).1.currPtr = (m.lookup atRuntime ign k).map (·.1) := by
    have h : (findVariableEx auth atRuntime (k.name ++ []) k.vendorGuid ign
        m.bytes).1.currPtr = (m.lookup atRuntime ign k).map (·.1) := findVariableEx_key hn hk []
    rwa [append_nil] at h
  have hpick : pick atRuntime ign (entriesOf auth m.entries k) =
      (m.lookup atRuntime ign k).map (·.2) := by
    have h : pick atRuntime ign (entriesOf auth (m.locatedEntries.map (·.2)) k) =
        (m.lookup atRuntime ign k).map (·.2) := pick_entriesOf m.locatedEntries
    rwa [locatedEntries, located_map_snd] at h
  rw [seenIn, contents, hfind, hpick, Option.map_map, Option.map_map]
  cases hl : m.lookup atRuntime ign k with
  | none => rfl
  | some x =>
    have hx : x ∈ m.locatedEntries := by
      rw [lookup, findEntry, Option.or_eq_some_iff] at hl
      rcases hl with h | ⟨-,h⟩
      · exact mem_of_find?_eq_some h
      · exact mem_reverse.mp (mem_of_find?_eq_some h)
    have he := isEntry_of_mem hx
    have hat := holdsAt hx
    simp only [Option.map_some, Function.comp, valueOf, attributes_of_holdsAt he hat,
      dataOf_of_holdsAt he hat]

theorem entriesOf_append (es es' : List Bytes) :
    entriesOf auth (es ++ es') k = entriesOf auth es k ++ entriesOf auth es' k :=
  filter_append ..

variable {e : Bytes} {es : List Bytes}

theorem entriesOf_cons_pos (es : List Bytes) (hu : inUse e = true) (hk : keyOf auth e = k) :
    entriesOf auth (e :: es) k = e :: entriesOf auth es k := filter_cons_of_pos (by simp [hu, hk])

theorem entriesOf_cons_neg (es : List Bytes) (h : inUse e = false ∨ keyOf auth e ≠ k) :
    entriesOf auth (e :: es) k = entriesOf auth es k :=
  filter_cons_of_neg (by rcases h with h | h <;> simp [h])

theorem mem_entriesOf : e ∈ entriesOf auth es k ↔ e ∈ es ∧ inUse e = true ∧ keyOf auth e = k := by
  rw [entriesOf, mem_filter, Bool.and_eq_true, beq_iff_eq]

/-- A well-formed store has no, one or two entries in use of a variable, and two only as an ADDED
one and its IN_DELETED_TRANSITION twin. -/
theorem entriesOf_cases (hd : DistinctEntries auth es) (k : VariableKey) :
    entriesOf auth es k = [] ∨ (∃ e, entriesOf auth es k = [e]) ∨
      ∃ d e, entriesOf auth es k = [d, e] ∧ (isAdded d 0 = true ∧ isInDeletedTransition e 0 = true ∨
          isInDeletedTransition d 0 = true ∧ isAdded e 0 = true) := by
  have hpair : (entriesOf auth es k).Pairwise fun d e => state d 0 ≠ state e 0 := by
    refine (hd.filter _).imp_of_mem ?_
    intro d e hmd hme h hs
    have hmd' := mem_entriesOf.mp hmd
    have hme' := mem_entriesOf.mp hme
    have hf := h (hmd'.2.2.trans hme'.2.2.symm) hs
    rw [hmd'.2.1] at hf
    exact Bool.noConfusion hf
  have huse : ∀ e ∈ entriesOf auth es k, inUse e = true := fun e he => (mem_entriesOf.mp he).2.1
  generalize entriesOf auth es k = l at hpair huse
  have hstate : ∀ {d e : Bytes}, inUse d = true → inUse e = true → state d 0 ≠ state e 0 →
      isAdded d 0 = true ∧ isInDeletedTransition e 0 = true ∨
        isInDeletedTransition d 0 = true ∧ isAdded e 0 = true := by
    intro d e hd he hne
    simp only [inUse, isAdded, isInDeletedTransition, Bool.or_eq_true, beq_iff_eq] at hd he ⊢
    rcases hd with hd | hd
    · rcases he with he | he
      · exact absurd (hd.trans he.symm) hne
      · exact .inl ⟨hd, he⟩
    · rcases he with he | he
      · exact .inr ⟨hd, he⟩
      · exact absurd (hd.trans he.symm) hne
  rcases l with _ | ⟨d,_ | ⟨e,_ | ⟨f,l⟩⟩⟩
  · exact .inl rfl
  · exact .inr (.inl ⟨d, rfl⟩)
  · refine .inr (.inr ⟨d, e, rfl, hstate (huse d (by simp)) (huse e (by simp)) ?_⟩)
    exact (pairwise_cons.mp hpair).1 e (by simp)
  -- of three entries in use two have the same state
  have hd := huse d (by simp)
  have he := huse e (by simp)
  have hf := huse f (by simp)
  simp only [inUse, isAdded, isInDeletedTransition, Bool.or_eq_true, beq_iff_eq] at hd he hf
  grind

theorem isInDeletedTransition_eq_false_of_added {b : Bytes} {p : Nat} (h : isAdded b p = true) :
    isInDeletedTransition b p = false := by
  cases ht : isInDeletedTransition b p with
  | false => rfl
  | true =>
    rw [isAdded_eq_false_of_transition ht] at h
    exact absurd h Bool.false_ne_true

theorem isAccessible_ignore (rt : Bool) (e : Bytes) : isAccessible rt true e 0 = inUse e := by
  rw [isAccessible, Bool.true_or, Bool.true_or, Bool.and_true, inUse]

theorem isAccessible_bootTime (ign : Bool) (e : Bytes) : isAccessible false ign e 0 = inUse e := by
  rw [isAccessible, Bool.not_false, Bool.or_true, Bool.true_or, Bool.and_true, inUse]

theorem pick_nil : pick atRuntime ign [] = none := rfl

theorem pick_singleton (e : Bytes) : pick atRuntime ign [e] =
      if isAccessible atRuntime ign e 0 then some e else none := by
  cases ha : isAccessible atRuntime ign e 0 with
  | false => simp [pick, ha]
  | true =>
    rcases StoreImage.added_or_transition (x := (0,e)) (inUse_of_accessible ha) with h | ⟨h,ht⟩
    · simp [pick, ha, h]
    · simp [pick, ha, h, ht]

theorem pick_added {pre post : List Bytes} (hpre : ∀ d ∈ pre, isAdded d 0 = false)
    (hacc : isAccessible atRuntime ign e 0 = true) (ha : isAdded e 0 = true) :
    pick atRuntime ign (pre ++ e :: post) = some e := by
  have hnone : pre.find? (fun d => isAccessible atRuntime ign d 0 && isAdded d 0) = none :=
    find?_eq_none.mpr fun d hd => by simp [hpre d hd]
  rw [pick, find?_append, hnone, Option.none_or, find?_cons_of_pos (by simp [hacc, ha]),
    Option.some_or]

theorem pick_transition {pre : List Bytes} (hpre : ∀ d ∈ pre, isAdded d 0 = false)
    (hacc : isAccessible atRuntime ign e 0 = true) (ht : isInDeletedTransition e 0 = true) :
    pick atRuntime ign (pre ++ [e]) = some e := by
  have hnone : (pre ++ [e]).find?
      (fun d => isAccessible atRuntime ign d 0 && isAdded d 0) = none := by
    refine find?_eq_none.mpr fun d hd => ?_
    rcases mem_append.mp hd with hd | hd
    · simp [hpre d hd]
    · rw [mem_singleton.mp hd, isAdded_eq_false_of_transition ht]
      simp
  rw [pick, hnone, Option.none_or, reverse_append, reverse_singleton,
    singleton_append, find?_cons_of_pos (by simp [hacc, ht])]

theorem pick_isSome_iff : (pick atRuntime ign es).isSome = true ↔
      ∃ e ∈ es, isAccessible atRuntime ign e 0 = true := by
  rw [pick, Option.isSome_or, Bool.or_eq_true, find?_isSome, find?_isSome]
  constructor
  · rintro (⟨e,he,h⟩ | ⟨e,he,h⟩)
    · exact ⟨e, he, (Bool.and_eq_true _ _ ▸ h).1⟩
    · exact ⟨e, mem_reverse.mp he, (Bool.and_eq_true _ _ ▸ h).1⟩
  · rintro ⟨e,he,h⟩
    rcases StoreImage.added_or_transition (x := (0,e)) (inUse_of_accessible h) with ha | ⟨-,ht⟩
    · exact .inl ⟨e, he, by simp_all⟩
    · exact .inr ⟨e, mem_reverse.mpr he, by simp_all⟩

end

end Liano.Variable
