import Mathlib.Data.List.Find
import Mathlib.Data.List.Pairwise
import Liano.Variable.StoreImage

/-! Lookups in well-formed stores: which entry `FindVariableEx` finds. -/
namespace Liano.Variable

open List hiding lookup lookup_eq_some_iff

open Bytes (slice HoldsAt)

section
variable {matching : Nat → Bool} {b : Bytes}

theorem findVariableLoop_transition {d : Option Nat} {ps : List Nat}
    (h : ∀ p ∈ ps, matching p = true → isInDeletedTransition b p = true) :
    findVariableLoop matching b d ps = ⟨(ps.reverse.find? matching).or d, none⟩ := by
  induction ps generalizing d with
  | nil => rfl
  | cons p ps ih =>
    have ih' := fun d => ih (d := d) fun q hq => h q (mem_cons_of_mem _ hq)
    rw [findVariableLoop, reverse_cons, find?_append]
    by_cases hm : matching p = true
    · rw [if_pos hm, if_pos (h p mem_cons_self hm), ih', find?_cons_of_pos hm,
        Option.or_assoc, Option.some_or]
    · rw [if_neg hm, ih', find?_cons_of_neg hm, find?_nil, Option.or_none]

/-- The first ADDED match ends the loop, with the last IN_DELETED_TRANSITION match before it. -/
theorem findVariableLoop_added {d : Option Nat} {pre post : List Nat} {p : Nat}
    (hpre : ∀ q ∈ pre, matching q = true → isInDeletedTransition b q = true)
    (hm : matching p = true) (hp : isInDeletedTransition b p = false) :
    findVariableLoop matching b d (pre ++ p :: post) = ⟨some p, (pre.reverse.find? matching).or d⟩ := by
  induction pre generalizing d with
  | nil => simp only [nil_append, findVariableLoop, hm, hp, if_true, Bool.false_eq_true,
      if_false, reverse_nil, find?_nil, Option.none_or]
  | cons q pre ih =>
    have ih' := fun d => ih (d := d) fun r hr => hpre r (mem_cons_of_mem _ hr)
    rw [cons_append, findVariableLoop, reverse_cons, find?_append]
    by_cases hq : matching q = true
    · rw [if_pos hq, if_pos (hpre q mem_cons_self hq), ih', find?_cons_of_pos hq,
        Option.or_assoc, Option.some_or]
    · rw [if_neg hq, ih', find?_cons_of_neg hq, find?_nil, Option.or_none]

end

theorem isAdded_eq_false_of_transition {b : Bytes} {p : Nat}
    (h : isInDeletedTransition b p = true) : isAdded b p = false := by
  simp only [isInDeletedTransition, isAdded, beq_iff_eq] at h ⊢
  rw [h]
  decide

def inUse (e : Bytes) : Bool := isAdded e 0 || isInDeletedTransition e 0

/-- The entry a lookup finds among those that match: the first ADDED one, or else the last
IN_DELETED_TRANSITION one. -/
def findEntry (matching : Bytes → Bool) (l : List (Nat × Bytes)) : Option (Nat × Bytes) :=
  (l.find? fun x => matching x.2 && isAdded x.2 0).or
    (l.reverse.find? fun x => matching x.2 && isInDeletedTransition x.2 0)

def lookupMatches (authFormat atRuntime : Bool) (variableName vendorGuid : Bytes)
    (ignoreRtCheck : Bool) (e : Bytes) : Bool :=
  isAccessible atRuntime ignoreRtCheck e 0 && nameMatches authFormat variableName vendorGuid e 0

section
variable {auth atRuntime ign : Bool} {variableName vendorGuid : Bytes}

theorem inUse_of_accessible {e : Bytes} (h : isAccessible atRuntime ign e 0 = true) :
    inUse e = true := by
  rw [isAccessible, Bool.and_eq_true] at h
  exact h.1

theorem inUse_of_lookupMatches {e : Bytes}
    (h : lookupMatches auth atRuntime variableName vendorGuid ign e = true) :
    inUse e = true := by
  rw [lookupMatches, Bool.and_eq_true] at h
  exact inUse_of_accessible h.1

theorem transition_of_inUse {e : Bytes} (h : inUse e = true) (ha : isAdded e 0 = false) :
    isInDeletedTransition e 0 = true := by rwa [inUse, ha, Bool.false_or] at h

namespace StoreImage
variable {m : StoreImage auth} {x : Nat × Bytes}

theorem lookupMatches_bytes (h : x ∈ m.locatedEntries) : (isAccessible atRuntime ign m.bytes x.1 &&
        nameMatches auth variableName vendorGuid m.bytes x.1) =
      lookupMatches auth atRuntime variableName vendorGuid ign x.2 := by
  rw [lookupMatches, accessible_of_holdsAt (isEntry_of_mem h) (holdsAt h),
    nameMatches_of_holdsAt (isEntry_of_mem h) (holdsAt h)]

theorem isAdded_bytes (h : x ∈ m.locatedEntries) : isAdded m.bytes x.1 = isAdded x.2 0 := by
  rw [isAdded, isAdded, state_of_holdsAt (isEntry_of_mem h) (holdsAt h)]

theorem isInDeletedTransition_bytes (h : x ∈ m.locatedEntries) :
    isInDeletedTransition m.bytes x.1 = isInDeletedTransition x.2 0 := by
  rw [isInDeletedTransition, isInDeletedTransition, state_of_holdsAt (isEntry_of_mem h) (holdsAt h)]

/-- The search of `findVariableLoop` in the reversed offsets of some entries of the store. -/
theorem find?_offsets {l : List (Nat × Bytes)} (hl : ∀ y ∈ l, y ∈ m.locatedEntries) :
    (l.map (·.1)).find? (fun p => isAccessible atRuntime ign m.bytes p &&
        nameMatches auth variableName vendorGuid m.bytes p) =
      (l.find? fun y => lookupMatches auth atRuntime variableName vendorGuid
        ign y.2).map (·.1) := by
  induction l with
  | nil => rfl
  | cons y l ih =>
    have hy : (isAccessible atRuntime ign m.bytes y.1 &&
        nameMatches auth variableName vendorGuid m.bytes y.1) =
          lookupMatches auth atRuntime variableName vendorGuid ign y.2 :=
      lookupMatches_bytes (hl y mem_cons_self)
    rw [map_cons, find?_cons, find?_cons, hy, ih fun z hz => hl z (mem_cons_of_mem _ hz)]
    cases lookupMatches auth atRuntime variableName vendorGuid ign y.2 <;> rfl

theorem findVariableEx_added {pre post : List (Nat × Bytes)} (hl : m.locatedEntries = pre ++ x :: post)
    (hx : lookupMatches auth atRuntime variableName vendorGuid ign x.2 = true)
    (ha : isAdded x.2 0 = true) (hpre : ∀ y ∈ pre,
      lookupMatches auth atRuntime variableName vendorGuid ign y.2 = true →
        isAdded y.2 0 = false) :
    findVariableEx auth atRuntime variableName vendorGuid ign m.bytes =
      (⟨some x.1, (pre.reverse.find? fun y =>
        lookupMatches auth atRuntime variableName vendorGuid ign y.2).map (·.1)⟩,
        .success) := by
  have hmem : x ∈ m.locatedEntries := by rw [hl]; exact mem_append_right _ mem_cons_self
  have hpremem : ∀ y ∈ pre, y ∈ m.locatedEntries := fun y hy => by rw [hl]; exact mem_append_left _ hy
  have hnot : isInDeletedTransition m.bytes x.1 = false := by
    rw [isInDeletedTransition_bytes hmem, Bool.eq_false_iff]
    intro ht
    rw [isAdded_eq_false_of_transition ht] at ha
    exact Bool.false_ne_true ha
  rw [findVariableEx, m.headers_bytes, hl, map_append, map_cons,
    findVariableLoop_added ?_ ((lookupMatches_bytes hmem).trans hx) hnot]
  · rw [← map_reverse, find?_offsets fun y hy => hpremem y (mem_reverse.mp hy), Option.or_none]
    rfl
  · rintro p hp hm
    obtain ⟨y,hy,rfl⟩ := mem_map.mp hp
    rw [lookupMatches_bytes (hpremem y hy)] at hm
    rw [isInDeletedTransition_bytes (hpremem y hy)]
    exact transition_of_inUse (inUse_of_lookupMatches hm) (hpre y hy hm)

theorem findVariableEx_transition
    (h : ∀ y ∈ m.locatedEntries,
      lookupMatches auth atRuntime variableName vendorGuid ign y.2 = true →
        isAdded y.2 0 = false) :
    (findVariableEx auth atRuntime variableName vendorGuid ign m.bytes).1 =
      ⟨(m.locatedEntries.reverse.find? fun y =>
        lookupMatches auth atRuntime variableName vendorGuid ign y.2).map (·.1), none⟩ := by
  rw [findVariableEx, m.headers_bytes, findVariableLoop_transition ?_]
  · rw [← map_reverse, find?_offsets fun y hy => mem_reverse.mp hy, Option.or_none]
  · rintro p hp hm
    obtain ⟨y,hy,rfl⟩ := mem_map.mp hp
    rw [lookupMatches_bytes hy] at hm
    rw [isInDeletedTransition_bytes hy]
    exact transition_of_inUse (inUse_of_lookupMatches hm) (h y hy hm)

theorem findVariableEx_currPtr :
    (findVariableEx auth atRuntime variableName vendorGuid ign m.bytes).1.currPtr =
      (findEntry (lookupMatches auth atRuntime variableName vendorGuid ign)
        m.locatedEntries).map (·.1) := by
  rw [findEntry]
  cases hf : m.locatedEntries.find? fun x =>
      lookupMatches auth atRuntime variableName vendorGuid ign x.2 &&
        isAdded x.2 0 with
  | some x =>
    obtain ⟨hx,pre,post,hl,hpre⟩ := find?_eq_some_iff_append.mp hf
    rw [Bool.and_eq_true] at hx
    rw [findVariableEx_added hl hx.1 hx.2]
    · rfl
    · intro y hy hm
      have := hpre y hy
      rw [hm, Bool.true_and, Bool.not_eq_true'] at this
      exact this
  | none =>
    have hnone : ∀ y ∈ m.locatedEntries,
        lookupMatches auth atRuntime variableName vendorGuid ign y.2 = true →
          isAdded y.2 0 = false := by
      intro y hy hm
      have := find?_eq_none.mp hf y hy
      rwa [hm, Bool.true_and, Bool.not_eq_true] at this
    rw [findVariableEx_transition hnone, Option.none_or]
    refine congrArg (Option.map fun x : Nat × Bytes => x.1) (find?_congr ?_)
    intro y hy
    cases hm : lookupMatches auth atRuntime variableName vendorGuid ign y.2 with
    | false => rfl
    | true =>
      rw [transition_of_inUse (inUse_of_lookupMatches hm) (hnone y (mem_reverse.mp hy) hm)]
      rfl

end StoreImage
end

structure IsVariableName (variableName : Bytes) : Prop where
  nonempty : isEmptyName variableName = false
  terminated : strSize variableName = variableName.length

theorem strSize_append {n : Bytes} (h : strSize n = n.length) (s : Bytes) : strSize (n ++ s) = n.length := by
  induction n using strSize.induct with
  | case1 lo hi t ht =>
    rw [strSize, if_pos ht] at h
    rw [cons_append, cons_append, strSize, if_pos ht, h]
  | case2 lo hi t ht ih =>
    rw [strSize, if_neg ht, length_cons, length_cons] at h
    rw [cons_append, cons_append, strSize, if_neg ht, ih (by omega), length_cons, length_cons]
    omega
  | case3 t ht =>
    match t, ht with
    | [], _ => cases h
    | [_], _ => cases h
    | lo :: hi :: t, ht => exact absurd rfl (ht lo hi t)

theorem two_le_strSize (n : Bytes) : 2 ≤ strSize n := by
  induction n using strSize.induct with
  | case1 lo hi t ht => rw [strSize, if_pos ht]
  | case2 lo hi t ht ih =>
    rw [strSize, if_neg ht]
    omega
  | case3 t ht => rw [strSize.eq_2 t ht]

theorem isEmptyName_append {n : Bytes} (h : 2 ≤ n.length) (s : Bytes) :
    isEmptyName (n ++ s) = isEmptyName n := by
  rw [isEmptyName, isEmptyName, uintAt, uintAt, Bytes.slice_append_left s (by omega)]

theorem IsVariableName.two_le {n : Bytes} (h : IsVariableName n) : 2 ≤ n.length :=
  h.terminated ▸ two_le_strSize n

theorem IsVariableName.take_append_eq_iff {n d : Bytes} (hn : IsVariableName n)
    (hd : IsVariableName d) (s : Bytes) : (n ++ s).take d.length = d ↔ n = d := by
  constructor
  · intro h
    have hsplit : n ++ s = d ++ (n ++ s).drop d.length := by
      rw [← h, length_take, length_append, ← h, length_take]
      simp
    have hlen : n.length = d.length := by
      rw [← strSize_append hn.terminated s, hsplit, strSize_append hd.terminated]
    rw [← h, ← hlen, take_left]
  · rintro rfl
    exact take_left

def keyOf (authFormat : Bool) (e : Bytes) : VariableKey := keyAt authFormat e 0

theorem length_nameOf {auth : Bool} {e : Bytes} (he : IsEntry auth e) :
    (nameOf auth e 0).length = nameSizeOfVariable auth e 0 := Bytes.length_slice he.name_le

theorem nameMatches_iff {auth : Bool} {k : VariableKey} {e : Bytes}
    (hk : IsVariableName k.name) (he : IsEntry auth e)
    (hn : IsVariableName (keyOf auth e).name) (s : Bytes) :
    nameMatches auth (k.name ++ s) k.vendorGuid e 0 = true ↔ keyOf auth e = k := by
  have hlen : nameSizeOfVariable auth e 0 = (keyOf auth e).name.length := (length_nameOf he).symm
  have htake := hk.take_append_eq_iff hn s
  rw [nameMatches, isEmptyName_append hk.two_le, hk.nonempty, Bool.false_or, Bool.and_eq_true,
    beq_iff_eq, beq_iff_eq, hlen]
  constructor
  · rintro ⟨hg,hnm⟩
    cases k
    simp only [keyOf, keyAt, VariableKey.mk.injEq] at hg hnm htake ⊢
    exact ⟨(htake.mp hnm).symm, hg.symm⟩
  · rintro rfl
    exact ⟨rfl, htake.mpr rfl⟩

/-- Names are strings, and a name has at most one ADDED and one IN_DELETED_TRANSITION entry. -/
structure StoreImage.WellFormed {authFormat : Bool} (m : StoreImage authFormat) : Prop where
  names : ∀ e ∈ m.entries, inUse e = true → IsVariableName (keyOf authFormat e).name
  distinct : m.entries.Pairwise fun d e =>
    keyOf authFormat d = keyOf authFormat e → state d 0 = state e 0 → inUse d = false

namespace StoreImage
variable {authFormat atRuntime ignoreRtCheck : Bool} {m : StoreImage authFormat}
  {k : VariableKey} {x y : Nat × Bytes}

theorem inUse_of_state {d e : Bytes} (h : state d 0 = state e 0) : inUse d = inUse e := by
  simp only [inUse, isAdded, isInDeletedTransition, h]

theorem WellFormed.eq_of_state (hw : m.WellFormed) (hx : x ∈ m.locatedEntries)
    (hy : y ∈ m.locatedEntries) (hk : keyOf authFormat x.2 = keyOf authFormat y.2)
    (hs : state x.2 0 = state y.2 0) (hu : inUse x.2 = true) : x = y := by
  have hpair := hw.distinct
  rw [← located_map_snd getStartPointer m.entries, pairwise_map] at hpair
  have : Std.Symm fun x y : Nat × Bytes => keyOf authFormat x.2 = keyOf authFormat y.2 →
      state x.2 0 = state y.2 0 → inUse x.2 = false :=
    ⟨fun _ _ h hk hs => (inUse_of_state hs).trans (h hk.symm hs.symm)⟩
  by_contra hne
  rw [hpair.forall hx hy hne hk hs] at hu
  exact Bool.false_ne_true hu

/-- The entry that stands for its variable: ADDED, or IN_DELETED_TRANSITION without an accessible
ADDED twin. -/
def Represents (m : StoreImage authFormat) (atRuntime ignoreRtCheck : Bool) (x : Nat × Bytes) : Prop :=
  isAccessible atRuntime ignoreRtCheck x.2 0 = true ∧ (isAdded x.2 0 = true ∨
      ∀ y ∈ m.locatedEntries, isAccessible atRuntime ignoreRtCheck y.2 0 = true →
        keyOf authFormat y.2 = keyOf authFormat x.2 → isAdded y.2 0 = false)

def lookup (m : StoreImage authFormat) (atRuntime ignoreRtCheck : Bool) (k : VariableKey) :
    Option (Nat × Bytes) :=
  findEntry (fun e => isAccessible atRuntime ignoreRtCheck e 0 && keyOf authFormat e == k)
    m.locatedEntries

section
variable (hn : ∀ e ∈ m.entries, inUse e = true → IsVariableName (keyOf authFormat e).name)
  (hk : IsVariableName k.name)
include hn hk

theorem lookupMatches_iff (hx : x ∈ m.locatedEntries) (s : Bytes) :
    lookupMatches authFormat atRuntime (k.name ++ s) k.vendorGuid ignoreRtCheck x.2 =
      (isAccessible atRuntime ignoreRtCheck x.2 0 && keyOf authFormat x.2 == k) := by
  rw [lookupMatches]
  cases ha : isAccessible atRuntime ignoreRtCheck x.2 0 with
  | false => rfl
  | true =>
    rw [Bool.true_and, Bool.true_and, Bool.eq_iff_iff, beq_iff_eq]
    exact nameMatches_iff hk (isEntry_of_mem hx)
      (hn _ (mem_entries hx) (inUse_of_accessible ha)) s

theorem findVariableEx_key (s : Bytes) :
    (findVariableEx authFormat atRuntime (k.name ++ s) k.vendorGuid ignoreRtCheck
      m.bytes).1.currPtr = (m.lookup atRuntime ignoreRtCheck k).map (·.1) := by
  rw [findVariableEx_currPtr, lookup, findEntry, findEntry]
  refine congrArg (Option.map fun x : Nat × Bytes => x.1) (congrArg₂ Option.or ?_ ?_)
  · apply find?_congr
    intro x hx
    rw [lookupMatches_iff hn hk hx]
  · apply find?_congr
    intro x hx
    rw [lookupMatches_iff hn hk (mem_reverse.mp hx)]

end

theorem find?_eq_some_of_unique {α : Type} {f : α → Bool} {l : List α} {x : α} (hx : x ∈ l)
    (hf : f x = true) (h : ∀ y ∈ l, f y = true → y = x) : l.find? f = some x := by
  cases hl : l.find? f with
  | none => exact absurd hf (find?_eq_none.mp hl x hx)
  | some y => rw [h y (mem_of_find?_eq_some hl) (find?_some hl)]

theorem added_or_transition (h : inUse x.2 = true) :
    isAdded x.2 0 = true ∨ isAdded x.2 0 = false ∧ isInDeletedTransition x.2 0 = true := by
  cases ha : isAdded x.2 0 with
  | true => exact .inl rfl
  | false => exact .inr ⟨rfl, transition_of_inUse h ha⟩

theorem state_eq_of_added (hx : isAdded x.2 0 = true) (hy : isAdded y.2 0 = true) :
    state x.2 0 = state y.2 0 := by
  rw [isAdded, beq_iff_eq] at hx hy
  rw [hx, hy]

theorem state_eq_of_transition (hx : isInDeletedTransition x.2 0 = true)
    (hy : isInDeletedTransition y.2 0 = true) : state x.2 0 = state y.2 0 := by
  rw [isInDeletedTransition, beq_iff_eq] at hx hy
  rw [hx, hy]

/-- A lookup by key finds the entry that stands for the key, whatever the order of the entries. -/
theorem lookup_eq_some_iff (hw : m.WellFormed) : m.lookup atRuntime ignoreRtCheck k = some x ↔
      x ∈ m.locatedEntries ∧ keyOf authFormat x.2 = k ∧ m.Represents atRuntime ignoreRtCheck x := by
  rw [lookup, findEntry, Option.or_eq_some_iff]
  constructor
  · rintro (h | ⟨hnone,h⟩)
    · have hf := find?_some h
      simp only [Bool.and_eq_true, beq_iff_eq] at hf
      exact ⟨mem_of_find?_eq_some h, hf.1.2, hf.1.1, .inl hf.2⟩
    · have hf := find?_some h
      simp only [Bool.and_eq_true, beq_iff_eq] at hf
      refine ⟨mem_reverse.mp (mem_of_find?_eq_some h), hf.1.2, hf.1.1, .inr ?_⟩
      intro y hy hacc hkey
      have := find?_eq_none.mp hnone y hy
      simpa [hacc, hkey, hf.1.2] using this
  · rintro ⟨hx,rfl,hacc,hrep⟩
    have hu := inUse_of_accessible hacc
    rcases added_or_transition hu with ha | ⟨ha,ht⟩
    · refine .inl (find?_eq_some_of_unique hx (by simp [hacc, ha]) ?_)
      intro y hy hf
      simp only [Bool.and_eq_true, beq_iff_eq] at hf
      exact (hw.eq_of_state hx hy hf.1.2.symm (state_eq_of_added ha hf.2) hu).symm
    have hnone := hrep.resolve_left (by rw [ha]; exact Bool.false_ne_true)
    refine .inr ⟨find?_eq_none.mpr ?_,
      find?_eq_some_of_unique (mem_reverse.mpr hx) (by simp [hacc, ht]) ?_⟩
    · intro y hy hf
      simp only [Bool.and_eq_true, beq_iff_eq] at hf
      rw [hnone y hy hf.1.1 hf.1.2] at hf
      exact Bool.false_ne_true hf.2
    · intro y hy hf
      simp only [Bool.and_eq_true, beq_iff_eq] at hf
      exact (hw.eq_of_state hx (mem_reverse.mp hy) hf.1.2.symm (state_eq_of_transition ht hf.2) hu).symm

end StoreImage

end Liano.Variable
