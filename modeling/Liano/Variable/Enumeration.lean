import Mathlib.Data.Prod.Lex
import Liano.Lib.Cursor
import Liano.Variable.Lookup

/-! Enumeration of the variables of three stores with `VariableServiceGetNextVariableInternal`,
against the variables that `FindVariable` can return. -/
namespace Liano.Variable

open Option (any_some bind_eq_bind bind_eq_some_iff getD_some map_some)
open List hiding Cursor le_antisymm lt_irrefl not_lt

open Bytes (slice HoldsAt)

def VariableStoreType.index : VariableStoreType → Nat
  | .volatile => 0
  | .hob => 1
  | .nv => 2

instance : LinearOrder VariablePtr := LinearOrder.lift' (fun v => toLex (v.storeType.index,v.offset)) (by
    rintro ⟨t,p⟩ ⟨t',p'⟩ h
    have h' := Prod.mk.inj (toLex.injective h)
    cases t <;> cases t' <;> simp_all [VariableStoreType.index])

theorem VariablePtr.lt_iff {v w : VariablePtr} : v < w ↔ v.storeType.index < w.storeType.index ∨
      v.storeType.index = w.storeType.index ∧ v.offset < w.offset := Prod.Lex.toLex_lt_toLex

theorem VariablePtr.mk_lt_mk {t : VariableStoreType} {p q : Nat} :
    VariablePtr.mk t p < VariablePtr.mk t q ↔ p < q := by simp [VariablePtr.lt_iff]

structure StoreImages (authFormat : Bool) where
  image : VariableStoreType → Option (StoreImage authFormat)
  wellFormed : ∀ t m, image t = some m → m.WellFormed

namespace StoreImages
variable {authFormat : Bool} (s : StoreImages authFormat)

def stores : VariableStoreList := fun t => (s.image t).map StoreImage.bytes

def allHeaders : List VariablePtr := VariableStoreType.all.flatMap (storeHeaders authFormat s.stores)

def returned (atRuntime : Bool) : List VariablePtr :=
  s.allHeaders.filter (isReturned authFormat atRuntime s.stores)

variable {s} {t : VariableStoreType} {m : StoreImage authFormat} {v : VariablePtr}

theorem stores_eq (h : s.image t = some m) : s.stores t = some m.bytes := by rw [stores, h, map_some]

theorem storeHeaders_eq (h : s.image t = some m) : storeHeaders authFormat s.stores t =
      m.locatedEntries.map fun x => VariablePtr.mk t x.1 := by
  simp only [storeHeaders, stores_eq h, m.headers_bytes, map_map]
  rfl

theorem mem_storeHeaders : v ∈ storeHeaders authFormat s.stores t ↔
    ∃ m x, s.image t = some m ∧ x ∈ m.locatedEntries ∧ v = ⟨t, x.1⟩ := by
  cases h : s.image t with
  | none => simp [storeHeaders, stores, h]
  | some m =>
    rw [storeHeaders_eq h, mem_map]
    constructor
    · rintro ⟨x,hx,rfl⟩
      exact ⟨m, x, rfl, hx, rfl⟩
    · rintro ⟨m',x,hm,hx,rfl⟩
      cases hm
      exact ⟨x, hx, rfl⟩

theorem mem_allHeaders : v ∈ s.allHeaders ↔
    ∃ m x, s.image v.storeType = some m ∧ x ∈ m.locatedEntries ∧ v.offset = x.1 := by
  simp only [allHeaders, mem_flatMap, mem_storeHeaders]
  constructor
  · rintro ⟨t,-,m,x,hm,hx,rfl⟩
    exact ⟨m, x, hm, hx, rfl⟩
  · rintro ⟨m,x,hm,hx,hoff⟩
    refine ⟨v.storeType, ?_, m, x, hm, hx, ?_⟩
    · cases v.storeType <;> decide
    · rw [← hoff]

theorem storeHeaders_sorted : (storeHeaders authFormat s.stores t).Pairwise (· < ·) := by
  cases h : s.image t with
  | none => simp [storeHeaders, stores, h]
  | some m =>
    rw [storeHeaders_eq h, pairwise_map]
    refine (located_sorted fun e he => (m.isEntry e he).header_lt (by decide)).imp ?_
    intro x y hxy
    exact VariablePtr.mk_lt_mk.mpr hxy

theorem allHeaders_sorted : s.allHeaders.Pairwise (· < ·) := by
  rw [allHeaders, pairwise_flatMap]
  refine ⟨fun t _ => storeHeaders_sorted, ?_⟩
  have hacross : ∀ t t' : VariableStoreType, t.index < t'.index →
      ∀ v ∈ storeHeaders authFormat s.stores t, ∀ w ∈ storeHeaders authFormat s.stores t', v < w := by
    intro t t' hlt v hv w hw
    obtain ⟨m,x,-,-,rfl⟩ := mem_storeHeaders.mp hv
    obtain ⟨m',y,-,-,rfl⟩ := mem_storeHeaders.mp hw
    exact VariablePtr.lt_iff.mpr (.inl hlt)
  simp only [VariableStoreType.all, pairwise_cons, mem_cons, not_mem_nil, or_false,
    forall_eq_or_imp, forall_eq, IsEmpty.forall_iff, implies_true, List.Pairwise.nil, and_true]
  exact ⟨⟨hacross _ _ (by decide), hacross _ _ (by decide)⟩, hacross _ _ (by decide)⟩

theorem returned_sorted (atRuntime : Bool) : (s.returned atRuntime).Pairwise (· < ·) :=
  allHeaders_sorted.filter _

variable {x : Nat × Bytes}

theorem allHeaders_eq (hm : s.image t = some m) (hx : x ∈ m.locatedEntries) :
    ∃ pre post, s.allHeaders = pre ++ ⟨t, x.1⟩ :: post ∧
      headersOnward authFormat s.stores t x.1 = ⟨t, x.1⟩ :: post ∧
      headersOnward authFormat s.stores t (getNextVariablePtr authFormat m.bytes x.1) = post := by
  obtain ⟨q,e⟩ := x
  obtain ⟨pre,post,hes,rfl⟩ := mem_located.mp hx
  have he : IsEntry authFormat e := StoreImage.isEntry_of_mem hx
  have hat : HoldsAt m.bytes (getStartPointer+pre.flatten.length) e := StoreImage.holdsAt hx
  have hdvd : 4 ∣ getStartPointer+pre.flatten.length := by
    refine Nat.dvd_add (by decide) (dvd_length_flatten fun d hd => ?_)
    exact (m.isEntry d (by rw [hes]; exact mem_append_left _ hd)).dvd_length
  have hnext := next_of_holdsAt he hat hdvd
  have hhere := (m.walk_suffix pre (e :: post) hes).1
  have hrest := (m.walk_suffix (pre ++ [e]) post (by simp [hes])).1
  have hlen : getStartPointer + (pre ++ [e]).flatten.length =
      getStartPointer+pre.flatten.length+e.length := by
    simp only [flatten_append, flatten_cons, flatten_nil, append_nil, length_append, add_assoc]
  rw [hlen, ← hnext] at hrest
  have hown : storeHeaders authFormat s.stores t =
      (located getStartPointer pre).map (fun x => VariablePtr.mk t x.1) ++
        ((located (getStartPointer+pre.flatten.length) (e :: post)).map fun x => VariablePtr.mk t x.1) := by
    rw [storeHeaders_eq hm, StoreImage.locatedEntries, hes, located_append, map_append]
  have hall : ∃ earlier, s.allHeaders = earlier ++ storeHeaders authFormat s.stores t ++
        t.later.flatMap (storeHeaders authFormat s.stores) := by
    cases t with
    | volatile => exact ⟨[], by simp [allHeaders, VariableStoreType.all, VariableStoreType.later]⟩
    | hob =>
      exact ⟨storeHeaders authFormat s.stores .volatile,
        by simp [allHeaders, VariableStoreType.all, VariableStoreType.later]⟩
    | nv =>
      exact ⟨storeHeaders authFormat s.stores .volatile ++ storeHeaders authFormat s.stores .hob,
        by simp [allHeaders, VariableStoreType.all, VariableStoreType.later]⟩
  obtain ⟨earlier,hall⟩ := hall
  refine ⟨earlier ++ (located getStartPointer pre).map (fun x => VariablePtr.mk t x.1),
    (located (getNextVariablePtr authFormat m.bytes (getStartPointer+pre.flatten.length))
      post).map (fun x => VariablePtr.mk t x.1) ++
        t.later.flatMap (storeHeaders authFormat s.stores), ?_, ?_, ?_⟩
  · rw [hall, hown, hnext, located]
    simp only [map_cons, append_assoc, cons_append]
  · rw [headersOnward, stores_eq hm]
    simp only [hhere, located, map_cons, map_map, cons_append, hnext]
    rfl
  · rw [headersOnward, stores_eq hm]
    simp only [hrest, map_map]
    rfl

def lookupIn (s : StoreImages authFormat) (atRuntime : Bool) (k : VariableKey)
    (t : VariableStoreType) : Option VariablePtr := do
  let m ← s.image t
  let x ← m.lookup atRuntime false k
  return ⟨t, x.1⟩

variable {atRuntime : Bool} {k : VariableKey}

theorem lookupIn_eq_some_iff :
    s.lookupIn atRuntime k t = some v ↔ ∃ m x, s.image t = some m ∧ x ∈ m.locatedEntries ∧
      keyOf authFormat x.2 = k ∧ m.Represents atRuntime false x ∧ v = ⟨t, x.1⟩ := by
  simp only [lookupIn, bind_eq_bind, bind_eq_some_iff, Option.pure_def, Option.some.injEq]
  constructor
  · rintro ⟨m,hm,x,hx,rfl⟩
    obtain ⟨hmem,hk,hrep⟩ := (StoreImage.lookup_eq_some_iff (s.wellFormed t m hm)).mp hx
    exact ⟨m, x, hm, hmem, hk, hrep, rfl⟩
  · rintro ⟨m,x,hm,hmem,hk,hrep,rfl⟩
    exact ⟨m, hm, x, (StoreImage.lookup_eq_some_iff (s.wellFormed t m hm)).mpr ⟨hmem, hk, hrep⟩, rfl⟩

theorem findVariableEx_isError (b variableName vendorGuid : Bytes) (atRuntime ign : Bool) :
    (findVariableEx authFormat atRuntime variableName vendorGuid ign b).2.isError =
      (findVariableEx authFormat atRuntime variableName vendorGuid ign b).1.currPtr.isNone := by
  rw [findVariableEx]
  cases (findVariableLoop _ b none (headers authFormat b)).currPtr <;> rfl

variable {variableName : Bytes} {stores : VariableStoreList} {l : List VariablePtr}

theorem findPointer_eq {vendorGuid : Bytes} {find : StoreImage authFormat → Option (Nat × Bytes)}
    (h : ∀ t m, s.image t = some m →
      (findVariableEx authFormat atRuntime variableName vendorGuid false m.bytes).1.currPtr =
        (find m).map (·.1)) : findPointer authFormat atRuntime s.stores variableName vendorGuid =
      VariableStoreType.all.findSome? fun t => do
        let m ← s.image t
        let x ← find m
        return ⟨t, x.1⟩ := by
  rw [findPointer]
  induction VariableStoreType.all with
  | nil => rfl
  | cons t ts ih =>
    rw [findSome?_cons, ← ih, findInStores]
    cases hm : s.image t with
    | none => simp only [stores, hm]; rfl
    | some m =>
      have hm' := h t m hm
      cases hl : find m with
      | none => simp [stores_eq hm, hl, findVariableEx_isError, hm']
      | some x => simp [stores_eq hm, hl, findVariableEx_isError, hm']

theorem findPointer_key (hk : IsVariableName k.name) :
    findPointer authFormat atRuntime s.stores k.name k.vendorGuid =
      VariableStoreType.all.findSome? (s.lookupIn atRuntime k) := by
  refine findPointer_eq fun t m hm => ?_
  have h : (findVariableEx authFormat atRuntime (k.name ++ []) k.vendorGuid false
      m.bytes).1.currPtr = (m.lookup atRuntime false k).map (·.1) :=
    StoreImage.findVariableEx_key (s.wellFormed t m hm).names hk []
  rwa [append_nil] at h

theorem name_memory (hx : x ∈ m.locatedEntries) :
    ∃ tl, m.bytes.drop (getVariableNamePtr authFormat x.1) = (keyOf authFormat x.2).name ++ tl := by
  have he := StoreImage.isEntry_of_mem hx
  have hhdr : getVariableHeaderSize authFormat ≤ x.2.length := he.header
  obtain ⟨tl,htl⟩ := (StoreImage.holdsAt hx).drop_eq hhdr
  refine ⟨(x.2.drop (getVariableHeaderSize authFormat)).drop (nameSizeOfVariable authFormat x.2 0) ++ tl, ?_⟩
  rw [getVariableNamePtr, htl, keyOf, keyAt, nameOf, slice, getVariableNamePtr, zero_add,
    ← append_assoc, take_append_drop]

theorem lookup_any_added (hw : m.WellFormed) {ign : Bool} :
    (m.lookup atRuntime ign k).any (fun y => isAdded y.2 0) = true ↔
      ∃ y ∈ m.locatedEntries, isAccessible atRuntime ign y.2 0 = true ∧
        keyOf authFormat y.2 = k ∧ isAdded y.2 0 = true := by
  rw [Option.any_eq_true_iff_get]
  constructor
  · rintro ⟨hsome,hadd⟩
    obtain ⟨hmem,hk,hrep⟩ := (StoreImage.lookup_eq_some_iff hw).mp (Option.some_get hsome).symm
    exact ⟨_, hmem, hrep.1, hk, hadd⟩
  · rintro ⟨y,hy,hacc,hk,hadd⟩
    have hl := (StoreImage.lookup_eq_some_iff hw).mpr ⟨hy, hk, hacc, .inl hadd⟩
    simp [hl, hadd]

theorem lookupIn_isNone_iff (hk : IsVariableName k.name) (tl : Bytes) (hm : s.image t = some m) :
    (findVariableEx authFormat atRuntime (k.name ++ tl) k.vendorGuid false m.bytes).2.isError = true ↔
      s.lookupIn atRuntime k t = none := by
  rw [findVariableEx_isError, StoreImage.findVariableEx_key (s.wellFormed t m hm).names hk tl]
  cases hl : m.lookup atRuntime false k <;> simp [lookupIn, hm, hl]

theorem isReturned_iff (hm : s.image t = some m) (hx : x ∈ m.locatedEntries) :
    isReturned authFormat atRuntime s.stores ⟨t, x.1⟩ = true ↔ m.Represents atRuntime false x ∧
        (t = .nv → s.lookupIn atRuntime (keyOf authFormat x.2) .hob = none) := by
  have he := StoreImage.isEntry_of_mem hx
  have hat := StoreImage.holdsAt hx
  have hw := s.wellFormed t m hm
  obtain ⟨tl,htl⟩ := name_memory hx
  have hguid : vendorGuidOf authFormat m.bytes x.1 = (keyOf authFormat x.2).vendorGuid :=
    vendorGuid_of_holdsAt he hat
  rw [isReturned]
  simp only [stores_eq hm, htl, hguid, accessible_of_holdsAt he hat,
    StoreImage.isInDeletedTransition_bytes hx]
  cases hacc : isAccessible atRuntime false x.2 0 with
  | false => simp [StoreImage.Represents, hacc]
  | true =>
    have hu := inUse_of_accessible hacc
    have hk : IsVariableName (keyOf authFormat x.2).name := hw.names _ (StoreImage.mem_entries hx) hu
    have htwin : (!(findVariableEx authFormat atRuntime ((keyOf authFormat x.2).name ++ tl)
        (keyOf authFormat x.2).vendorGuid false m.bytes).2.isError &&
        (findVariableEx authFormat atRuntime ((keyOf authFormat x.2).name ++ tl)
        (keyOf authFormat x.2).vendorGuid false m.bytes).1.currPtr.any (isAdded m.bytes)) = true ↔
        ∃ y ∈ m.locatedEntries, isAccessible atRuntime false y.2 0 = true ∧
          keyOf authFormat y.2 = keyOf authFormat x.2 ∧ isAdded y.2 0 = true := by
      rw [findVariableEx_isError, StoreImage.findVariableEx_key hw.names hk tl, ← lookup_any_added hw]
      cases hl : m.lookup atRuntime false (keyOf authFormat x.2) with
      | none => rfl
      | some y =>
        rw [map_some, any_some, any_some, Option.isNone_some, Bool.not_false, Bool.true_and,
          StoreImage.isAdded_bytes ((StoreImage.lookup_eq_some_iff hw).mp hl).1]
    have hhob : (t == .nv && (s.stores .hob).any fun hob =>
        !(findVariableEx authFormat atRuntime ((keyOf authFormat x.2).name ++ tl)
          (keyOf authFormat x.2).vendorGuid false hob).2.isError) = false ↔
        (t = .nv → s.lookupIn atRuntime (keyOf authFormat x.2) .hob = none) := by
      cases hh : s.image .hob with
      | none => simp [stores, hh, lookupIn]
      | some h =>
        rw [stores_eq hh, any_some, ← lookupIn_isNone_iff hk tl hh]
        cases t <;> simp
    rw [Bool.true_and, Bool.and_eq_true, Bool.not_eq_true', Bool.not_eq_true', hhob, Bool.and_assoc]
    refine and_congr_left fun _ => ?_
    rw [← Bool.not_eq_true, Bool.and_eq_true, htwin, StoreImage.Represents, hacc]
    rcases StoreImage.added_or_transition hu with ha | ⟨ha,ht⟩
    · have ht : isInDeletedTransition x.2 0 = false := by
        rw [Bool.eq_false_iff]
        intro ht
        rw [isAdded_eq_false_of_transition ht] at ha
        exact Bool.false_ne_true ha
      simp [ha, ht]
    · simp only [ha, ht, true_and, Bool.false_eq_true, false_or, not_exists, not_and, Bool.not_eq_true]

theorem mem_returned : v ∈ s.returned atRuntime ↔
    ∃ m x, s.image v.storeType = some m ∧ x ∈ m.locatedEntries ∧ v.offset = x.1 ∧
      m.Represents atRuntime false x ∧
        (v.storeType = .nv → s.lookupIn atRuntime (keyOf authFormat x.2) .hob = none) := by
  rw [returned, mem_filter, mem_allHeaders]
  constructor
  · rintro ⟨⟨m,x,hm,hx,hoff⟩,hret⟩
    have hv : v = ⟨v.storeType, x.1⟩ := by rw [← hoff]
    rw [hv, isReturned_iff hm hx] at hret
    exact ⟨m, x, hm, hx, hoff, hret⟩
  · rintro ⟨m,x,hm,hx,hoff,hret⟩
    have hv : v = ⟨v.storeType, x.1⟩ := by rw [← hoff]
    refine ⟨⟨m, x, hm, hx, hoff⟩, ?_⟩
    rw [hv, isReturned_iff hm hx]
    exact hret

/-- The place where a key is found, as `FindVariable` orders the stores. -/
def place (s : StoreImages authFormat) (atRuntime : Bool) (k : VariableKey) : Option VariablePtr :=
  VariableStoreType.all.findSome? (s.lookupIn atRuntime k)

theorem mem_all (t : VariableStoreType) : t ∈ VariableStoreType.all := by cases t <;> decide

theorem all_sorted : VariableStoreType.all.Pairwise (·.index < ·.index) := by decide

theorem lookupIn_storeType (h : s.lookupIn atRuntime k t = some v) : v.storeType = t := by
  obtain ⟨m,x,-,-,-,-,rfl⟩ := lookupIn_eq_some_iff.mp h
  rfl

theorem place_eq_some_iff : s.place atRuntime k = some v ↔ s.lookupIn atRuntime k v.storeType = some v ∧
      ∀ t, t.index < v.storeType.index → s.lookupIn atRuntime k t = none := by
  rw [place, findSome?_eq_some_iff]
  constructor
  · rintro ⟨l₁,t,l₂,hall,h,hnone⟩
    obtain rfl := lookupIn_storeType h
    refine ⟨h, fun t hlt => hnone t ?_⟩
    have hs := (pairwise_append.mp (hall ▸ all_sorted)).2.1
    have ht := mem_all t
    rw [hall, mem_append, mem_cons] at ht
    rcases ht with ht | rfl | ht
    · exact ht
    · exact absurd hlt (lt_irrefl _)
    · exact absurd hlt ((pairwise_cons.mp hs).1 t ht).not_gt
  · rintro ⟨h,hnone⟩
    obtain ⟨l₁,l₂,hall⟩ := append_of_mem (mem_all v.storeType)
    refine ⟨l₁, _, l₂, hall, h, fun t ht => hnone t ?_⟩
    exact (pairwise_append.mp (hall ▸ all_sorted)).2.2 t ht _ mem_cons_self

theorem returnedKey_eq (hm : s.image t = some m) (hx : x ∈ m.locatedEntries) :
    returnedKey authFormat s.stores ⟨t, x.1⟩ = keyOf authFormat x.2 := by
  rw [returnedKey, stores_eq hm, getD_some, keyAt,
    nameOf_of_holdsAt (StoreImage.isEntry_of_mem hx) (StoreImage.holdsAt hx),
    vendorGuid_of_holdsAt (StoreImage.isEntry_of_mem hx) (StoreImage.holdsAt hx)]
  rfl

theorem mem_returned_of_lookupIn (h : s.lookupIn atRuntime k t = some v)
    (hnv : t = .nv → s.lookupIn atRuntime k .hob = none) :
    v ∈ s.returned atRuntime ∧ returnedKey authFormat s.stores v = k := by
  obtain ⟨m,x,hm,hx,hk,hrep,rfl⟩ := lookupIn_eq_some_iff.mp h
  refine ⟨mem_returned.mpr ⟨m, x, hm, hx, rfl, hrep, fun hnv' => ?_⟩, ?_⟩
  · rw [hk]
    exact hnv hnv'
  · rw [returnedKey_eq hm hx, hk]

theorem lookupIn_of_mem_returned (hv : v ∈ s.returned atRuntime) :
    s.lookupIn atRuntime (returnedKey authFormat s.stores v) v.storeType = some v ∧
      IsVariableName (returnedKey authFormat s.stores v).name ∧ (v.storeType = .nv →
        s.lookupIn atRuntime (returnedKey authFormat s.stores v) .hob = none) := by
  obtain ⟨m,x,hm,hx,hoff,hrep,hhob⟩ := mem_returned.mp hv
  have hv' : v = ⟨v.storeType, x.1⟩ := by rw [← hoff]
  rw [hv', returnedKey_eq hm hx]
  exact ⟨lookupIn_eq_some_iff.mpr ⟨m, x, hm, hx, rfl, hrep, rfl⟩,
    (s.wellFormed _ m hm).names _ (StoreImage.mem_entries hx) (inUse_of_accessible hrep.1), hhob⟩

theorem mem_returned_of_place (h : s.place atRuntime k = some v) :
    v ∈ s.returned atRuntime ∧ returnedKey authFormat s.stores v = k := by
  obtain ⟨hin,hnone⟩ := place_eq_some_iff.mp h
  exact mem_returned_of_lookupIn hin fun hnv => hnone .hob (by rw [hnv]; decide)

theorem place_isSome (h : s.lookupIn atRuntime k t = some v) : ∃ w, s.place atRuntime k = some w
    := by
  rw [← Option.isSome_iff_exists, place, findSome?_isSome_iff]
  exact ⟨t, mem_all t, by rw [h]; rfl⟩

theorem storeType_eq_of_index {t t' : VariableStoreType} (h : t.index = t'.index) : t = t' := by
  cases t <;> cases t' <;> first | rfl | cases h

theorem place_of_mem_returned (hv : v ∈ s.returned atRuntime) : ∃ w, w ∈ s.returned atRuntime ∧ w ≤ v ∧
      s.place atRuntime (returnedKey authFormat s.stores v) = some w := by
  obtain ⟨hown,-⟩ := lookupIn_of_mem_returned hv
  obtain ⟨w,hw⟩ := place_isSome hown
  refine ⟨w, (mem_returned_of_place hw).1, ?_, hw⟩
  obtain ⟨hwin,hwnone⟩ := place_eq_some_iff.mp hw
  rcases lt_trichotomy w.storeType.index v.storeType.index with hlt | heq | hgt
  · exact (VariablePtr.lt_iff.mpr (.inl hlt)).le
  · rw [storeType_eq_of_index heq, hown] at hwin
    exact (Option.some.inj hwin).ge
  · cases hown.symm.trans (hwnone _ hgt)

theorem next_of_returned {w : VariablePtr}
    (hk : IsVariableName (returnedKey authFormat s.stores v).name)
    (hplace : s.place atRuntime (returnedKey authFormat s.stores v) = some w)
    (hw : w ∈ s.returned atRuntime) : variableServiceGetNextVariableInternal authFormat atRuntime s.stores
        (returnedKey authFormat s.stores v).name (returnedKey authFormat s.stores v).vendorGuid =
      nextResult ((s.returned atRuntime).find? (w < ·)) := by
  obtain ⟨m,x,hm,hx,hoff,-⟩ := mem_returned.mp hw
  obtain ⟨pre,post,hall,-,hpost⟩ := allHeaders_eq hm hx
  have hw' : (⟨w.storeType, x.1⟩ : VariablePtr) = w := by rw [← hoff]
  have hret : isReturned authFormat atRuntime s.stores w = true := (mem_filter.mp hw).2
  have hfilter : s.returned atRuntime = pre.filter (isReturned authFormat atRuntime s.stores) ++
        w :: post.filter (isReturned authFormat atRuntime s.stores) := by
    rw [returned, hall, hw', filter_append, filter_cons_of_pos hret]
  have hnext : (s.returned atRuntime).find? (w < ·) =
      post.find? (isReturned authFormat atRuntime s.stores) := by
    have hsort := returned_sorted (s := s) atRuntime
    rw [hfilter] at hsort ⊢
    rw [Cursor.find?_lt_eq_head? hsort, head?_filter]
  rw [hnext, variableServiceGetNextVariableInternal, findPointer_key hk, ← place, hplace]
  simp only [hk.nonempty, Bool.false_eq_true, if_false, stores_eq hm, getD_some, hoff, hpost]

def firstIn (s : StoreImages authFormat) (atRuntime : Bool) (t : VariableStoreType) : Option VariablePtr := do
  let m ← s.image t
  let x ← findEntry (fun e => isAccessible atRuntime false e 0) m.locatedEntries
  return ⟨t, x.1⟩

def first (s : StoreImages authFormat) (atRuntime : Bool) : Option VariablePtr :=
  VariableStoreType.all.findSome? (s.firstIn atRuntime)

theorem findPointer_empty (vendorGuid : Bytes) (h : isEmptyName variableName = true) :
    findPointer authFormat atRuntime s.stores variableName vendorGuid = s.first atRuntime := by
  refine findPointer_eq fun t m _ => ?_
  have hmatch : lookupMatches authFormat atRuntime variableName vendorGuid false =
      fun e => isAccessible atRuntime false e 0 := by
    funext e
    rw [lookupMatches, nameMatches, h, Bool.true_or, Bool.and_true]
  rw [StoreImage.findVariableEx_currPtr, hmatch]

theorem findEntry_eq_none_iff {f : Bytes → Bool} {l : List (Nat × Bytes)}
    (hf : ∀ e, f e = true → inUse e = true) : findEntry f l = none ↔ ∀ x ∈ l, f x.2 = false := by
  rw [findEntry, Option.or_eq_none_iff, find?_eq_none, find?_eq_none]
  constructor
  · rintro ⟨ha,ht⟩ x hx
    rw [← Bool.not_eq_true]
    intro hfx
    rcases StoreImage.added_or_transition (hf x.2 hfx) with h | ⟨-,h⟩
    · exact ha x hx (by rw [hfx, h]; rfl)
    · exact ht x (mem_reverse.mpr hx) (by rw [hfx, h]; rfl)
  · intro h
    constructor
    · intro x hx
      simp [h x hx]
    · intro x hx
      simp [h x (mem_reverse.mp hx)]

theorem firstIn_eq_none_iff (hm : s.image t = some m) : s.firstIn atRuntime t = none ↔
      ∀ x ∈ m.locatedEntries, isAccessible atRuntime false x.2 0 = false := by
  rw [← findEntry_eq_none_iff (f := fun e => isAccessible atRuntime false e 0)
    fun e => inUse_of_accessible, firstIn, hm]
  cases hf : findEntry (fun e => isAccessible atRuntime false e 0) m.locatedEntries <;> simp [hf]

theorem lookupIn_eq_none_of_firstIn (h : s.firstIn atRuntime t = none)
    (k : VariableKey) : s.lookupIn atRuntime k t = none := by
  cases hl : s.lookupIn atRuntime k t with
  | none => rfl
  | some v =>
    obtain ⟨m,x,hm,hx,-,hrep,-⟩ := lookupIn_eq_some_iff.mp hl
    exact absurd hrep.1 (by rw [(firstIn_eq_none_iff hm).mp h x hx]; exact Bool.false_ne_true)

section
variable (h : findEntry (fun e => isAccessible atRuntime false e 0) m.locatedEntries = some x)
include h

/-- The entry found for the empty name: the first ADDED one, or the last of all when none is. -/
theorem findEntry_accessible : x ∈ m.locatedEntries ∧ isAccessible atRuntime false x.2 0 = true ∧
      (isAdded x.2 0 = true ∧ (∀ y ∈ m.locatedEntries, isAccessible atRuntime false y.2 0 = true →
          isAdded y.2 0 = true → x.1 ≤ y.1) ∨
        ∀ y ∈ m.locatedEntries, isAccessible atRuntime false y.2 0 = true →
          isAdded y.2 0 = false ∧ y.1 ≤ x.1) := by
  have hsort := StoreImage.locatedEntries_sorted (m := m)
  rw [findEntry, Option.or_eq_some_iff] at h
  rcases h with h | ⟨hnone,h⟩
  · obtain ⟨hx,pre,post,hl,hpre⟩ := find?_eq_some_iff_append.mp h
    rw [Bool.and_eq_true] at hx
    refine ⟨mem_of_find?_eq_some h, hx.1, .inl ⟨hx.2, ?_⟩⟩
    intro y hy hacc hadd
    rw [hl] at hsort hy
    rcases mem_append.mp hy with hy | hy
    · have := hpre y hy
      rw [hacc, hadd] at this
      cases this
    · rcases mem_cons.mp hy with rfl | hy
      · exact le_refl _
      · exact ((pairwise_cons.mp (pairwise_append.mp hsort).2.1).1 y hy).le
  · obtain ⟨hx,pre,post,hl,hpre⟩ := find?_eq_some_iff_append.mp h
    rw [Bool.and_eq_true] at hx
    refine ⟨mem_reverse.mp (mem_of_find?_eq_some h), hx.1, .inr ?_⟩
    intro y hy hacc
    have hadd : isAdded y.2 0 = false := by
      have := find?_eq_none.mp hnone y hy
      rwa [hacc, Bool.true_and, Bool.not_eq_true] at this
    refine ⟨hadd, ?_⟩
    rw [← pairwise_reverse, hl] at hsort
    rw [← mem_reverse, hl] at hy
    rcases mem_append.mp hy with hy | hy
    · have := hpre y hy
      rw [hacc, transition_of_inUse (inUse_of_accessible hacc) hadd] at this
      cases this
    · rcases mem_cons.mp hy with rfl | hy
      · exact le_refl _
      · exact ((pairwise_cons.mp (pairwise_append.mp hsort).2.1).1 y hy).le

theorem represents_of_findEntry : x ∈ m.locatedEntries ∧ m.Represents atRuntime false x := by
  obtain ⟨hx,hacc,hcase⟩ := findEntry_accessible h
  refine ⟨hx, hacc, ?_⟩
  rcases hcase with ⟨hadd,-⟩ | hnone
  · exact .inl hadd
  · exact .inr fun y hy hacc' _ => (hnone y hy hacc').1

end

theorem firstIn_eq_some_iff : s.firstIn atRuntime t = some v ↔ ∃ m x, s.image t = some m ∧
      findEntry (fun e => isAccessible atRuntime false e 0) m.locatedEntries = some x ∧ v = ⟨t, x.1⟩ := by
  simp only [firstIn, bind_eq_bind, bind_eq_some_iff, Option.pure_def, Option.some.injEq]
  constructor
  · rintro ⟨m,hm,x,hx,rfl⟩
    exact ⟨m, x, hm, hx, rfl⟩
  · rintro ⟨m,x,hm,hx,rfl⟩
    exact ⟨m, hm, x, hx, rfl⟩

theorem first_eq_some (h : s.first atRuntime = some v) : s.firstIn atRuntime v.storeType = some v ∧
      ∀ t, t.index < v.storeType.index → s.firstIn atRuntime t = none := by
  rw [first, findSome?_eq_some_iff] at h
  obtain ⟨l₁,t,l₂,hall,hin,hnone⟩ := h
  have hst : v.storeType = t := by
    obtain ⟨m,x,-,-,rfl⟩ := firstIn_eq_some_iff.mp hin
    rfl
  rw [hst]
  refine ⟨hin, fun t' hlt => hnone t' ?_⟩
  have hs := (pairwise_append.mp (hall ▸ all_sorted)).2.1
  have ht := mem_all t'
  rw [hall, mem_append, mem_cons] at ht
  rcases ht with ht | rfl | ht
  · exact ht
  · exact absurd hlt (lt_irrefl _)
  · exact absurd hlt ((pairwise_cons.mp hs).1 t' ht).not_gt

/-- In the first store, the entries of its returned variables are those that stand for one. -/
theorem mem_returned_of_represents (hm : s.image t = some m) (hx : x ∈ m.locatedEntries)
    (hrep : m.Represents atRuntime false x)
    (hfst : ∀ t', t'.index < t.index → s.firstIn atRuntime t' = none) :
    (⟨t, x.1⟩ : VariablePtr) ∈ s.returned atRuntime := by
  refine mem_returned.mpr ⟨m, x, hm, hx, rfl, hrep, ?_⟩
  rintro rfl
  exact lookupIn_eq_none_of_firstIn (hfst .hob (by decide)) _

theorem first_mem_returned (h : s.first atRuntime = some v) : v ∈ s.returned atRuntime := by
  obtain ⟨hin,hnone⟩ := first_eq_some h
  obtain ⟨m,x,hm,hx,hv⟩ := firstIn_eq_some_iff.mp hin
  obtain ⟨hmem,hrep⟩ := represents_of_findEntry hx
  rw [hv]
  exact mem_returned_of_represents hm hmem hrep hnone

theorem returned_eq_nil_of_first (h : s.first atRuntime = none) : s.returned atRuntime = [] := by
  rw [eq_nil_iff_forall_not_mem]
  intro v hv
  obtain ⟨m,x,hm,hx,-,hrep,-⟩ := mem_returned.mp hv
  rw [first, findSome?_eq_none_iff] at h
  have := (firstIn_eq_none_iff hm).mp (h v.storeType (mem_all _)) x hx
  rw [hrep.1] at this
  exact Bool.false_ne_true this.symm

theorem next_of_empty (vendorGuid : Bytes) (h : isEmptyName variableName = true) :
    variableServiceGetNextVariableInternal authFormat atRuntime s.stores variableName vendorGuid =
      nextResult (s.first atRuntime) := by
  rw [variableServiceGetNextVariableInternal, findPointer_empty vendorGuid h]
  cases hf : s.first atRuntime with
  | none => rw [h]; rfl
  | some v =>
    have hv := first_mem_returned hf
    have hret : isReturned authFormat atRuntime s.stores v = true := (mem_filter.mp hv).2
    obtain ⟨m,x,hm,hx,hoff,-⟩ := mem_returned.mp hv
    obtain ⟨pre,post,-,hhere,-⟩ := allHeaders_eq hm hx
    rw [← hoff] at hhere
    simp only [h, if_true, hhere, find?_cons_of_pos hret]

/-- The calls from a key on, each result fed back, until `EFI_NOT_FOUND`. -/
inductive Enumerates (authFormat atRuntime : Bool) (stores : VariableStoreList) :
    VariableKey → List VariablePtr → Prop
  | done {k : VariableKey} :
      variableServiceGetNextVariableInternal authFormat atRuntime stores k.name k.vendorGuid =
        (.notFound, none) → Enumerates authFormat atRuntime stores k []
  | next {k : VariableKey} {v : VariablePtr} {l : List VariablePtr} :
      variableServiceGetNextVariableInternal authFormat atRuntime stores k.name k.vendorGuid =
        (.success, some v) → Enumerates authFormat atRuntime stores (returnedKey authFormat stores v) l →
      Enumerates authFormat atRuntime stores k (v :: l)

theorem Enumerates.eq_nil (h : Enumerates authFormat atRuntime stores k l)
    (hcall : variableServiceGetNextVariableInternal authFormat atRuntime stores k.name k.vendorGuid =
      (.notFound, none)) : l = [] := by
  cases h with
  | done _ => rfl
  | next h _ => cases hcall.symm.trans h

theorem Enumerates.eq_cons (h : Enumerates authFormat atRuntime stores k l)
    (hcall : variableServiceGetNextVariableInternal authFormat atRuntime stores k.name k.vendorGuid =
      (.success, some v)) : ∃ l', l = v :: l' ∧
      Enumerates authFormat atRuntime stores (returnedKey authFormat stores v) l' := by
  cases h with
  | done h => cases hcall.symm.trans h
  | next h hrest =>
    cases hcall.symm.trans h
    exact ⟨_, rfl, hrest⟩

/-- The enumeration from `k` ends, and has visited exactly the variables that `FindVariable` can
return, each once. -/
def EnumerationComplete (s : StoreImages authFormat) (atRuntime : Bool) (k : VariableKey) : Prop :=
  ∃ l, Enumerates authFormat atRuntime s.stores k l ∧ l.Nodup ∧
    ∀ v, v ∈ l ↔ ∃ (k' : VariableKey) (track : VariablePointerTrack), IsVariableName k'.name ∧
      findVariable authFormat atRuntime s.stores k'.name k'.vendorGuid false =
        some (v.storeType,track) ∧ track.currPtr = some v.offset

/-- No variable of the volatile store is also in the HOB or the NV store. -/
def NoVolatileTwin (s : StoreImages authFormat) (atRuntime : Bool) : Prop :=
  ∀ t m m', t ≠ .volatile → s.image .volatile = some m → s.image t = some m' →
    ∀ d ∈ m.entries, ∀ e ∈ m'.entries, isAccessible atRuntime false d 0 = true →
      isAccessible atRuntime false e 0 = true → keyOf authFormat d ≠ keyOf authFormat e

/-- In the first store that has a variable, an IN_DELETED_TRANSITION entry without an ADDED twin
comes after some ADDED entry, or is alone. -/
def StartsAtFirst (s : StoreImages authFormat) (atRuntime : Bool) : Prop := ∀ t m, s.image t = some m →
    (∃ x ∈ m.locatedEntries, isAccessible atRuntime false x.2 0 = true) →
    (∀ t' m', t'.index < t.index → s.image t' = some m' →
      ∀ x ∈ m'.locatedEntries, isAccessible atRuntime false x.2 0 = false) →
    ∀ x ∈ m.locatedEntries, isInDeletedTransition x.2 0 = true → m.Represents atRuntime false x →
        (∃ y ∈ m.locatedEntries, y.1 < x.1 ∧ isAccessible atRuntime false y.2 0 = true ∧
          isAdded y.2 0 = true) ∨ ∀ y ∈ m.locatedEntries, isAccessible atRuntime false y.2 0 = true → y = x

/-- The pointer after `v` in the enumeration. -/
def successor (s : StoreImages authFormat) (atRuntime : Bool) (v : VariablePtr) : Option VariablePtr :=
  (variableServiceGetNextVariableInternal authFormat atRuntime s.stores
    (returnedKey authFormat s.stores v).name (returnedKey authFormat s.stores v).vendorGuid).2

def placeOf (s : StoreImages authFormat) (atRuntime : Bool) (v : VariablePtr) : VariablePtr :=
  (s.place atRuntime (returnedKey authFormat s.stores v)).getD v

theorem successor_eq (hv : v ∈ s.returned atRuntime) : s.successor atRuntime v =
      (s.returned atRuntime).find? (s.placeOf atRuntime v < ·) := by
  obtain ⟨-,hk,-⟩ := lookupIn_of_mem_returned hv
  obtain ⟨w,hw,-,hplace⟩ := place_of_mem_returned hv
  rw [successor, next_of_returned hk hplace hw, placeOf, hplace, getD_some]
  cases (s.returned atRuntime).find? (w < ·) <;> rfl

theorem placeOf_mem (hv : v ∈ s.returned atRuntime) :
    s.placeOf atRuntime v ∈ s.returned atRuntime ∧ s.placeOf atRuntime v ≤ v := by
  obtain ⟨w,hw,hle,hplace⟩ := place_of_mem_returned hv
  rw [placeOf, hplace, getD_some]
  exact ⟨hw, hle⟩

theorem enumerates_iff {start : Option VariablePtr}
    (hstart : ∀ w, start = some w → w ∈ s.returned atRuntime)
    (hk : variableServiceGetNextVariableInternal authFormat atRuntime s.stores k.name
        k.vendorGuid = nextResult start) : Enumerates authFormat atRuntime s.stores k l ↔
      Cursor.Visits (s.successor atRuntime) start l := by
  induction l generalizing k start with
  | nil =>
    constructor
    · rintro ⟨h⟩
      rw [hk] at h
      cases start with
      | none => exact .done
      | some v => cases h
    · rintro ⟨⟩
      exact .done hk
  | cons v l ih =>
    have hnext : v ∈ s.returned atRuntime →
        (Enumerates authFormat atRuntime s.stores (returnedKey authFormat s.stores v) l ↔
          Cursor.Visits (s.successor atRuntime) (s.successor atRuntime v) l) := by
      intro hv
      obtain ⟨-,hname,-⟩ := lookupIn_of_mem_returned hv
      obtain ⟨w,hw,-,hplace⟩ := place_of_mem_returned hv
      have hcall := next_of_returned hname hplace hw
      have hsucc : s.successor atRuntime v = (s.returned atRuntime).find? (w < ·) := by
        rw [successor_eq hv, placeOf, hplace, getD_some]
      refine ih (fun z hz => ?_) ?_
      · rw [hsucc] at hz
        exact mem_of_find?_eq_some hz
      · rw [hcall, hsucc]
    constructor
    · intro h
      cases h with
      | next hcall hrest =>
        rw [hk] at hcall
        cases start with
        | none => cases hcall
        | some w =>
          cases hcall
          exact .visit ((hnext (hstart _ rfl)).mp hrest)
    · intro h
      cases h with
      | visit hrest => exact .next hk ((hnext (hstart _ rfl)).mpr hrest)

theorem findVariable_iff (hk : IsVariableName k.name) :
    (∃ track, findVariable authFormat atRuntime s.stores k.name k.vendorGuid false =
        some (v.storeType,track) ∧ track.currPtr = some v.offset) ↔ s.place atRuntime k = some v := by
  rw [place, ← findPointer_key hk, findPointer]
  simp only [findVariable, bind_eq_bind, bind_eq_some_iff, Option.pure_def, Option.some.injEq, Prod.exists]
  constructor
  · rintro ⟨track,h,hp⟩
    exact ⟨_, track, h, _, hp, rfl⟩
  · rintro ⟨t,track,h,p,hp,rfl⟩
    exact ⟨track, h, hp⟩

theorem findable_iff : (∃ (k : VariableKey) (track : VariablePointerTrack), IsVariableName k.name ∧
      findVariable authFormat atRuntime s.stores k.name k.vendorGuid false =
        some (v.storeType,track) ∧ track.currPtr = some v.offset) ↔
      ∃ w ∈ s.returned atRuntime, s.placeOf atRuntime w = v := by
  constructor
  · rintro ⟨k,track,hk,hfind⟩
    have hplace := (findVariable_iff hk).mp ⟨track, hfind⟩
    obtain ⟨hmem,hkey⟩ := mem_returned_of_place hplace
    exact ⟨v, hmem, by rw [placeOf, hkey, hplace, getD_some]⟩
  · rintro ⟨w,hw,rfl⟩
    obtain ⟨-,hk,-⟩ := lookupIn_of_mem_returned hw
    obtain ⟨z,-,-,hplace⟩ := place_of_mem_returned hw
    rw [placeOf, hplace, getD_some]
    obtain ⟨track,hfind⟩ := (findVariable_iff hk).mpr hplace
    exact ⟨_, track, hk, hfind⟩

theorem lookupIn_isSome {e : Bytes} (hm : s.image t = some m)
    (he : e ∈ m.entries) (hacc : isAccessible atRuntime false e 0 = true) :
    ∃ w, s.lookupIn atRuntime (keyOf authFormat e) t = some w := by
  cases hl : m.lookup atRuntime false (keyOf authFormat e) with
  | some x => exact ⟨⟨t, x.1⟩, by simp [lookupIn, hm, hl]⟩
  | none =>
    rw [StoreImage.lookup, findEntry_eq_none_iff] at hl
    · rw [← located_map_snd getStartPointer m.entries] at he
      obtain ⟨x,hx,rfl⟩ := mem_map.mp he
      simpa [hacc] using hl x hx
    · intro d hd
      rw [Bool.and_eq_true] at hd
      exact inUse_of_accessible hd.1

theorem place_volatile (h : s.lookupIn atRuntime k .volatile = some v)
    : s.place atRuntime k = some v := by
  refine place_eq_some_iff.mpr ⟨by rw [lookupIn_storeType h, h], fun t ht => ?_⟩
  rw [lookupIn_storeType h] at ht
  exact absurd ht (Nat.not_lt_zero _)

/-- Every returned variable is found in its own place exactly when no volatile variable hides it. -/
theorem placeOf_eq_iff :
    (∀ v ∈ s.returned atRuntime, s.placeOf atRuntime v = v) ↔ s.NoVolatileTwin atRuntime := by
  constructor
  · intro h t m m' ht hm hm' d hd e he haccd hacce hkey
    obtain ⟨w,hw⟩ := lookupIn_isSome hm hd haccd
    obtain ⟨z,hz⟩ := lookupIn_isSome hm' he hacce
    rw [← hkey] at hz
    have hplace := place_volatile hw
    -- the first of the later stores that has the key returns it there
    have hhidden : ∃ u, u ∈ s.returned atRuntime ∧ u.storeType ≠ .volatile ∧
        returnedKey authFormat s.stores u = keyOf authFormat d := by
      cases hh : s.lookupIn atRuntime (keyOf authFormat d) .hob with
      | some u =>
        obtain ⟨hu,hk⟩ := mem_returned_of_lookupIn hh fun h => by cases h
        exact ⟨u, hu, by rw [lookupIn_storeType hh]; decide, hk⟩
      | none =>
        obtain ⟨hu,hk⟩ := mem_returned_of_lookupIn hz fun _ => hh
        exact ⟨z, hu, by rw [lookupIn_storeType hz]; exact ht, hk⟩
    obtain ⟨u,hu,hne,hk⟩ := hhidden
    have hu' := h u hu
    rw [placeOf, hk, hplace, getD_some] at hu'
    exact hne (by rw [← hu', lookupIn_storeType hw])
  · intro h v hv
    obtain ⟨hown,-,hhob⟩ := lookupIn_of_mem_returned hv
    obtain ⟨w,hw,hle,hplace⟩ := place_of_mem_returned hv
    obtain ⟨hwin,-⟩ := place_eq_some_iff.mp hplace
    rw [placeOf, hplace, getD_some]
    by_cases hst : w.storeType = v.storeType
    · rw [hst, hown] at hwin
      exact (Option.some.inj hwin).symm
    have hlt : w.storeType.index < v.storeType.index := by
      rcases eq_or_lt_of_le hle with rfl | hlt
      · exact absurd rfl hst
      · rcases VariablePtr.lt_iff.mp hlt with hlt | ⟨heq,-⟩
        · exact hlt
        · exact absurd (storeType_eq_of_index heq) hst
    obtain ⟨m,x,hm,hx,hkx,hrepx,-⟩ := lookupIn_eq_some_iff.mp hwin
    obtain ⟨m',y,hm',hy,hky,hrepy,-⟩ := lookupIn_eq_some_iff.mp hown
    cases hwt : w.storeType with
    | volatile =>
      rw [hwt] at hm hst
      exact absurd (hkx.trans hky.symm) (h v.storeType m m' (Ne.symm hst) hm hm' x.2
        (StoreImage.mem_entries hx) y.2 (StoreImage.mem_entries hy) hrepx.1 hrepy.1)
    | hob =>
      have hvt : v.storeType = .nv := by
        rw [hwt] at hlt
        cases hvt : v.storeType with
        | nv => rfl
        | hob | volatile =>
          rw [hvt] at hlt
          exact absurd hlt (by decide)
      rw [hwt, hhob hvt] at hwin
      cases hwin
    | nv =>
      rw [hwt] at hlt
      cases hvt : v.storeType with
      | volatile | hob | nv =>
        rw [hvt] at hlt
        exact absurd hlt (by decide)

theorem first_eq_head?_iff :
    s.first atRuntime = (s.returned atRuntime).head? ↔ s.StartsAtFirst atRuntime := by
  cases hf : s.first atRuntime with
  | none =>
    rw [returned_eq_nil_of_first hf]
    refine iff_of_true rfl ?_
    rintro t m hm ⟨x,hx,hacc⟩
    rw [first, findSome?_eq_none_iff] at hf
    rw [(firstIn_eq_none_iff hm).mp (hf t (mem_all t)) x hx] at hacc
    cases hacc
  | some v =>
    have hv := first_mem_returned hf
    obtain ⟨hin,hnone⟩ := first_eq_some hf
    obtain ⟨m,x,hm,hfind,hv'⟩ := firstIn_eq_some_iff.mp hin
    obtain ⟨hx,hacc,hcase⟩ := findEntry_accessible hfind
    rw [eq_comm, Cursor.head?_eq_some_iff (returned_sorted atRuntime) hv]
    constructor
    · intro hle t' m' hm' ⟨z, hz, hzacc⟩ hearlier y hy hyt hyrep
      -- the store of the statement is the one of the first lookup
      have ht : t' = v.storeType := by
        apply storeType_eq_of_index
        rcases lt_trichotomy t'.index v.storeType.index with hlt | heq | hgt
        · rw [(firstIn_eq_none_iff hm').mp (hnone t' hlt) z hz] at hzacc
          cases hzacc
        · exact heq
        · rw [hearlier _ m hgt hm x hx] at hacc
          cases hacc
      subst ht
      cases hm.symm.trans hm'
      have hlow : ∀ w ∈ m.locatedEntries, m.Represents atRuntime false w → x.1 ≤ w.1 := by
        intro w hw hwrep
        have := hle _ (mem_returned_of_represents hm hw hwrep hnone)
        rw [hv'] at this
        exact not_lt.mp fun hlt => absurd this (VariablePtr.mk_lt_mk.mpr hlt).not_ge
      rcases hcase with ⟨hadd,-⟩ | hlast
      · refine .inl ⟨x, hx, lt_of_le_of_ne (hlow y hy hyrep) fun heq => ?_, hacc, hadd⟩
        rw [StoreImage.eq_of_offset hx hy heq, isAdded_eq_false_of_transition hyt] at hadd
        cases hadd
      have hsame : ∀ w ∈ m.locatedEntries, isAccessible atRuntime false w.2 0 = true → w = x := by
        intro w hw hwacc
        refine StoreImage.eq_of_offset hw hx (le_antisymm (hlast w hw hwacc).2 ?_)
        exact hlow w hw ⟨hwacc, .inr fun u hu huacc _ => (hlast u hu huacc).1⟩
      refine .inr fun w hw hwacc => ?_
      rw [hsame w hw hwacc, hsame y hy hyrep.1]
    · intro hstart u hu
      obtain ⟨m',y,hm',hy,huoff,hyrep,-⟩ := mem_returned.mp hu
      rcases lt_trichotomy u.storeType.index v.storeType.index with hlt | heq | hgt
      · have := (firstIn_eq_none_iff hm').mp (hnone _ hlt) y hy
        rw [hyrep.1] at this
        cases this
      · have hst := storeType_eq_of_index heq
        rw [hst] at hm'
        cases hm.symm.trans hm'
        have hle : x.1 ≤ y.1 := by
          rcases StoreImage.added_or_transition (inUse_of_accessible hyrep.1) with
            hya | ⟨-, hyt⟩
          · rcases hcase with ⟨-,hlow⟩ | hlast
            · exact hlow y hy hyrep.1 hya
            · rw [(hlast y hy hyrep.1).1] at hya
              cases hya
          have hearlier : ∀ t' m', t'.index < v.storeType.index → s.image t' = some m' →
              ∀ z ∈ m'.locatedEntries, isAccessible atRuntime false z.2 0 = false :=
            fun t' m' hlt hm' => (firstIn_eq_none_iff hm').mp (hnone t' hlt)
          rcases hstart v.storeType m hm ⟨x, hx, hacc⟩ hearlier y hy hyt hyrep with
            ⟨z, hz, hzlt, hzacc, hzadd⟩ | halone
          · rcases hcase with ⟨-,hlow⟩ | hlast
            · exact (hlow z hz hzacc hzadd).trans hzlt.le
            · rw [(hlast z hz hzacc).1] at hzadd
              cases hzadd
          · rw [halone x hx hacc]
        rw [hv', ← not_lt, VariablePtr.lt_iff, huoff, hst]
        simp only [lt_irrefl, false_or, true_and, not_lt]
        exact hle
      · exact (VariablePtr.lt_iff.mpr (.inl hgt)).le

/-- The enumeration that starts from the empty name is complete exactly when no volatile variable
has a twin in another store and the first lookup finds the first of its store's variables. -/
theorem enumerationComplete_iff (s : StoreImages authFormat) (atRuntime : Bool)
    (vendorGuid : Bytes) : s.EnumerationComplete atRuntime ⟨[0, 0], vendorGuid⟩ ↔
      s.NoVolatileTwin atRuntime ∧ s.StartsAtFirst atRuntime := by
  have hcall : variableServiceGetNextVariableInternal authFormat atRuntime s.stores [0, 0]
      vendorGuid = nextResult (s.first atRuntime) := next_of_empty vendorGuid (by decide)
  have hmem : ∀ w, s.first atRuntime = some w → w ∈ s.returned atRuntime := fun w hw => first_mem_returned hw
  have hch := fun l => enumerates_iff (k := ⟨[0, 0], vendorGuid⟩) (l := l) hmem hcall
  simp only [EnumerationComplete, hch, findable_iff]
  rw [Cursor.visits_complete_iff (returned_sorted atRuntime) (fun x hx => (placeOf_mem hx).1)
    (fun x hx => (placeOf_mem hx).2) (fun x hx => successor_eq hx) hmem returned_eq_nil_of_first,
    placeOf_eq_iff, first_eq_head?_iff]

end StoreImages

/-! An NV store that begins with a variable which is only there IN_DELETED_TRANSITION, followed by
an ADDED one. -/

def shortEntry (state char data : UInt8) : Bytes :=
  [0xaa, 0x55, state, 0, 7, 0, 0, 0, 4, 0, 0, 0, 1, 0, 0, 0] ++ replicate 16 0 ++
    [char, 0, 0, 0, data, 0xff, 0xff, 0xff]

def storeHeader (size : UInt8) : Bytes :=
  replicate 16 0 ++ [size, 0, 0, 0, 0x5a, 0xfe] ++ replicate 6 0

def transitionFirst : StoreImage false where
  header := storeHeader 112
  entries := [shortEntry 0x3e 0x41 1, shortEntry 0x3f 0x42 1]
  tail := [0xff, 0xff, 0xff, 0xff]
  length_header := by decide
  isEntry := by
    rintro e (_ | ⟨_,_ | ⟨_,_ | _⟩⟩)
    · exact ⟨by decide, by decide, by decide⟩
    · exact ⟨by decide, by decide, by decide⟩
  startId_tail := by decide
  storeSize_header := by decide
  dvd_storeSize := by decide

theorem transitionFirst_wellFormed : transitionFirst.WellFormed where
  names := by
    rintro e (_ | ⟨_,_ | ⟨_,_ | _⟩⟩) _
    · exact ⟨by decide, by decide⟩
    · exact ⟨by decide, by decide⟩
  distinct := by
    refine pairwise_pair.mpr fun _ h => ?_
    exact absurd h (by decide)

def transitionFirstStores : StoreImages false where
  image t := if t = .nv then some transitionFirst else none
  wellFormed t m h := by
    rw [Option.ite_none_right_eq_some, Option.some.injEq] at h
    rw [← h.2]
    exact transitionFirst_wellFormed

/-- The enumeration visits the ADDED variable only, although `FindVariable` returns the other. -/
theorem enumeration_skips_transition :
    ¬ transitionFirstStores.EnumerationComplete false ⟨[0, 0], replicate 16 0⟩ := by
  rintro ⟨l,hl,-,hall⟩
  have hmem : (⟨.nv, 28⟩ : VariablePtr) ∈ l :=
    (hall _).mpr ⟨⟨[0x41, 0, 0, 0], replicate 16 0⟩, ⟨some 28, none⟩,
      ⟨by decide +kernel, by decide +kernel⟩, by decide +kernel, by decide +kernel⟩
  have hfst : variableServiceGetNextVariableInternal false false transitionFirstStores.stores
      [0, 0] (replicate 16 0) = (.success, some ⟨.nv, 68⟩) := by decide +kernel
  have hsecond : variableServiceGetNextVariableInternal false false transitionFirstStores.stores
      (returnedKey false transitionFirstStores.stores ⟨.nv, 68⟩).name
      (returnedKey false transitionFirstStores.stores ⟨.nv, 68⟩).vendorGuid =
        (.notFound, none) := by decide +kernel
  obtain ⟨l',rfl,hl'⟩ := hl.eq_cons hfst
  rw [hl'.eq_nil hsecond, mem_singleton] at hmem
  cases hmem

end Liano.Variable
