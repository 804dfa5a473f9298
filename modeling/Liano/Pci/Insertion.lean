import Mathlib.Data.Prod.Lex
import Mathlib.Data.List.GetD
import Mathlib.Data.List.Perm.Basic
import Liano.Pci.CapList

/-! The two collections after the insertion of some capability headers: each header has one
`PCI_CAP`, numbered among those of its capability in the order of insertion. -/
namespace Liano.Pci

open List hiding le_antisymm not_lt set

/-- What `InsertPciCap` is called with. -/
structure Header where
  domain : PciCapDomain
  capId : Nat
  offset : Nat
  version : Nat
deriving DecidableEq, Repr

def sameCap (h g : Header) : Bool := h.domain == g.domain && h.capId == g.capId

section
variable (hs : List Header) (i : Nat)

def headerAt : Header := hs.getD i ⟨.normal, 0, 0, 0⟩

def instanceNo : Nat := (hs.take i).countP (sameCap (headerAt hs i))

def instanceCount : Nat := hs.countP (sameCap (headerAt hs i))

def firstInstance : Nat := hs.findIdx (sameCap (headerAt hs i))

def keyOf : PciCapKey :=
  ⟨(headerAt hs i).domain, (headerAt hs i).capId, instanceNo hs i⟩

/-- The `PCI_CAP` of the `i`-th header, before the size hints are calculated. -/
def capOf : PciCap where
  key := keyOf hs i
  numInstancesUnion := if instanceNo hs i = 0 then .numInstances (instanceCount hs i)
    else .instanceZero (firstInstance hs i)
  offset := (headerAt hs i).offset
  maxSizeHint := 0
  version := (headerAt hs i).version

end

def rank (k : PciCapKey) : ℕ ×ₗ ℕ ×ₗ ℕ := toLex (k.domain.toNat, toLex (k.capId,k.capInstance))

theorem toNat_injective {d e : PciCapDomain} (h : d.toNat = e.toNat) : d = e := by
  cases d <;> cases e <;> first | rfl | cases h

variable {a b : PciCapKey}

theorem rank_lt_iff : rank a < rank b ↔ a.domain.toNat < b.domain.toNat ∨ a.domain = b.domain ∧
      (a.capId < b.capId ∨ a.capId = b.capId ∧ a.capInstance < b.capInstance) := by
  rw [rank, rank, Prod.Lex.toLex_lt_toLex, Prod.Lex.toLex_lt_toLex]
  have hd : a.domain.toNat = b.domain.toNat ↔ a.domain = b.domain := ⟨toNat_injective, fun h => congrArg _ h⟩
  simp only [hd]

theorem rank_injective (h : rank a = rank b) : a = b := by
  simp only [rank, EmbeddingLike.apply_eq_iff_eq, Prod.mk.injEq] at h
  cases a
  cases b
  simp only [PciCapKey.mk.injEq]
  exact ⟨toNat_injective h.1, h.2⟩

theorem compare_eq_zero_iff : comparePciCapKey a b = 0 ↔ a = b := by
  constructor
  · intro h
    rw [comparePciCapKey] at h
    have hdomain : a.domain.toNat = b.domain.toNat := by split_ifs at h <;> omega
    have hcapId : a.capId = b.capId := by split_ifs at h <;> omega
    have hinstance : a.capInstance = b.capInstance := by split_ifs at h <;> omega
    cases a
    cases b
    exact PciCapKey.mk.injEq .. ▸ ⟨toNat_injective hdomain, hcapId, hinstance⟩
  · rintro rfl
    simp [comparePciCapKey]

theorem compare_le_iff : comparePciCapKey a b ≤ 0 ↔ rank a ≤ rank b := by
  rw [← not_lt, ← not_lt (a := rank b), not_iff_not, rank_lt_iff, comparePciCapKey]
  have hd : b.domain = a.domain ↔ b.domain.toNat = a.domain.toNat := ⟨fun h => congrArg _ h, toNat_injective⟩
  rw [hd]
  split_ifs <;> omega

section
variable {hs : List Header} {h : Header} {i : Nat}

theorem sameCap_self (h : Header) : sameCap h h = true := by simp [sameCap]

theorem sameCap_congr {h g : Header} (hg : sameCap h g = true) : sameCap g = sameCap h := by
  funext x
  simp only [sameCap, Bool.and_eq_true, beq_iff_eq] at hg
  rw [sameCap, sameCap, hg.1, hg.2]

theorem headerAt_append_left (hi : i < hs.length) : headerAt (hs ++ [h]) i = headerAt hs i := by
  rw [headerAt, headerAt, getD_append _ _ _ _ hi]

theorem headerAt_append_right : headerAt (hs ++ [h]) hs.length = h := by simp [headerAt]

theorem headerAt_mem (hi : i < hs.length) : headerAt hs i ∈ hs := by
  rw [headerAt, getD_eq_getElem _ _ hi]
  exact getElem_mem hi

theorem instanceNo_append_left (hi : i < hs.length) : instanceNo (hs ++ [h]) i = instanceNo hs i := by
  rw [instanceNo, instanceNo, headerAt_append_left hi, take_append_of_le_length hi.le]

theorem instanceNo_append_right : instanceNo (hs ++ [h]) hs.length = hs.countP (sameCap h) := by
  rw [instanceNo, headerAt_append_right, take_left']
  rfl

theorem instanceCount_append_left (hi : i < hs.length) : instanceCount (hs ++ [h]) i =
    instanceCount hs i + if sameCap (headerAt hs i) h then 1 else 0 := by
  rw [instanceCount, instanceCount, headerAt_append_left hi, countP_append, countP_singleton]

theorem instanceCount_append_right : instanceCount (hs ++ [h]) hs.length = hs.countP (sameCap h) + 1 := by
  rw [instanceCount, headerAt_append_right, countP_append, countP_singleton, sameCap_self, if_pos rfl]

theorem firstInstance_append_left (hi : i < hs.length) :
    firstInstance (hs ++ [h]) i = firstInstance hs i := by
  rw [firstInstance, firstInstance, headerAt_append_left hi, findIdx_append, if_pos]
  exact findIdx_lt_length_of_exists ⟨_, headerAt_mem hi, sameCap_self _⟩

theorem firstInstance_append_right (hk : 0 < hs.countP (sameCap h)) :
    firstInstance (hs ++ [h]) hs.length = hs.findIdx (sameCap h) := by
  obtain ⟨g,hg,hs'⟩ := countP_pos_iff.mp hk
  rw [firstInstance, headerAt_append_right, findIdx_append, if_pos]
  exact findIdx_lt_length_of_exists ⟨g, hg, hs'⟩

theorem keyOf_append_left (hi : i < hs.length) : keyOf (hs ++ [h]) i = keyOf hs i := by
  rw [keyOf, keyOf, headerAt_append_left hi, instanceNo_append_left hi]

theorem keyOf_append_right : keyOf (hs ++ [h]) hs.length = ⟨h.domain, h.capId, hs.countP (sameCap h)⟩ := by
  rw [keyOf, headerAt_append_right, instanceNo_append_right]

theorem instanceNo_lt (hi : i < hs.length) (hsame : sameCap h (headerAt hs i) = true) :
    instanceNo hs i < hs.countP (sameCap h) := by
  rw [instanceNo, sameCap_congr hsame]
  have hsplit : hs = hs.take i ++ headerAt hs i :: hs.drop (i+1) := by
    rw [headerAt, getD_eq_getElem _ _ hi, getElem_cons_drop, take_append_drop]
  conv_rhs => rw [hsplit, countP_append, countP_cons, hsame, if_pos rfl]
  omega

theorem instanceNo_eq_zero_iff (hi : i < hs.length) (hsame : sameCap h (headerAt hs i) = true) :
    instanceNo hs i = 0 ↔ i = hs.findIdx (sameCap h) := by
  rw [instanceNo, sameCap_congr hsame, countP_eq_zero]
  have hget : hs[i] = headerAt hs i := by rw [headerAt, getD_eq_getElem _ _ hi]
  have hle : hs.findIdx (sameCap h) ≤ i := by
    by_contra hlt
    have := not_of_lt_findIdx (Nat.lt_of_not_le hlt)
    rw [hget, hsame] at this
    exact absurd this (by decide)
  constructor
  · intro hnone
    refine le_antisymm (Nat.le_of_not_lt fun hlt => ?_) hle
    have hfl : hs.findIdx (sameCap h) < hs.length := hlt.trans hi
    have htrue := findIdx_getElem (w := hfl)
    refine hnone hs[hs.findIdx (sameCap h)] ?_ htrue
    rw [mem_take_iff_getElem]
    exact ⟨hs.findIdx (sameCap h), by omega, rfl⟩
  · intro heq x hx
    rw [mem_take_iff_getElem] at hx
    obtain ⟨j,hj,rfl⟩ := hx
    have := not_of_lt_findIdx (p := sameCap h) (show j < hs.findIdx (sameCap h) by omega)
    simpa using this

end

theorem pairwise_orderedInsert {κ : Type} [LinearOrder κ] {f : Nat → κ} {r : Nat → Nat → Prop}
    [DecidableRel r] {l : List Nat} {p : Nat} (hr : ∀ q ∈ l, r p q ↔ f p ≤ f q)
    (hl : l.Pairwise fun a b => f a < f b) (hne : ∀ q ∈ l, f q ≠ f p) :
    (l.orderedInsert r p).Pairwise fun a b => f a < f b := by
  induction l with
  | nil => exact pairwise_singleton _ _
  | cons q l ih =>
    have hq := pairwise_cons.mp hl
    have hrq := hr q mem_cons_self
    have hneq := hne q mem_cons_self
    rw [orderedInsert_cons]
    by_cases hle : r p q
    · rw [if_pos hle]
      have hlt : f p < f q := lt_of_le_of_ne (hrq.mp hle) hneq.symm
      refine pairwise_cons.mpr ⟨fun x hx => ?_, hl⟩
      rcases mem_cons.mp hx with rfl | hx
      · exact hlt
      · exact hlt.trans (hq.1 x hx)
    rw [if_neg hle]
    refine pairwise_cons.mpr ⟨fun x hx => ?_, ih (fun x hx => hr x (mem_cons_of_mem _ hx)) hq.2
      fun x hx => hne x (mem_cons_of_mem _ hx)⟩
    rcases (mem_orderedInsert r).mp hx with rfl | hx
    · exact lt_of_not_ge fun hge => hle (hrq.mpr hge)
    · exact hq.1 x hx

/-- An insertion finds an equal element, or fails to allocate, or puts the new one in its place. -/
theorem orderedCollectionInsert_cases {κ : Type} [LinearOrder κ] {f : Nat → κ}
    {cmp : Nat → Nat → Int} {l : List Nat} {p : Nat} {allocated : Bool}
    (hzero : ∀ q ∈ l, cmp p q = 0 ↔ f p = f q) (hle : ∀ q ∈ l, cmp p q ≤ 0 ↔ f p ≤ f q)
    (hl : l.Pairwise fun a b => f a < f b) :
    (∃ q ∈ l, f p = f q ∧ orderedCollectionInsert cmp l p allocated = .alreadyStarted q) ∨
    ((∀ q ∈ l, f p ≠ f q) ∧ (allocated = false ∧ orderedCollectionInsert cmp l p allocated = .outOfResources ∨
      allocated = true ∧ ∃ l', l'.Perm (p :: l) ∧ l'.Pairwise (fun a b => f a < f b) ∧
        orderedCollectionInsert cmp l p allocated = .success l')) := by
  rw [orderedCollectionInsert]
  cases hf : l.find? fun q => cmp p q == 0 with
  | some q =>
    have hmem := mem_of_find?_eq_some hf
    have hq := find?_some hf
    exact .inl ⟨q, hmem, (hzero q hmem).mp (by simpa using hq), rfl⟩
  | none =>
    have hne : ∀ q ∈ l, f p ≠ f q := by
      intro q hq heq
      have := find?_eq_none.mp hf q hq
      rw [(hzero q hq).mpr heq] at this
      exact this rfl
    refine .inr ⟨hne, ?_⟩
    cases allocated with
    | false => exact .inl ⟨rfl, rfl⟩
    | true =>
      refine .inr ⟨rfl, _, perm_orderedInsert _ p l, ?_, rfl⟩
      exact pairwise_orderedInsert hle hl fun q hq => (hne q hq).symm

/-- One `PCI_CAP` for each header, linked by both collections. -/
structure Represents (st : PciParse) (hs : List Header) : Prop where
  caps : st.caps = (range hs.length).map fun i => some (capOf hs i)
  capabilities : st.capabilities.Perm (range hs.length)
  sorted : st.capabilities.Pairwise fun a b => rank (keyOf hs a) < rank (keyOf hs b)
  capHdrOffsets : st.capHdrOffsets.Perm (range hs.length)
  sortedOffsets : st.capHdrOffsets.Pairwise fun a b => (headerAt hs a).offset < (headerAt hs b).offset

/-- Every `PCI_CAP` that is not freed is linked by `Capabilities`. -/
def Owned (st : PciParse) : Prop := ∀ p cap, st.caps[p]? = some (some cap) → p ∈ st.capabilities

theorem capAt_eq {caps : List (Option PciCap)} {p : Nat} {cap : PciCap}
    (h : caps[p]? = some (some cap)) : capAt caps p = cap := by
  rw [capAt, getD_eq_getElem?_getD, h]
  rfl

section
variable {st : PciParse} {hs : List Header} {h : Header} {q : Nat}

theorem Represents.getElem? (hr : Represents st hs) {i : Nat} (hi : i < hs.length) :
    st.caps[i]? = some (some (capOf hs i)) := by
  rw [hr.caps, List.getElem?_map, List.getElem?_range hi]
  rfl

theorem Represents.length (hr : Represents st hs) : st.caps.length = hs.length := by
  rw [hr.caps, length_map, length_range]

theorem Represents.owned (hr : Represents st hs) : Owned st := by
  intro p cap hp
  have hlt := (List.getElem?_eq_some_iff.mp hp).1
  rw [hr.length] at hlt
  exact hr.capabilities.mem_iff.mpr (mem_range.mpr hlt)

theorem mem_of_headD_false {l : List Bool} (hl : l.headD true = false) : false ∈ l := by
  cases l with
  | nil => cases hl
  | cons b l =>
    obtain rfl : b = false := hl
    exact mem_cons_self

theorem linkCapHdrOffset_cases (instanceZero : Option Nat)
    (hold : ∀ q < hs.length, offsetAt st.caps q = (headerAt hs q).offset)
    (hnew : offsetAt st.caps hs.length = h.offset)
    (hperm : st.capHdrOffsets.Perm (range hs.length)) (hsort : st.capHdrOffsets.Pairwise fun a b =>
      (headerAt hs a).offset < (headerAt hs b).offset) :
    (h.offset ∈ hs.map Header.offset ∧ linkCapHdrOffset st hs.length instanceZero =
        (deletePciCap st hs.length, .deviceError)) ∨
    (false ∈ st.allocations ∧ linkCapHdrOffset st hs.length instanceZero =
        (deletePciCap { st with allocations := st.allocations.tail } hs.length, .outOfResources)) ∨
    (h.offset ∉ hs.map Header.offset ∧ ∃ l, l.Perm (range (hs.length+1)) ∧
      l.Pairwise (fun a b => (headerAt (hs ++ [h]) a).offset < (headerAt (hs ++ [h]) b).offset) ∧
      linkCapHdrOffset st hs.length instanceZero =
        (instanceZero.elim { st with capHdrOffsets := l, allocations := st.allocations.tail }
          (countInstance { st with capHdrOffsets := l, allocations := st.allocations.tail }), .success)) := by
  have hlt : ∀ q ∈ st.capHdrOffsets, q < hs.length := fun q hq => mem_range.mp (hperm.mem_iff.mp hq)
  have hat : ∀ q ∈ st.capHdrOffsets, (headerAt (hs ++ [h]) q).offset = (headerAt hs q).offset :=
    fun q hq => by rw [headerAt_append_left (hlt q hq)]
  have hsorted' : st.capHdrOffsets.Pairwise fun a b =>
      (headerAt (hs ++ [h]) a).offset < (headerAt (hs ++ [h]) b).offset := by
    refine hsort.imp_of_mem fun ha hb hab => ?_
    rwa [hat _ ha, hat _ hb]
  have hp : (headerAt (hs ++ [h]) hs.length).offset = h.offset := by rw [headerAt_append_right]
  have hins := @orderedCollectionInsert_cases Nat _ (fun i => (headerAt (hs ++ [h]) i).offset)
    (fun a b => comparePciCapOffset (offsetAt st.caps a) (offsetAt st.caps b)) st.capHdrOffsets
    hs.length (st.allocations.headD true)
    (fun q hq => by
      simp only [hnew, hold q (hlt q hq), hp, hat q hq, comparePciCapOffset]
      omega)
    (fun q hq => by
      simp only [hnew, hold q (hlt q hq), hp, hat q hq, comparePciCapOffset]
      omega) hsorted'
  rw [linkCapHdrOffset]
  rcases hins with ⟨q,hq,heq,hres⟩ | ⟨hne,⟨hall,hres⟩ | ⟨hall,l,hl,hlp,hres⟩⟩
  · refine .inl ⟨?_, by rw [hres]⟩
    rw [← hp, heq, hat q hq]
    exact mem_map_of_mem (headerAt_mem (hlt q hq))
  · exact .inr (.inl ⟨mem_of_headD_false hall, by rw [hres]⟩)
  refine .inr (.inr ⟨?_, l, ?_, hlp, by rw [hres]⟩)
  · intro hmem
    obtain ⟨g,hg,hgo⟩ := mem_map.mp hmem
    obtain ⟨i,hi,rfl⟩ := mem_iff_getElem.mp hg
    have hiq : i ∈ st.capHdrOffsets := hperm.mem_iff.mpr (mem_range.mpr hi)
    refine hne i hiq ?_
    rw [hp, hat i hiq, headerAt, getD_eq_getElem _ _ hi, hgo]
  · rw [range_succ]
    exact hl.trans ((hperm.cons _).trans (perm_append_singleton _ _).symm)

theorem owned_free (hcaps : st.caps.length = hs.length+1)
    (hperm : st.capabilities.Perm (List.range hs.length)) : Owned (st.free hs.length) := by
  intro p cap hp
  rw [PciParse.free] at hp ⊢
  have hne : p ≠ hs.length := by
    rintro rfl
    rw [getElem?_set_self (by omega)] at hp
    cases hp
  have hlt := (List.getElem?_eq_some_iff.mp hp).1
  rw [length_set, hcaps] at hlt
  exact hperm.mem_iff.mpr (mem_range.mpr (by omega))

theorem owned_deletePciCap (hcaps : st.caps.length = hs.length+1)
    (hperm : st.capabilities.Perm (hs.length :: range hs.length)) :
    Owned (deletePciCap st hs.length) := by
  refine @owned_free { st with capabilities := st.capabilities.filter (· != hs.length) } hs hcaps ?_
  have hfilter : (hs.length :: range hs.length).filter (· != hs.length) = range hs.length := by
    rw [filter_cons_of_neg (by simp), filter_eq_self]
    intro i hi
    rw [mem_range] at hi
    rw [bne_iff_ne]
    omega
  rw [← hfilter]
  exact hperm.filter _

theorem represents_append {st' : PciParse} (hr : Represents st hs) {l : List Nat} {new : PciCap}
    (hnew : new = capOf (hs ++ [h]) hs.length)
    (hcaps : st'.caps = (st.caps ++ [some new]).mapIdx fun i cap =>
      if i < hs.length ∧ i = hs.findIdx (sameCap h) ∧ 0 < hs.countP (sameCap h) then
        cap.map fun cap => { cap with
          numInstancesUnion := .numInstances (instanceCount hs i + 1) } else cap)
    (hl : l.Perm (hs.length :: st.capabilities))
    (hlp : l.Pairwise fun a b => rank (keyOf (hs ++ [h]) a) < rank (keyOf (hs ++ [h]) b))
    (hcapabilities : st'.capabilities = l)
    (hoffsets : st'.capHdrOffsets.Perm (range (hs.length+1)))
    (hsortOffsets : st'.capHdrOffsets.Pairwise fun a b =>
      (headerAt (hs ++ [h]) a).offset < (headerAt (hs ++ [h]) b).offset) : Represents st' (hs ++ [h]) := by
  have hlen : (hs ++ [h]).length = hs.length+1 := by simp
  refine ⟨?_, ?_, hcapabilities ▸ hlp, by rw [hlen]; exact hoffsets, hsortOffsets⟩
  · rw [hcaps, hlen, range_succ, map_append, map_singleton, ← hnew]
    apply ext_getElem?
    intro i
    rw [getElem?_mapIdx]
    rcases lt_trichotomy i hs.length with hi | rfl | hi
    · rw [getElem?_append_left (by rw [hr.length]; exact hi), hr.getElem? hi,
        getElem?_append_left (by simpa using hi), getElem?_map, getElem?_range hi,
        Option.map_some, Option.map_some]
      have hcap : capOf (hs ++ [h]) i = { capOf hs i with
          numInstancesUnion := if instanceNo hs i = 0 then
            .numInstances (instanceCount hs i + if sameCap (headerAt hs i) h then 1 else 0)
            else .instanceZero (firstInstance hs i) } := by
        rw [capOf, keyOf_append_left hi, instanceNo_append_left hi, firstInstance_append_left hi,
          instanceCount_append_left hi, headerAt_append_left hi]
        rfl
      rw [Option.map_some, hcap]
      by_cases hsame : sameCap h (headerAt hs i) = true
      · have hcongr := sameCap_congr hsame
        have hpos : 0 < hs.countP (sameCap h) := countP_pos_iff.mpr ⟨_, headerAt_mem hi, hsame⟩
        have hself : sameCap (headerAt hs i) h = true := by rw [hcongr]; exact sameCap_self h
        have hzero := instanceNo_eq_zero_iff hi hsame
        by_cases hfi : i = hs.findIdx (sameCap h)
        · rw [if_pos ⟨hi, hfi, hpos⟩, if_pos (hzero.mpr hfi), if_pos hself]
        · rw [if_neg fun hc => hfi hc.2.1, if_neg fun hc => hfi (hzero.mp hc), capOf,
            if_neg fun hc => hfi (hzero.mp hc)]
      · have hself : ¬ sameCap (headerAt hs i) h = true := by
          intro hc
          have := sameCap_congr hc
          rw [this, sameCap_self] at hsame
          exact hsame rfl
        have hfi : ¬ (i < hs.length ∧ i = hs.findIdx (sameCap h) ∧ 0 < hs.countP (sameCap h)) := by
          rintro ⟨-,hfi,hpos⟩
          obtain ⟨g,hg,hgs⟩ := countP_pos_iff.mp hpos
          have hlt := findIdx_lt_length_of_exists ⟨g, hg, hgs⟩
          have htrue := findIdx_getElem (w := hlt)
          apply hsame
          rw [headerAt, getD_eq_getElem _ _ hi]
          simp only [hfi]
          exact htrue
        rw [if_neg hfi, if_neg hself, add_zero]
        rfl
    · rw [getElem?_append_right (by rw [hr.length]), hr.length, Nat.sub_self,
        getElem?_append_right (by simp), length_map, length_range, Nat.sub_self]
      simp
    · rw [getElem?_eq_none (by simp [hr.length]; omega), getElem?_eq_none (by simp; omega)]
      rfl
  · rw [hcapabilities, hlen, range_succ]
    exact hl.trans ((hr.capabilities.cons _).trans (perm_append_singleton _ _).symm)

theorem modify_length_append {α : Type} (l : List α) (x : α) (f : α → α) :
    (l ++ [x]).modify l.length f = l ++ [f x] := by
  induction l with
  | nil => rfl
  | cons a l ih => rw [cons_append, length_cons, modify_succ_cons, ih, cons_append]

theorem compareCaps_cases {caps : List (Option PciCap)} {l : List Nat} {p : Nat} {allocated : Bool}
    (hl : l.Pairwise fun a b => rank (keyAt caps a) < rank (keyAt caps b)) :
    (∃ q ∈ l, keyAt caps p = keyAt caps q ∧
      orderedCollectionInsert (compareCaps caps) l p allocated = .alreadyStarted q) ∨
    ((∀ q ∈ l, keyAt caps p ≠ keyAt caps q) ∧ (allocated = false ∧
        orderedCollectionInsert (compareCaps caps) l p allocated = .outOfResources ∨
      allocated = true ∧ ∃ l', l'.Perm (p :: l) ∧
        l'.Pairwise (fun a b => rank (keyAt caps a) < rank (keyAt caps b)) ∧
        orderedCollectionInsert (compareCaps caps) l p allocated = .success l')) := by
  rcases @orderedCollectionInsert_cases _ _ (fun i => rank (keyAt caps i)) (compareCaps caps) l p
    allocated (fun q _ => compare_eq_zero_iff.trans ⟨congrArg rank, rank_injective⟩)
    (fun q _ => compare_le_iff) hl with ⟨q,hq,heq,hres⟩ | ⟨hne,hres⟩
  · exact .inl ⟨q, hq, rank_injective heq, hres⟩
  · exact .inr ⟨fun q hq heq => hne q hq (congrArg rank heq), hres⟩

def InsertOutcome (st : PciParse) (hs : List Header) (h : Header) (r : PciParse × EfiStatus) : Prop :=
  r.1.allocations <:+ st.allocations ∧
  (r.2 = .success ∧ Represents r.1 (hs ++ [h]) ∧ h.offset ∉ hs.map Header.offset ∨
  r.2 = .deviceError ∧ Owned r.1 ∧ h.offset ∈ hs.map Header.offset ∨
  r.2 = .outOfResources ∧ Owned r.1 ∧ false ∈ st.allocations)

theorem link_outcome {st' : PciParse} {new : PciCap} {instanceZero : Option Nat}
    (hr : Represents st hs) (hnew : new = capOf (hs ++ [h]) hs.length)
    (hcaps : st'.caps = st.caps ++ [some new])
    (hcapabilities : st'.capabilities.Perm (hs.length :: st.capabilities))
    (hsort : st'.capabilities.Pairwise fun a b =>
      rank (keyOf (hs ++ [h]) a) < rank (keyOf (hs ++ [h]) b))
    (hoffsets : st'.capHdrOffsets = st.capHdrOffsets) (halloc : st'.allocations <:+ st.allocations)
    (hzero : instanceZero = if 0 < hs.countP (sameCap h) then some (hs.findIdx (sameCap h)) else none) :
    InsertOutcome st hs h (linkCapHdrOffset st' hs.length instanceZero) := by
  have hlen : st'.caps.length = hs.length+1 := by rw [hcaps, length_append, hr.length, length_singleton]
  have hperm : st'.capabilities.Perm (hs.length :: range hs.length) :=
    hcapabilities.trans (hr.capabilities.cons _)
  have hcap : ∀ q < hs.length, st'.caps[q]? = some (some (capOf hs q)) := by
    intro q hq
    rw [hcaps, getElem?_append_left (by rw [hr.length]; exact hq), hr.getElem? hq]
  have hlast : st'.caps[hs.length]? = some (some new) := by
    rw [hcaps, getElem?_append_right (by rw [hr.length]), hr.length, Nat.sub_self]
    rfl
  have hold : ∀ q < hs.length, offsetAt st'.caps q = (headerAt hs q).offset := by
    intro q hq
    rw [offsetAt, capAt_eq (hcap q hq)]
    rfl
  have hp : offsetAt st'.caps hs.length = h.offset := by
    rw [offsetAt, capAt_eq hlast, hnew, capOf, headerAt_append_right]
  have htail : st'.allocations.tail <:+ st.allocations := (tail_suffix _).trans halloc
  rcases linkCapHdrOffset_cases instanceZero hold hp (hoffsets ▸ hr.capHdrOffsets)
    (hoffsets ▸ hr.sortedOffsets) with ⟨hmem,hres⟩ | ⟨hall,hres⟩ | ⟨hnot,l,hl,hlp,hres⟩
  · rw [hres]
    exact ⟨halloc, .inr (.inl ⟨rfl, owned_deletePciCap hlen hperm, hmem⟩)⟩
  · rw [hres]
    exact ⟨htail, .inr (.inr ⟨rfl,
      @owned_deletePciCap { st' with allocations := st'.allocations.tail } hs hlen hperm,
      halloc.subset hall⟩)⟩
  rw [hres]
  have hmodify : ∀ i : Nat, (st'.caps.mapIdx fun i cap =>
      if i < hs.length ∧ i = hs.findIdx (sameCap h) ∧ 0 < hs.countP (sameCap h) then
        cap.map fun cap => { cap with
          numInstancesUnion := .numInstances (instanceCount hs i + 1) } else cap)[i]? =
      ((instanceZero.elim { st' with capHdrOffsets := l, allocations := st'.allocations.tail }
        (countInstance { st' with
          capHdrOffsets := l, allocations := st'.allocations.tail })).caps)[i]? := by
    intro i
    rw [getElem?_mapIdx, hzero]
    by_cases hpos : 0 < hs.countP (sameCap h)
    · rw [if_pos hpos, Option.elim_some, countInstance, PciParse.modify, getElem?_modify]
      obtain ⟨g,hg,hgs⟩ := countP_pos_iff.mp hpos
      have hfl := findIdx_lt_length_of_exists ⟨g, hg, hgs⟩
      by_cases hi : i = hs.findIdx (sameCap h)
      · subst hi
        have hsame : sameCap h (headerAt hs (hs.findIdx (sameCap h))) = true := by
          rw [headerAt, getD_eq_getElem _ _ hfl]
          exact findIdx_getElem (w := hfl)
        rw [hcap _ hfl]
        simp only [hfl, hpos, and_self, if_true, Option.map_some, capOf,
          (instanceNo_eq_zero_iff hfl hsame).mpr rfl]
        rfl
      · have hi' : ¬ hs.findIdx (sameCap h) = i := fun he => hi he.symm
        simp only [hi, hi', false_and, and_false, if_false]
        cases st'.caps[i]? <;> rfl
    · rw [if_neg hpos, Option.elim_none]
      simp only [hpos, and_false, if_false]
      cases st'.caps[i]? <;> rfl
  refine ⟨?_, .inl ⟨rfl, ?_, hnot⟩⟩
  · cases instanceZero <;> exact htail
  · refine represents_append hr hnew (l := st'.capabilities) ?_ hcapabilities hsort ?_ ?_ ?_
    · rw [← hcaps]
      exact (ext_getElem? hmodify).symm
    · cases instanceZero <;> rfl
    · cases instanceZero <;> exact hl
    · cases instanceZero <;> exact hlp

def insertHeader (st : PciParse) (h : Header) : PciParse × EfiStatus :=
  insertPciCap st h.domain h.capId h.offset h.version

section
variable (hr : Represents st hs) (new : PciCap)
include hr

theorem Represents.lt_of_mem (hq : q ∈ st.capabilities) : q < hs.length :=
  mem_range.mp (hr.capabilities.mem_iff.mp hq)

theorem Represents.keyAt_append (hq : q < hs.length) : keyAt (st.caps ++ [some new]) q = keyOf hs q := by
  rw [keyAt, @capAt_eq _ _ (capOf hs q)]
  · rfl
  · rw [getElem?_append_left (by rw [hr.length]; exact hq), hr.getElem? hq]

theorem Represents.keyAt_append_self : keyAt (st.caps ++ [some new]) hs.length = new.key := by
  rw [keyAt, @capAt_eq _ _ new]
  rw [getElem?_append_right (by rw [hr.length]), hr.length, Nat.sub_self]
  rfl

theorem Represents.sorted_append : st.capabilities.Pairwise fun a b =>
    rank (keyAt (st.caps ++ [some new]) a) < rank (keyAt (st.caps ++ [some new]) b) := by
  refine hr.sorted.imp_of_mem fun ha hb hab => ?_
  rwa [hr.keyAt_append new (hr.lt_of_mem ha), hr.keyAt_append new (hr.lt_of_mem hb)]

/-- A new capability of the next header is linked in the order of the keys. -/
theorem Represents.sorted_linked {new : PciCap} (hk : new.key = keyOf (hs ++ [h]) hs.length) {l : List Nat}
    (hl : l.Perm (hs.length :: st.capabilities)) (hlp : l.Pairwise fun a b =>
      rank (keyAt (st.caps ++ [some new]) a) < rank (keyAt (st.caps ++ [some new]) b)) :
    l.Pairwise fun a b => rank (keyOf (hs ++ [h]) a) < rank (keyOf (hs ++ [h]) b) := by
  have hat : ∀ q ∈ l, keyAt (st.caps ++ [some new]) q = keyOf (hs ++ [h]) q := by
    intro q hq
    rcases mem_cons.mp (hl.mem_iff.mp hq) with rfl | hq
    · rw [hr.keyAt_append_self, hk]
    · rw [hr.keyAt_append new (hr.lt_of_mem hq), keyOf_append_left (hr.lt_of_mem hq)]
  refine hlp.imp_of_mem fun ha hb hab => ?_
  rwa [← hat _ ha, ← hat _ hb]

end

theorem insertPciCap_outcome (hr : Represents st hs) (h : Header) :
    InsertOutcome st hs h (insertHeader st h) := by
  rw [insertHeader, insertPciCap]
  by_cases halloc : st.allocations.headD true = false
  · rw [if_pos halloc]
    exact ⟨tail_suffix _, .inr (.inr ⟨rfl, hr.owned, mem_of_headD_false halloc⟩)⟩
  rw [if_neg halloc]
  simp only [hr.length]
  set new0 : PciCap := ⟨⟨h.domain, h.capId, 0⟩, .numInstances 1, h.offset, 0, h.version⟩
  have htail2 : st.allocations.tail.tail <:+ st.allocations := (tail_suffix _).trans (tail_suffix _)
  have hsub : ∀ b, b ∈ st.allocations.tail → b ∈ st.allocations := fun b hb => (tail_suffix _).subset hb
  rcases @compareCaps_cases (st.caps ++ [some new0]) st.capabilities hs.length
    (st.allocations.tail.headD true) (hr.sorted_append new0) with
    ⟨q, hq, hkey, hres⟩ | ⟨hne, ⟨hall, hres⟩ | ⟨hall, l, hl, hlp, hres⟩⟩
  · -- a further instance of the capability of `q`, which is its first one
    have hqlt := hr.lt_of_mem hq
    rw [hr.keyAt_append_self, hr.keyAt_append new0 hqlt] at hkey
    have hsame : sameCap h (headerAt hs q) = true := by
      simp only [new0, keyOf, PciCapKey.mk.injEq] at hkey
      rw [sameCap, hkey.1, hkey.2.1, beq_self_eq_true, beq_self_eq_true]
      rfl
    have hno : instanceNo hs q = 0 := by
      simp only [new0, keyOf, PciCapKey.mk.injEq] at hkey
      exact hkey.2.2.symm
    have hfst := (instanceNo_eq_zero_iff hqlt hsame).mp hno
    have hpos : 0 < hs.countP (sameCap h) := countP_pos_iff.mpr ⟨_, headerAt_mem hqlt, hsame⟩
    have hcnt : (capAt (st.caps ++ [some new0]) q).numInstancesUnion.count = hs.countP (sameCap h) := by
      rw [@capAt_eq _ _ (capOf hs q)]
      · rw [capOf, if_pos hno, PciCapNumInstances.count, instanceCount, sameCap_congr hsame]
      · rw [getElem?_append_left (by rw [hr.length]; exact hqlt), hr.getElem? hqlt]
    set new1 : PciCap := { new0 with
      key := ⟨h.domain, h.capId, hs.countP (sameCap h)⟩
      numInstancesUnion := .instanceZero q }
    have hnew1 : new1 = capOf (hs ++ [h]) hs.length := by
      rw [capOf, keyOf_append_right, instanceNo_append_right, if_neg (by omega),
        firstInstance_append_right hpos, headerAt_append_right, ← hfst]
    have hmodify : (st.caps ++ [some new0]).modify hs.length (Option.map fun cap =>
        { cap with
          key := { cap.key with capInstance := hs.countP (sameCap h) }
          numInstancesUnion := .instanceZero q }) = st.caps ++ [some new1] := by
      rw [← hr.length, modify_length_append]
      rfl
    simp only [hres]
    rw [insertFurtherInstance]
    simp only [hcnt, PciParse.modify, hmodify]
    have hne1 : ∀ q' ∈ st.capabilities,
        keyAt (st.caps ++ [some new1]) hs.length ≠ keyAt (st.caps ++ [some new1]) q' := by
      intro q' hq' heq
      rw [hr.keyAt_append_self, hr.keyAt_append new1 (hr.lt_of_mem hq')] at heq
      simp only [new1, keyOf, PciCapKey.mk.injEq] at heq
      have hsame' : sameCap h (headerAt hs q') = true := by
        rw [sameCap, heq.1, heq.2.1, beq_self_eq_true, beq_self_eq_true]
        rfl
      have := instanceNo_lt (hr.lt_of_mem hq') hsame'
      omega
    rcases @compareCaps_cases (st.caps ++ [some new1]) st.capabilities hs.length
      (st.allocations.tail.headD true) (hr.sorted_append new1) with
      ⟨q', hq', hkey', -⟩ | ⟨-, ⟨hall, hres'⟩ | ⟨hall, l, hl, hlp, hres'⟩⟩
    · exact absurd hkey' (hne1 q' hq')
    · simp only [hres']
      refine ⟨htail2, .inr (.inr ⟨rfl, ?_, hsub _ (mem_of_headD_false hall)⟩)⟩
      exact owned_free (by simp [hr.length]) hr.capabilities
    · simp only [hres']
      refine link_outcome hr hnew1 rfl hl (hr.sorted_linked (by rw [hnew1]; rfl) hl hlp) rfl htail2 ?_
      rw [if_pos hpos, hfst]
  · simp only [hres]
    refine ⟨htail2, .inr (.inr ⟨rfl, ?_, hsub _ (mem_of_headD_false hall)⟩)⟩
    exact owned_free (by simp [hr.length]) hr.capabilities
  · have hcnt : ¬ 0 < hs.countP (sameCap h) := by
      intro hpos
      obtain ⟨g,hg,hgs⟩ := countP_pos_iff.mp hpos
      have hfl := findIdx_lt_length_of_exists ⟨g, hg, hgs⟩
      have hsame : sameCap h (headerAt hs (hs.findIdx (sameCap h))) = true := by
        rw [headerAt, getD_eq_getElem _ _ hfl]
        exact findIdx_getElem (w := hfl)
      refine hne (hs.findIdx (sameCap h)) (hr.capabilities.mem_iff.mpr (mem_range.mpr hfl)) ?_
      rw [hr.keyAt_append_self, hr.keyAt_append new0 hfl, keyOf, (instanceNo_eq_zero_iff hfl hsame).mpr rfl]
      simp only [sameCap, Bool.and_eq_true, beq_iff_eq] at hsame
      rw [← hsame.1, ← hsame.2]
    have hzero : hs.countP (sameCap h) = 0 := by omega
    have hnew0 : new0 = capOf (hs ++ [h]) hs.length := by
      rw [capOf, keyOf_append_right, instanceNo_append_right, if_pos hzero,
        instanceCount_append_right, headerAt_append_right, hzero]
    simp only [hres]
    refine link_outcome hr hnew0 rfl hl (hr.sorted_linked (by rw [hnew0]; rfl) hl hlp) rfl htail2 ?_
    rw [if_neg hcnt]

end

end Liano.Pci
