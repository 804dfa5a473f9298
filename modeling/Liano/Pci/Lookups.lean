import Mathlib.Data.List.TakeWhile
import Liano.Pci.CapListInit

/-! The list that `PciCapListInit` returns: its `PCI_CAP`s, and what is found in it. -/
namespace Liano.Pci

open List hiding lt_irrefl min not_lt

section
variable {caps : List (Option PciCap)} {l : List Nat}

/-- The `PCI_CAP` at `p` is an instance of a capability, with a version. -/
def Meets (caps : List (Option PciCap)) (domain : PciCapDomain) (capId minVersion p : Nat) : Prop :=
  (keyAt caps p).domain = domain ∧ (keyAt caps p).capId = capId ∧ minVersion ≤ (capAt caps p).version

theorem pciCapListFindCap_eq (domain : PciCapDomain) (capId capInstance : Nat) :
    pciCapListFindCap caps l domain capId capInstance =
      l.find? fun p => keyAt caps p == ⟨domain, capId, capInstance⟩ := by
  have hpred : (fun p => comparePciCapKey ⟨domain, capId, capInstance⟩ (keyAt caps p) != 0) =
      fun p => !(keyAt caps p == ⟨domain, capId, capInstance⟩) := by
    funext p
    by_cases h : keyAt caps p = ⟨domain, capId, capInstance⟩
    · rw [h, compare_eq_zero_iff.mpr rfl, beq_self_eq_true]
      rfl
    · rw [beq_eq_false_iff_ne.mpr h, Bool.not_false, bne_iff_ne, ne_eq, compare_eq_zero_iff]
      exact fun heq => h heq.symm
  rw [pciCapListFindCap, orderedCollectionFind, hpred]
  exact (find?_eq_head?_dropWhile_not _ _).symm

variable {domain : PciCapDomain}

theorem not_instance_of_rank {k m : PciCapKey} {capId n : Nat}
    (hk : rank ⟨domain, capId, n⟩ ≤ rank k) (hne : ¬ (k.domain = domain ∧ k.capId = capId))
    (hm : rank k < rank m) : ¬ (m.domain = domain ∧ m.capId = capId) := by
  rintro ⟨rfl,rfl⟩
  rw [rank_lt_iff] at hm
  have hk' := not_lt.mpr hk
  rw [rank_lt_iff] at hk'
  rcases hm with hm | ⟨hd,hm⟩
  · exact hk' (.inl hm)
  · rcases hm with hm | ⟨hc,-⟩
    · exact hk' (.inr ⟨hd, .inl hm⟩)
    · exact hne ⟨hd, hc⟩

theorem findCapVersionLoop_eq_some_iff {capId minVersion n p : Nat}
    (hsort : l.Pairwise fun a b => rank (keyAt caps a) < rank (keyAt caps b))
    (habove : ∀ q ∈ l, rank ⟨domain, capId, n⟩ ≤ rank (keyAt caps q)) :
    findCapVersionLoop caps domain capId minVersion l = some p ↔
      p ∈ l ∧ Meets caps domain capId minVersion p ∧ ∀ q ∈ l, Meets caps domain capId minVersion q →
        (keyAt caps p).capInstance ≤ (keyAt caps q).capInstance := by
  induction l with
  | nil => simp [findCapVersionLoop]
  | cons q l ih =>
    have hpairs := pairwise_cons.mp hsort
    rw [findCapVersionLoop]
    by_cases hcap : (keyAt caps q).domain = domain ∧ (keyAt caps q).capId = capId
    · have hif : ¬ ((capAt caps q).key.domain ≠ domain ∨ (capAt caps q).key.capId ≠ capId) :=
        fun h => h.elim (fun h => h hcap.1) (fun h => h hcap.2)
      simp only [if_neg hif]
      have hlt : ∀ r ∈ l, Meets caps domain capId minVersion r →
          (keyAt caps q).capInstance < (keyAt caps r).capInstance := by
        intro r hr hmeets
        have h := rank_lt_iff.mp (hpairs.1 r hr)
        rw [hcap.1, hcap.2, hmeets.1, hmeets.2.1] at h
        rcases h with h | ⟨-,h | ⟨-,h⟩⟩
        · exact absurd h (lt_irrefl _)
        · exact absurd h (lt_irrefl _)
        · exact h
      by_cases hversion : (capAt caps q).version ≥ minVersion
      · rw [if_pos hversion, Option.some.injEq]
        have hq : Meets caps domain capId minVersion q := ⟨hcap.1, hcap.2, hversion⟩
        constructor
        · intro h
          subst h
          refine ⟨mem_cons_self, hq, fun r hr hmeets => ?_⟩
          rcases mem_cons.mp hr with rfl | hr
          · exact le_rfl
          · exact (hlt r hr hmeets).le
        · intro h
          rcases mem_cons.mp h.1 with heq | hmem
          · exact heq.symm
          · exact absurd (hlt p hmem h.2.1) (not_lt.mpr (h.2.2 q mem_cons_self hq))
      · rw [if_neg hversion, ih hpairs.2 fun r hr => habove r (mem_cons_of_mem _ hr)]
        have hq : ¬ Meets caps domain capId minVersion q := fun h => hversion h.2.2
        constructor
        · intro h
          refine ⟨mem_cons_of_mem _ h.1, h.2.1, fun r hr hmeets => ?_⟩
          rcases mem_cons.mp hr with rfl | hr
          · exact absurd hmeets hq
          · exact h.2.2 r hr hmeets
        · intro h
          refine ⟨?_, h.2.1, fun r hr => h.2.2 r (mem_cons_of_mem _ hr)⟩
          rcases mem_cons.mp h.1 with rfl | hmem
          · exact absurd h.2.1 hq
          · exact hmem
    · have hif : (capAt caps q).key.domain ≠ domain ∨ (capAt caps q).key.capId ≠ capId := not_and_or.mp hcap
      simp only [if_pos hif]
      constructor
      · intro h
        cases h
      · intro h
        exfalso
        rcases mem_cons.mp h.1 with rfl | hmem
        · exact hcap ⟨h.2.1.1, h.2.1.2.1⟩
        · exact not_instance_of_rank (habove q mem_cons_self) hcap (hpairs.1 p hmem)
            ⟨h.2.1.1, h.2.1.2.1⟩

theorem mem_orderedCollectionFind {key : PciCapKey} {p : Nat}
    (hsort : l.Pairwise fun a b => rank (keyAt caps a) < rank (keyAt caps b)) :
    p ∈ orderedCollectionFind caps l key ↔
      p ∈ l ∧ (∃ q ∈ l, keyAt caps q = key) ∧ rank key ≤ rank (keyAt caps p) := by
  rw [orderedCollectionFind]
  induction l with
  | nil => simp
  | cons q l ih =>
    have hpairs := pairwise_cons.mp hsort
    by_cases hq : keyAt caps q = key
    · have hpos : ¬ (comparePciCapKey key (keyAt caps q) != 0) = true := by
        rw [compare_eq_zero_iff.mpr hq.symm]
        decide
      rw [dropWhile_cons_of_neg (by exact hpos)]
      constructor
      · intro h
        refine ⟨h, ⟨q, mem_cons_self, hq⟩, ?_⟩
        rcases mem_cons.mp h with rfl | h
        · rw [hq]
        · rw [← hq]
          exact (hpairs.1 p h).le
      · exact fun h => h.1
    · have hne : (comparePciCapKey key (keyAt caps q) != 0) = true := by
        rw [bne_iff_ne, ne_eq, compare_eq_zero_iff]
        exact fun h => hq h.symm
      rw [dropWhile_cons_of_pos (by exact hne), ih hpairs.2]
      constructor
      · intro h
        obtain ⟨hp,⟨r,hr,hkey⟩,hle⟩ := h
        exact ⟨mem_cons_of_mem _ hp, ⟨r, mem_cons_of_mem _ hr, hkey⟩, hle⟩
      · intro h
        obtain ⟨hp,⟨r,hr,hkey⟩,hle⟩ := h
        have hrl : r ∈ l := by
          rcases mem_cons.mp hr with rfl | hr
          · exact absurd hkey hq
          · exact hr
        refine ⟨?_, ⟨r, hrl, hkey⟩, hle⟩
        rcases mem_cons.mp hp with rfl | hp
        · rw [← hkey] at hle
          exact absurd (hpairs.1 r hrl) (not_lt.mpr hle)
        · exact hp

end

def maxSizeHintAt (caps : List (Option PciCap)) (p : Nat) : Nat := (capAt caps p).maxSizeHint

/-- The `i`-th header is of a capability, with a version. -/
def HasVersion (hs : List Header) (domain : PciCapDomain) (capId minVersion i : Nat) : Prop :=
  (headerAt hs i).domain = domain ∧ (headerAt hs i).capId = capId ∧ minVersion ≤ (headerAt hs i).version

/-- The list holds the headers `hs`. -/
structure ListsHeaders (r : PciCapListResult) (hs : List Header) : Prop where
  caps : r.caps.length = hs.length ∧ ∀ i < hs.length, ∃ cap, r.caps[i]? = some (some cap) ∧
    cap.key = keyOf hs i ∧ cap.offset = (headerAt hs i).offset ∧ cap.version = (headerAt hs i).version
  capabilities : r.capabilities.Perm (range hs.length)
  numInstances : ∀ i < hs.length, numInstancesOf r.caps i = instanceCount hs i
  findCap : ∀ domain capId n p, pciCapListFindCap r.caps r.capabilities domain capId n = some p ↔
    p < hs.length ∧ keyOf hs p = ⟨domain, capId, n⟩
  findCapVersion : ∀ domain capId minVersion p,
    pciCapListFindCapVersion r.caps r.capabilities domain capId minVersion = some p ↔
      p < hs.length ∧ HasVersion hs domain capId minVersion p ∧
      ∀ i < hs.length, HasVersion hs domain capId minVersion i → instanceNo hs p ≤ instanceNo hs i
  hints : ∀ i < hs.length, 0 < maxSizeHintAt r.caps i ∧
    configSpaceStart (headerAt hs i).domain ≤ (headerAt hs i).offset ∧
    (headerAt hs i).offset + maxSizeHintAt r.caps i ≤ configSpaceSize (headerAt hs i).domain
  disjoint : ∀ i < hs.length, ∀ j < hs.length, i ≠ j →
    (headerAt hs i).offset + maxSizeHintAt r.caps i ≤ (headerAt hs j).offset ∨
    (headerAt hs j).offset + maxSizeHintAt r.caps j ≤ (headerAt hs i).offset

section
variable {st : PciParse} {hs : List Header}

/-- The size hint at `i` is positive and reaches neither the end of the space nor a later header. -/
def HintFits (hs : List Header) (i m : Nat) : Prop :=
  0 < m ∧ (headerAt hs i).offset + m ≤ configSpaceSize (headerAt hs i).domain ∧
    ∀ j < hs.length, (headerAt hs i).offset < (headerAt hs j).offset →
      (headerAt hs i).offset + m ≤ (headerAt hs j).offset

theorem hintFits_of_isNext {l : List Nat} {i : Nat} {nextOffset : Option Nat}
    (hin : InConfigSpace (headerAt hs i)) (hl : ∀ j < hs.length, j ∈ l)
    (hnext : IsNext (fun q => (headerAt hs q).offset) l i nextOffset) :
    HintFits hs i (min (nextOffset.getD (configSpaceSize (headerAt hs i).domain))
      (configSpaceSize (headerAt hs i).domain) - (headerAt hs i).offset) := by
  have hlt := hin.2
  refine ⟨?_, by omega, fun j hj hij => ?_⟩
  · cases nextOffset with
    | none => simp only [Option.getD_none]; omega
    | some o =>
      have hnext' : (headerAt hs i).offset < o := hnext.1 o rfl
      simp only [Option.getD_some]
      omega
  · obtain ⟨o,rfl,ho⟩ := hnext.2 j (hl j hj) hij
    simp only [Option.getD_some] at ho ⊢
    omega

theorem calculateHints_caps (hr : Represents st hs) (hin : ∀ h ∈ hs, InConfigSpace h) :
    (calculateHints st.capHdrOffsets st).capabilities = st.capabilities ∧
    (calculateHints st.capHdrOffsets st).caps.length = hs.length ∧
    ∀ i < hs.length, ∃ m, HintFits hs i m ∧ (calculateHints st.capHdrOffsets st).caps[i]? =
        some (some { capOf hs i with maxSizeHint := m }) := by
  obtain ⟨hlen,hcaps,-,hhints⟩ := @calculateHints_spec (capOf hs) st.capHdrOffsets st
    (fun p hp => hr.getElem? (mem_range.mp (hr.capHdrOffsets.mem_iff.mp hp))) hr.sortedOffsets
  have hl : ∀ j < hs.length, j ∈ st.capHdrOffsets := fun j hj =>
    hr.capHdrOffsets.mem_iff.mpr (mem_range.mpr hj)
  refine ⟨hcaps, hlen.trans hr.length, fun i hi => ?_⟩
  obtain ⟨nextOffset,hnext,hcap⟩ := hhints i (hl i hi)
  rw [calculatePciCapMaxSizeHint_eq] at hcap
  exact ⟨_, hintFits_of_isNext (hin _ (headerAt_mem hi)) hl hnext, hcap⟩

end

section
variable {caps : List (Option PciCap)} {capabilities : List Nat} {hs : List Header}
variable {i : Nat}

theorem firstInstance_lt (hi : i < hs.length) : firstInstance hs i < hs.length :=
  findIdx_lt_length_of_exists ⟨_, headerAt_mem hi, sameCap_self _⟩

theorem sameCap_firstInstance (hi : i < hs.length) :
    sameCap (headerAt hs i) (headerAt hs (firstInstance hs i)) = true := by
  have h := findIdx_getElem (w := firstInstance_lt hi)
  have hget : headerAt hs (firstInstance hs i) = hs.get ⟨firstInstance hs i, firstInstance_lt hi⟩ := by
    rw [headerAt, getD_eq_getElem _ _ (firstInstance_lt hi), get_eq_getElem]
  rw [hget]
  exact h

theorem instanceNo_firstInstance (hi : i < hs.length) : instanceNo hs (firstInstance hs i) = 0 :=
  (instanceNo_eq_zero_iff (firstInstance_lt hi) (sameCap_firstInstance hi)).mpr rfl

theorem numInstancesOf_eq {m : Nat → Nat}
    (hcaps : ∀ i < hs.length, capAt caps i = { capOf hs i with maxSizeHint := m i })
    (hi : i < hs.length) : numInstancesOf caps i = instanceCount hs i := by
  rw [numInstancesOf, hcaps i hi]
  by_cases h0 : instanceNo hs i = 0
  · simp only [capOf, if_pos h0]
  simp only [capOf, if_neg h0]
  rw [hcaps _ (firstInstance_lt hi)]
  simp only [capOf, if_pos (instanceNo_firstInstance hi), PciCapNumInstances.count]
  rw [instanceCount, instanceCount, sameCap_congr (sameCap_firstInstance hi)]

section
variable (hperm : capabilities.Perm (range hs.length))
  (hkeys : ∀ i < hs.length, keyAt caps i = keyOf hs i)
include hperm hkeys

theorem findCap_iff (hsort : capabilities.Pairwise fun a b => rank (keyAt caps a) < rank (keyAt caps b))
    (domain : PciCapDomain) (capId n p : Nat) : pciCapListFindCap caps capabilities domain capId n = some p ↔
      p < hs.length ∧ keyOf hs p = ⟨domain, capId, n⟩ := by
  have hmem : ∀ q, q ∈ capabilities ↔ q < hs.length := fun q => by rw [hperm.mem_iff, mem_range]
  rw [pciCapListFindCap_eq]
  constructor
  · intro h
    have hp := (hmem p).mp (mem_of_find?_eq_some h)
    have hkey := find?_some h
    rw [beq_iff_eq, hkeys p hp] at hkey
    exact ⟨hp, hkey⟩
  · intro h
    have hfnd : (capabilities.find? fun q => keyAt caps q == ⟨domain, capId, n⟩).isSome := by
      rw [find?_isSome]
      exact ⟨p, (hmem p).mpr h.1, by rw [beq_iff_eq, hkeys p h.1, h.2]⟩
    obtain ⟨q,hq⟩ := Option.isSome_iff_exists.mp hfnd
    have hqkey := find?_some hq
    rw [beq_iff_eq] at hqkey
    have hnodup : (capabilities.map (keyAt caps)).Nodup := by
      rw [List.Nodup, pairwise_map]
      exact hsort.imp fun hlt heq => absurd hlt (by rw [heq]; exact lt_irrefl _)
    have heq : q = p := inj_on_of_nodup_map hnodup (mem_of_find?_eq_some hq)
      ((hmem p).mpr h.1) (by rw [hqkey, hkeys p h.1, h.2])
    rw [hq, heq]

theorem findCapVersion_iff (hversions : ∀ i < hs.length, (capAt caps i).version = (headerAt hs i).version)
    (hsort : capabilities.Pairwise fun a b => rank (keyAt caps a) < rank (keyAt caps b))
    (domain : PciCapDomain) (capId minVersion p : Nat) :
    pciCapListFindCapVersion caps capabilities domain capId minVersion = some p ↔
      p < hs.length ∧ HasVersion hs domain capId minVersion p ∧
      ∀ i < hs.length, HasVersion hs domain capId minVersion i → instanceNo hs p ≤ instanceNo hs i := by
  have hmem : ∀ q, q ∈ capabilities ↔ q < hs.length := fun q => by rw [hperm.mem_iff, mem_range]
  have hmeets : ∀ q < hs.length,
      (Meets caps domain capId minVersion q ↔ HasVersion hs domain capId minVersion q) := by
    intro q hq
    rw [Meets, HasVersion, hkeys q hq, hversions q hq]
    rfl
  have hinstance : ∀ q < hs.length, (keyAt caps q).capInstance = instanceNo hs q := by
    intro q hq
    rw [hkeys q hq]
    rfl
  -- an instance of the capability is behind instance 0
  have hbeh : ∀ q < hs.length, HasVersion hs domain capId minVersion q →
      q ∈ orderedCollectionFind caps capabilities ⟨domain, capId, 0⟩ := by
    intro q hq hv
    have hfst := sameCap_firstInstance hq
    simp only [sameCap, Bool.and_eq_true, beq_iff_eq] at hfst
    refine (mem_orderedCollectionFind hsort).mpr ⟨(hmem q).mpr hq,
      ⟨firstInstance hs q, (hmem _).mpr (firstInstance_lt hq), ?_⟩, ?_⟩
    · rw [hkeys _ (firstInstance_lt hq), keyOf, instanceNo_firstInstance hq, ← hfst.1, ← hfst.2, hv.1, hv.2.1]
    · rw [hkeys q hq, keyOf, ← not_lt, rank_lt_iff, hv.1, hv.2.1]
      simp
  have hsortBeh : (orderedCollectionFind caps capabilities ⟨domain, capId, 0⟩).Pairwise
      fun a b => rank (keyAt caps a) < rank (keyAt caps b) := hsort.sublist (dropWhile_sublist _)
  rw [pciCapListFindCapVersion, findCapVersionLoop_eq_some_iff hsortBeh
    (fun q hq => ((mem_orderedCollectionFind hsort).mp hq).2.2)]
  constructor
  · intro h
    have hp := (hmem p).mp ((mem_orderedCollectionFind hsort).mp h.1).1
    refine ⟨hp, (hmeets p hp).mp h.2.1, fun i hi hv => ?_⟩
    rw [← hinstance p hp, ← hinstance i hi]
    exact h.2.2 i (hbeh i hi hv) ((hmeets i hi).mpr hv)
  · intro h
    refine ⟨hbeh p h.1 h.2.1, (hmeets p h.1).mpr h.2.1, fun q hq hm => ?_⟩
    have hql := (hmem q).mp ((mem_orderedCollectionFind hsort).mp hq).1
    rw [hinstance p h.1, hinstance q hql]
    exact h.2.2 q hql ((hmeets q hql).mp hm)

end

end

theorem listsHeaders_of_represents {st : PciParse} {hs : List Header} (hr : Represents st hs)
    (hin : ∀ h ∈ hs, InConfigSpace h) : ListsHeaders (finishPciCapList (st, .success)) hs := by
  obtain ⟨hcapabilities,hlen,hcaps⟩ := calculateHints_caps hr hin
  rw [finishPciCapList, show EfiStatus.isError (st,EfiStatus.success).2 = false from rfl,
    if_ff]
  simp only [hcapabilities]
  choose! m hfits hget using hcaps
  have hcapAt : ∀ i < hs.length, capAt (calculateHints st.capHdrOffsets st).caps i =
      { capOf hs i with maxSizeHint := m i } := fun i hi => capAt_eq (hget i hi)
  have hkeys : ∀ i < hs.length, keyAt (calculateHints st.capHdrOffsets st).caps i = keyOf hs i :=
    fun i hi => by rw [keyAt, hcapAt i hi]; rfl
  have hhint : ∀ i < hs.length, maxSizeHintAt (calculateHints st.capHdrOffsets st).caps i = m i :=
    fun i hi => by rw [maxSizeHintAt, hcapAt i hi]
  have hsort : st.capabilities.Pairwise fun a b =>
      rank (keyAt (calculateHints st.capHdrOffsets st).caps a) <
        rank (keyAt (calculateHints st.capHdrOffsets st).caps b) := by
    refine hr.sorted.imp_of_mem fun ha hb hlt => ?_
    rw [hr.capabilities.mem_iff, mem_range] at ha hb
    rwa [hkeys _ ha, hkeys _ hb]
  refine ⟨⟨hlen, fun i hi => ⟨_, hget i hi, rfl, rfl, rfl⟩⟩, hr.capabilities,
    fun i hi => numInstancesOf_eq hcapAt hi, findCap_iff hr.capabilities hkeys hsort,
    findCapVersion_iff hr.capabilities hkeys (fun i hi => by rw [hcapAt i hi]; rfl) hsort,
    fun i hi => ?_, fun i hi j hj hne => ?_⟩
  · simp only [hhint i hi]
    exact ⟨(hfits i hi).1, (hin _ (headerAt_mem hi)).1, (hfits i hi).2.1⟩
  · simp only [hhint i hi, hhint j hj]
    have hoff : (headerAt hs i).offset ≠ (headerAt hs j).offset := by
      have hnodup := hr.nodup
      rw [← map_offset_eq] at hnodup
      intro heq
      exact hne (inj_on_of_nodup_map hnodup (mem_range.mpr hi) (mem_range.mpr hj) heq)
    rcases Nat.lt_or_gt_of_ne hoff with hlt | hlt
    · exact .inl ((hfits i hi).2.2 j hj hlt)
    · exact .inr ((hfits j hj).2.2 i hi hlt)

/-- On a config space whose reads never fail, `PciCapListInit` terminates, with an error exactly when
a chain is bad (or memory runs out) and nothing left allocated, or else with the list of the headers
visited. No traversal goes through more than 4096 headers. -/
theorem pciCapListInit_spec (config : Nat → UInt8) (allocations : List Bool) :
    ∃ r, pciCapListInit (configSpace config) allocations 4097 = some r ∧
      (r.status = .success ∨ r.status = .deviceError ∨ r.status = .outOfResources) ∧
      (r.status = .outOfResources → false ∈ allocations) ∧
      (r.status ≠ .outOfResources → (r.status = .deviceError ↔ BadChain config)) ∧
      (r.status.isError → AllFreed r) ∧
      (r.status = .success → ∃ hs, VisitedHeaders config hs ∧ ListsHeaders r hs) := by
  rw [pciCapListInit]
  by_cases htake : (allocations.take 3).all id = true
  · rw [if_pos htake]
    obtain ⟨r,hrun,halloc,hcases⟩ := @parseCapabilities_outcome config (allocations.drop 3)
    rw [hrun, Option.map_some]
    refine ⟨_, rfl, ?_⟩
    have herr : ∀ status, status.isError = true → r.2 = status → Owned r.1 →
        (finishPciCapList r).status = status ∧ AllFreed (finishPciCapList r) := by
      intro status hst hr howned
      rw [finishPciCapList, hr, if_pos hst]
      exact ⟨rfl, allFreed_freeCapHdrOffsets howned _⟩
    rcases hcases with ⟨hs,hs',hr,hvis,hin,hbad⟩ | ⟨hs,howned,hbad⟩ | ⟨hs,howned,hall⟩
    · have hr' : r = (r.1, .success) := Prod.ext rfl hs
      have hst : (finishPciCapList r).status = .success := by
        rw [hr']
        rfl
      have hlists := listsHeaders_of_represents hr hin
      rw [← hr'] at hlists
      rw [hst]
      refine ⟨.inl rfl, fun h => (nomatch h), fun _ => ⟨fun h => (nomatch h), fun h => absurd h hbad⟩,
        fun h => (nomatch h), fun _ => ⟨hs', hvis, hlists⟩⟩
    · obtain ⟨hst,hfreed⟩ := herr _ rfl hs howned
      rw [hst]
      exact ⟨.inr (.inl rfl), fun h => (nomatch h), fun _ => ⟨fun _ => hbad, fun _ => rfl⟩,
        fun _ => hfreed, fun h => (nomatch h)⟩
    · obtain ⟨hst,hfreed⟩ := herr _ rfl hs howned
      rw [hst]
      exact ⟨.inr (.inr rfl), fun _ => mem_of_mem_drop hall, fun h => absurd rfl h,
        fun _ => hfreed, fun h => (nomatch h)⟩
  · rw [if_neg htake]
    refine ⟨_, rfl, .inr (.inr rfl), fun _ => ?_, fun h => absurd rfl h,
      fun _ => ⟨rfl, fun p cap hp => ?_⟩, fun h => (nomatch h)⟩
    · by_contra hfalse
      refine htake (all_eq_true.mpr fun b hb => ?_)
      cases b with
      | true => rfl
      | false => exact absurd (mem_of_mem_take hb) hfalse
    · cases hp

end Liano.Pci
