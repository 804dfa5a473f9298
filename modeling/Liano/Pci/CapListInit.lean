import Liano.Pci.Traversal

/-! Both traversals of `PciCapListInit`, the labels that free what an error leaves, and the size
hints. -/
namespace Liano.Pci

open List hiding min

section
variable {config : Nat → UInt8} {next : Nat → Nat} {start : Nat} {header : Nat → Header}

theorem endsAfter_zero (h : start = 0) : EndsAfter next start 0 :=
  ⟨h, fun i hi => absurd hi (Nat.not_lt_zero i)⟩

theorem isExpress_iff {n : Nat} (hend : EndsAfter (normalNext config) (normalStart config) n) :
    IsExpress config ↔ ((headersOf (normalHeader config) (normalNext config) (normalStart config)
      n).any fun h => h.capId == efiPciCapabilityIdPciexp) = true := by
  simp only [any_eq_true, beq_iff_eq]
  constructor
  · intro h
    obtain ⟨i,hne,hid⟩ := h
    have hi : i < n := by
      by_contra hle
      exact hne (chainAt_of_end normalNext_zero hend.1 (Nat.le_of_not_lt hle))
    exact ⟨_, mem_headersOf.mpr ⟨i, hi, rfl⟩, hid⟩
  · intro h
    obtain ⟨g,hg,hid⟩ := h
    obtain ⟨i,hi,rfl⟩ := mem_headersOf.mp hg
    exact ⟨i, hend.2 i hi, hid⟩

theorem represents_nil (allocations : List Bool) : Represents ⟨[], [], [], allocations⟩ [] :=
  ⟨rfl, List.Perm.refl _, List.Pairwise.nil, List.Perm.refl _, List.Pairwise.nil⟩

theorem not_lowPointer {m : Nat} (hend : chainAt (extendedNext config) (extendedStart config) m = 0)
    (hge : ∀ i < m, pciMaxConfigOffset ≤ chainAt (extendedNext config) (extendedStart config) i) :
    ¬ ∃ i, 0 < chainAt (extendedNext config) (extendedStart config) i ∧
      chainAt (extendedNext config) (extendedStart config) i < pciMaxConfigOffset := by
  intro h
  obtain ⟨i,hpos,hlow⟩ := h
  by_cases hi : i < m
  · exact absurd (hge i hi) (not_le.mpr hlow)
  · rw [chainAt_of_end extendedNext_zero hend (Nat.le_of_not_lt hi)] at hpos
    exact absurd hpos (lt_irrefl 0)

def configSpaceSize : PciCapDomain → Nat
  | .normal => pciMaxConfigOffset
  | .extended => pciExpMaxConfigOffset

def configSpaceStart : PciCapDomain → Nat
  | .normal => 0
  | .extended => pciMaxConfigOffset

def InConfigSpace (h : Header) : Prop :=
  configSpaceStart h.domain ≤ h.offset ∧ h.offset < configSpaceSize h.domain

def Parsed (config : Nat → UInt8) (st : PciParse) : Prop :=
  ∃ hs, Represents st hs ∧ VisitedHeaders config hs ∧ (∀ h ∈ hs, InConfigSpace h) ∧ ¬ BadChain config

theorem inConfigSpace_normal {n : Nat} {h : Header}
    (hh : h ∈ headersOf (normalHeader config) (normalNext config) (normalStart config) n) :
    InConfigSpace h := by
  obtain ⟨i,-,rfl⟩ := mem_headersOf.mp hh
  exact ⟨Nat.zero_le _, lt_of_le_of_lt (normal_chainAt_le i) (show 0xFC < 0x100 by decide)⟩

theorem inConfigSpace_extended {m : Nat} {h : Header}
    (hge : ∀ i < m, pciMaxConfigOffset ≤ chainAt (extendedNext config) (extendedStart config) i)
    (hh : h ∈ headersOf (extendedHeader config) (extendedNext config) (extendedStart config) m) :
    InConfigSpace h := by
  obtain ⟨i,hi,rfl⟩ := mem_headersOf.mp hh
  exact ⟨hge i hi, lt_of_le_of_lt (extended_chainAt_le i) (show 0xFFC < 0x1000 by decide)⟩

theorem parsed_normal {st : PciParse} {n : Nat} (hr : Represents st
      (headersOf (normalHeader config) (normalNext config) (normalStart config) n))
    (hend : EndsAfter (normalNext config) (normalStart config) n) (hex : ¬ IsExpress config) :
    Parsed config st := by
  refine ⟨_, hr, ⟨n, 0, ?_, hend, .inr ⟨hex, rfl⟩⟩, fun h hh => inConfigSpace_normal hh, ?_⟩
  · exact (append_nil _).symm
  · intro hbad
    rcases hbad with hrev | ⟨hex',-⟩
    · exact not_revisits normalNext_zero (fun _ => rfl) hend hr.nodup hrev
    · exact hex hex'

theorem parsed_extended {st : PciParse} {n m : Nat} (hr : Represents st
      (headersOf (normalHeader config) (normalNext config) (normalStart config) n ++
        headersOf (extendedHeader config) (extendedNext config) (extendedStart config) m))
    (hend : EndsAfter (normalNext config) (normalStart config) n) (hex : IsExpress config)
    (hend' : chainAt (extendedNext config) (extendedStart config) m = 0)
    (hge : ∀ i < m, pciMaxConfigOffset ≤ chainAt (extendedNext config) (extendedStart config) i) :
    Parsed config st := by
  have hnz : EndsAfter (extendedNext config) (extendedStart config) m :=
    ⟨hend', fun i hi h0 => absurd (h0 ▸ hge i hi) (by decide)⟩
  have hnodup := hr.nodup
  rw [map_append] at hnodup
  refine ⟨_, hr, ⟨n, m, rfl, hend, .inl ⟨hex, hnz⟩⟩, fun h hh => ?_, ?_⟩
  · rcases mem_append.mp hh with hh | hh
    · exact inConfigSpace_normal hh
    · exact inConfigSpace_extended hge hh
  intro hbad
  rcases hbad with hrev | ⟨-,hrev | hlow⟩
  · exact not_revisits normalNext_zero (fun _ => rfl) hend hnodup.of_append_left hrev
  · exact not_revisits extendedNext_zero (fun _ => rfl) hnz hnodup.of_append_right hrev
  · exact not_lowPointer hend' hge hlow

theorem parseCapabilities_outcome (allocations : List Bool) :
    ∃ r, parseCapabilities (configSpace config) 4097 ⟨[], [], [], allocations⟩ = some r ∧
      TraversalOutcome ⟨[], [], [], allocations⟩ r (Parsed config r.1) (BadChain config) := by
  rw [parseCapabilities, configSpace_eq]
  simp only
  by_cases hbit : readAt config pciPrimaryStatusOffset 2 &&& efiPciStatusCapability = 0
  · rw [if_pos hbit]
    have hstart : normalStart config = 0 := by rw [normalStart, if_pos hbit]
    have hend : EndsAfter (normalNext config) (normalStart config) 0 := endsAfter_zero hstart
    refine ⟨_, rfl, suffix_refl _, .inl ⟨rfl, parsed_normal (represents_nil _) hend ?_⟩⟩
    rw [isExpress_iff hend]
    exact Bool.false_ne_true
  rw [if_neg hbit, configSpace_eq]
  have hstart : readAt config pciCapabilityPointerOffset 1 &&& 0xFC =
      chainAt (normalNext config) (normalStart config) 0 := by
    show _ = normalStart config
    rw [normalStart, if_neg hbit]
  obtain ⟨st,express,status,hrun,halloc,hcases⟩ :=
    @parseNormal_outcome config 4097 0 ⟨[], [], [], allocations⟩ false (represents_nil _)
      (fun i hi => absurd hi (Nat.not_lt_zero i)) rfl le_rfl
  simp only [hstart, hrun, Option.bind_eq_bind, Option.bind_some]
  rcases hcases with ⟨hs,n,hr,hend,hex⟩ | ⟨hs,howned,hbad⟩ | ⟨hs,howned,hall⟩
  · change status = .success at hs
    rw [hs, show EfiStatus.isError .success = false from rfl, Bool.false_or]
    have hiff : IsExpress config ↔ express = true := by rw [isExpress_iff hend, hex]
    by_cases hexpress : express = true
    · rw [hexpress, if_neg (by decide)]
      have hexp := hiff.mpr hexpress
      by_cases hfst : readAt config pciMaxConfigOffset 4 = 0
      · have h0 : extendedStart config = 0 := by rw [extendedStart, if_pos hfst]
        rw [parseExtended, if_neg (by decide), configSpace_eq]
        simp only [hfst, and_self, if_pos]
        refine ⟨_, rfl, halloc, .inl ⟨rfl, ?_⟩⟩
        refine @parsed_extended config st n 0 ?_ hend hexp h0
          (fun i hi => absurd hi (Nat.not_lt_zero i))
        show Represents st (_ ++ [])
        rw [append_nil]
        exact hr
      · have hstart' : pciMaxConfigOffset = chainAt (extendedNext config) (extendedStart config) 0 := by
          show _ = extendedStart config
          rw [extendedStart, if_neg hfst]
        obtain ⟨r,hrun',halloc',hcases'⟩ :=
          @parseExtended_outcome config (headersOf (normalHeader config) (normalNext config)
            (normalStart config) n) 4097 0 st
            (fun g hg => by
              obtain ⟨i,-,rfl⟩ := mem_headersOf.mp hg
              exact normal_chainAt_le i)
            hfst
            (by show Represents st (_ ++ []); rw [append_nil]; exact hr)
            (fun i hi => absurd hi (Nat.not_lt_zero i)) (.inl (le_of_eq hstart'))
            le_rfl
        refine ⟨r, by rw [← hrun', ← hstart'], halloc'.trans halloc, ?_⟩
        rcases hcases' with ⟨hs',m,hr',hend',hge⟩ | ⟨hs',howned,hbad⟩ | ⟨hs',howned,hall⟩
        · exact .inl ⟨hs', parsed_extended hr' hend hexp hend' hge⟩
        · exact .inr (.inl ⟨hs', howned, .inr ⟨hexp, hbad⟩⟩)
        · exact .inr (.inr ⟨hs', howned, halloc.subset hall⟩)
    · rw [Bool.not_eq_true] at hexpress
      rw [hexpress, Bool.not_false, if_pos rfl]
      refine ⟨_, rfl, halloc, .inl ⟨rfl, parsed_normal hr hend ?_⟩⟩
      rw [hiff, hexpress]
      exact Bool.false_ne_true
  · change status = .deviceError at hs
    rw [hs, show EfiStatus.isError .deviceError = true from rfl, Bool.true_or, if_pos rfl]
    exact ⟨_, rfl, halloc, .inr (.inl ⟨rfl, howned, .inl hbad⟩)⟩
  · change status = .outOfResources at hs
    rw [hs, show EfiStatus.isError .outOfResources = true from rfl, Bool.true_or, if_pos rfl]
    exact ⟨_, rfl, halloc, .inr (.inr ⟨rfl, howned, hall⟩)⟩

end

theorem getElem?_foldl_free (l : List Nat) (st : PciParse) (p : Nat) : (l.foldl PciParse.free st).caps[p]? =
      if p ∈ l then st.caps[p]?.map (fun _ => none) else st.caps[p]? := by
  induction l generalizing st with
  | nil => simp
  | cons q l ih =>
    rw [foldl_cons, ih, PciParse.free]
    simp only [getElem?_set, mem_cons]
    by_cases hp : p ∈ l
    · rw [if_pos hp, if_pos (Or.inr hp)]
      split_ifs with hq hlt <;> simp_all
    rw [if_neg hp]
    by_cases hq : q = p
    · subst hq
      simp only [true_or, if_true]
      split_ifs with hlt
      · rw [getElem?_eq_getElem hlt]
        rfl
      · rw [getElem?_eq_none (Nat.le_of_not_lt hlt)]
        rfl
    · rw [if_neg hq, if_neg]
      rintro (h | h)
      · exact hq h.symm
      · exact hp h

/-- No `PCI_CAP` is left. -/
def AllFreed (r : PciCapListResult) : Prop :=
  r.capabilities = [] ∧ ∀ (p : Nat) (cap : PciCap), r.caps[p]? ≠ some (some cap)

theorem allFreed_freeCapHdrOffsets {st : PciParse} (h : Owned st) (status : EfiStatus) :
    AllFreed (freeCapHdrOffsets st status) := by
  refine ⟨rfl, fun p cap hp => ?_⟩
  have hp' : (st.capabilities.foldl PciParse.free st).caps[p]? = some (some cap) := hp
  rw [getElem?_foldl_free] at hp'
  by_cases hmem : p ∈ st.capabilities
  · rw [if_pos hmem, Option.map_eq_some_iff] at hp'
    obtain ⟨_,_,hnone⟩ := hp'
    cases hnone
  · rw [if_neg hmem] at hp'
    exact hmem (h p cap hp')

/-- The capability that `CalculatePciCapMaxSizeHint` is given as the next one starts no later than
any other behind this one. -/
def IsNext (offset : Nat → Nat) (l : List Nat) (p : Nat) (nextOffset : Option Nat) : Prop :=
  (∀ o, nextOffset = some o → offset p < o) ∧
    ∀ q ∈ l, offset p < offset q → ∃ o, nextOffset = some o ∧ o ≤ offset q

theorem modify_getElem?_of_ne (st : PciParse) {p q : Nat} (f : PciCap → PciCap) (h : p ≠ q) :
    (st.modify p f).caps[q]? = st.caps[q]? := by
  rw [PciParse.modify]
  exact getElem?_modify_ne _ _ h

theorem calculateHints_spec {cap : Nat → PciCap} {l : List Nat} {st : PciParse}
    (hcaps : ∀ p ∈ l, st.caps[p]? = some (some (cap p)))
    (hsort : l.Pairwise fun a b => (cap a).offset < (cap b).offset) :
    (calculateHints l st).caps.length = st.caps.length ∧
    (calculateHints l st).capabilities = st.capabilities ∧
    (∀ p ∉ l, (calculateHints l st).caps[p]? = st.caps[p]?) ∧
    ∀ p ∈ l, ∃ nextOffset, IsNext (fun q => (cap q).offset) l p nextOffset ∧
      (calculateHints l st).caps[p]? = some (some (calculatePciCapMaxSizeHint (cap p) nextOffset)) := by
  induction l generalizing st with
  | nil => exact ⟨rfl, rfl, fun _ _ => rfl, fun p hp => absurd hp not_mem_nil⟩
  | cons p l ih =>
    have hp := hcaps p mem_cons_self
    cases l with
    | nil =>
      refine ⟨length_modify _ _ _, rfl, fun q hq => ?_, fun q hq => ?_⟩
      · exact modify_getElem?_of_ne st _ (Ne.symm (ne_of_not_mem_cons hq))
      · obtain rfl := mem_singleton.mp hq
        refine ⟨none, ⟨fun o ho => (Option.some_ne_none _ ho.symm).elim, fun r hr hlt => ?_⟩, ?_⟩
        · rw [mem_singleton.mp hr] at hlt
          exact absurd hlt (lt_irrefl _)
        · show (st.caps.modify q _)[q]? = _
          rw [getElem?_modify_eq, hp]
          rfl
    | cons q l =>
      have hpairs := pairwise_cons.mp hsort
      have hne : ∀ r ∈ q :: l, p ≠ r := by
        intro r hr heq
        have := hpairs.1 r hr
        rw [heq] at this
        exact absurd this (lt_irrefl _)
      rw [calculateHints]
      obtain ⟨hlen,hcapabilities,hout,hin⟩ := @ih
        { st.modify p (calculatePciCapMaxSizeHint · (some (offsetAt st.caps q))) with
          capHdrOffsets := q :: l }
        (fun r hr => by
          have := modify_getElem?_of_ne st
            (calculatePciCapMaxSizeHint · (some (offsetAt st.caps q))) (hne r hr)
          exact this.trans (hcaps r (mem_cons_of_mem _ hr)))
        hpairs.2
      have hpout : p ∉ q :: l := fun hmem => hne p hmem rfl
      refine ⟨hlen.trans (length_modify _ _ _), hcapabilities, fun r hr => ?_, fun r hr => ?_⟩
      · rw [hout r (not_mem_of_not_mem_cons hr)]
        exact modify_getElem?_of_ne st _ (Ne.symm (ne_of_not_mem_cons hr))
      · have hoff : offsetAt st.caps q = (cap q).offset := by
          rw [offsetAt, capAt_eq (hcaps q (mem_cons_of_mem _ mem_cons_self))]
        rcases mem_cons.mp hr with rfl | hrl
        · refine ⟨some (cap q).offset, ⟨fun o ho => ?_, fun s hs hlt => ?_⟩, ?_⟩
          · cases ho
            exact hpairs.1 q mem_cons_self
          · refine ⟨_, rfl, ?_⟩
            rcases mem_cons.mp hs with rfl | hs
            · exact absurd hlt (lt_irrefl _)
            · rcases mem_cons.mp hs with rfl | hs
              · exact le_rfl
              · exact le_of_lt ((pairwise_cons.mp hpairs.2).1 s hs)
          · rw [hout r hpout, ← hoff]
            show (st.caps.modify r _)[r]? = _
            rw [getElem?_modify_eq, hp]
            rfl
        · obtain ⟨o,hnext,hcap⟩ := hin r hrl
          refine ⟨o, ⟨hnext.1, fun s hs hlt => ?_⟩, hcap⟩
          rcases mem_cons.mp hs with rfl | hs
          · exact absurd (hpairs.1 r hrl) (not_lt.mpr hlt.le)
          · exact hnext.2 s hs hlt

theorem calculatePciCapMaxSizeHint_eq (cap : PciCap) (nextOffset : Option Nat) :
    calculatePciCapMaxSizeHint cap nextOffset = { cap with
      maxSizeHint := min (nextOffset.getD (configSpaceSize cap.key.domain))
        (configSpaceSize cap.key.domain) - cap.offset } := by
  obtain ⟨⟨domain,capId,capInstance⟩,union,offset,maxSizeHint,version⟩ := cap
  cases nextOffset with
  | none => cases domain <;> rfl
  | some o =>
    rw [Option.getD_some]
    cases domain with
    | normal =>
      show (if o ≥ pciMaxConfigOffset then _ else _) = _
      by_cases ho : o ≥ pciMaxConfigOffset
      · rw [if_pos ho, configSpaceSize, min_eq_right ho]
      · rw [if_neg ho, configSpaceSize, min_eq_left (Nat.le_of_not_le ho)]
    | extended =>
      show (if o ≥ pciExpMaxConfigOffset then _ else _) = _
      by_cases ho : o ≥ pciExpMaxConfigOffset
      · rw [if_pos ho, configSpaceSize, min_eq_right ho]
      · rw [if_neg ho, configSpaceSize, min_eq_left (Nat.le_of_not_le ho)]

end Liano.Pci
