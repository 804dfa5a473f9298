import Mathlib.Logic.Function.Iterate
import Liano.Pci.Insertion

/-! `PciCapListInit` on a config space whose reads never fail: the two chains of headers, what a
traversal of them comes to, and the list that is left. -/
namespace Liano.Pci

open List

/-- The number in the `size` bytes at an offset. -/
def readAt (config : Nat → UInt8) : Nat → Nat → Nat
  | _, 0 => 0
  | offset, size+1 => (config offset).toNat + 256 * readAt config (offset+1) size

section
variable (config : Nat → UInt8)

theorem configSpace_eq (offset size : Nat) :
    configSpace config offset size = .ok (readAt config offset size) := by
  induction size generalizing offset with
  | zero => rfl
  | succ size ih =>
    rw [configSpace, ih, readAt]
    rfl

def normalNext (offset : Nat) : Nat :=
  if offset = 0 then 0 else readAt config offset 2 / 256 &&& 0xFC

def normalStart : Nat :=
  if readAt config pciPrimaryStatusOffset 2 &&& efiPciStatusCapability = 0 then 0
  else readAt config pciCapabilityPointerOffset 1 &&& 0xFC

def normalHeader (offset : Nat) : Header :=
  ⟨.normal, readAt config offset 2 % 256, offset, 0⟩

def extendedNext (offset : Nat) : Nat :=
  if offset < pciMaxConfigOffset then 0 else readAt config offset 4 / 2 ^ 20 &&& 0xFFC

def extendedStart : Nat :=
  if readAt config pciMaxConfigOffset 4 = 0 then 0 else pciMaxConfigOffset

def extendedHeader (offset : Nat) : Header :=
  ⟨.extended, readAt config offset 4 % 2^16, offset, readAt config offset 4 / 2^16 % 2^4⟩

/-- The `i`-th header that a chain leads to. -/
def chainAt (next : Nat → Nat) (start i : Nat) : Nat := next^[i] start

def Revisits (next : Nat → Nat) (start : Nat) : Prop :=
  ∃ i j, i < j ∧ chainAt next start i = chainAt next start j ∧ chainAt next start j ≠ 0

/-- A chain ends after `n` headers. -/
def EndsAfter (next : Nat → Nat) (start n : Nat) : Prop :=
  chainAt next start n = 0 ∧ ∀ i < n, chainAt next start i ≠ 0

/-- The normal capabilities have the PCI Express one among them. -/
def IsExpress : Prop := ∃ i, chainAt (normalNext config) (normalStart config) i ≠ 0 ∧
    (normalHeader config (chainAt (normalNext config) (normalStart config) i)).capId =
      efiPciCapabilityIdPciexp

def BadChain : Prop := Revisits (normalNext config) (normalStart config) ∨
    IsExpress config ∧ (Revisits (extendedNext config) (extendedStart config) ∨
      ∃ i, 0 < chainAt (extendedNext config) (extendedStart config) i ∧
        chainAt (extendedNext config) (extendedStart config) i < pciMaxConfigOffset)

def headersOf (header : Nat → Header) (next : Nat → Nat) (start n : Nat) : List Header :=
  (range n).map fun i => header (chainAt next start i)

def VisitedHeaders (hs : List Header) : Prop :=
  ∃ n m, hs = headersOf (normalHeader config) (normalNext config) (normalStart config) n ++
      headersOf (extendedHeader config) (extendedNext config) (extendedStart config) m ∧
    EndsAfter (normalNext config) (normalStart config) n ∧
    (IsExpress config ∧ EndsAfter (extendedNext config) (extendedStart config) m ∨ ¬ IsExpress config ∧ m = 0)

end

section
variable {config : Nat → UInt8} {next : Nat → Nat} {start : Nat} {header : Nat → Header}

theorem chainAt_succ (i : Nat) : chainAt next start (i+1) = next (chainAt next start i) :=
  Function.iterate_succ_apply' next i start

theorem chainAt_of_end (h0 : next 0 = 0) {n : Nat} (hn : chainAt next start n = 0) {j : Nat}
    (hj : n ≤ j) : chainAt next start j = 0 := by
  induction j, hj using Nat.le_induction with
  | base => exact hn
  | succ j _ ih => rw [chainAt_succ, ih, h0]

theorem headersOf_succ (n : Nat) : headersOf header next start (n+1) =
    headersOf header next start n ++ [header (chainAt next start n)] := by
  rw [headersOf, range_succ, map_append, map_singleton]
  rfl

theorem length_headersOf (n : Nat) : (headersOf header next start n).length = n := by
  rw [headersOf, length_map, length_range]

theorem mem_headersOf {n : Nat} {h : Header} :
    h ∈ headersOf header next start n ↔ ∃ i < n, header (chainAt next start i) = h := by
  simp only [headersOf, mem_map, mem_range]

theorem not_revisits (h0 : next 0 = 0) (hoff : ∀ o, (header o).offset = o) {n : Nat}
    (hend : EndsAfter next start n)
    (hnodup : ((headersOf header next start n).map Header.offset).Nodup) : ¬ Revisits next start := by
  rintro ⟨i,j,hij,heq,hne⟩
  have hj : j < n := by
    by_contra hle
    exact hne (chainAt_of_end h0 hend.1 (Nat.le_of_not_lt hle))
  have hinj := pairwise_map.mp hnodup
  rw [headersOf, pairwise_map] at hinj
  have := (pairwise_iff_getElem.mp hinj) i j (by simp; omega) (by simp; omega) hij
  simp only [getElem_range, hoff] at this
  exact this heq

theorem revisits_of_mem (hoff : ∀ o, (header o).offset = o) {n : Nat} (hne : chainAt next start n ≠ 0)
    (hmem : chainAt next start n ∈ (headersOf header next start n).map Header.offset) :
    Revisits next start := by
  obtain ⟨g,hg,hgo⟩ := mem_map.mp hmem
  obtain ⟨i,hi,rfl⟩ := mem_headersOf.mp hg
  exact ⟨i, n, hi, (hoff _).symm.trans hgo, hne⟩

theorem normalNext_zero : normalNext config 0 = 0 := rfl

theorem extendedNext_zero : extendedNext config 0 = 0 := rfl

theorem normalStart_le : normalStart config ≤ 0xFC := by
  rw [normalStart]
  split
  · exact Nat.zero_le _
  · exact Nat.and_le_right

theorem normal_chainAt_le (i : Nat) : chainAt (normalNext config) (normalStart config) i ≤ 0xFC := by
  cases i with
  | zero => exact normalStart_le
  | succ i =>
    rw [chainAt_succ, normalNext]
    split
    · exact Nat.zero_le _
    · exact Nat.and_le_right

theorem extended_chainAt_le (i : Nat) : chainAt (extendedNext config) (extendedStart config) i ≤ 0xFFC := by
  cases i with
  | zero =>
    show extendedStart config ≤ 0xFFC
    rw [extendedStart]
    split <;> decide
  | succ i =>
    rw [chainAt_succ, extendedNext]
    split
    · exact Nat.zero_le _
    · exact Nat.and_le_right

end

section
variable {st : PciParse} {hs : List Header}

theorem map_offset_eq (hs : List Header) :
    (range hs.length).map (fun i => (headerAt hs i).offset) = hs.map Header.offset := by
  apply ext_getElem
  · simp
  · intro i h1 h2
    have hi : i < hs.length := by simpa using h1
    simp only [getElem_map, getElem_range, headerAt, getD_eq_getElem _ _ hi]

theorem Represents.nodup (hr : Represents st hs) : (hs.map Header.offset).Nodup := by
  have h : (st.capHdrOffsets.map fun i => (headerAt hs i).offset).Nodup := by
    rw [List.Nodup, pairwise_map]
    exact hr.sortedOffsets.imp fun hlt => ne_of_lt hlt
  have hperm := hr.capHdrOffsets.map fun i => (headerAt hs i).offset
  rw [map_offset_eq] at hperm
  exact hperm.nodup_iff.mp h

theorem Represents.length_le (hr : Represents st hs) (hlt : ∀ g ∈ hs, g.offset < 4096) :
    hs.length ≤ 4096 := by
  have hsub : hs.map Header.offset ⊆ range 4096 := by
    intro o ho
    obtain ⟨g,hg,rfl⟩ := mem_map.mp ho
    exact mem_range.mpr (hlt g hg)
  have := (subperm_of_subset hr.nodup hsub).length_le
  rwa [length_map, length_range] at this

end

/-- How a traversal ends: with the headers `hs` there, with an error it names, or out of memory. -/
def TraversalOutcome (st : PciParse) (r : PciParse × EfiStatus) (done bad : Prop) : Prop :=
  r.1.allocations <:+ st.allocations ∧ (r.2 = .success ∧ done ∨ r.2 = .deviceError ∧ Owned r.1 ∧ bad ∨
    r.2 = .outOfResources ∧ Owned r.1 ∧ false ∈ st.allocations)

section
variable {config : Nat → UInt8}

theorem parseNormal_outcome {fuel n : Nat} {st : PciParse} {express : Bool} (hr : Represents st
      (headersOf (normalHeader config) (normalNext config) (normalStart config) n))
    (hnz : ∀ i < n, chainAt (normalNext config) (normalStart config) i ≠ 0)
    (hexpress : express = (headersOf (normalHeader config) (normalNext config)
      (normalStart config) n).any fun h => h.capId == efiPciCapabilityIdPciexp)
    (hfuel : 4097 ≤ fuel+n) : ∃ st' express' status, parseNormal (configSpace config) fuel
        (chainAt (normalNext config) (normalStart config) n) st express = some (st',express',status) ∧
      TraversalOutcome st (st',status)
        (∃ m, Represents st' (headersOf (normalHeader config) (normalNext config) (normalStart config) m) ∧
          EndsAfter (normalNext config) (normalStart config) m ∧
          express' = (headersOf (normalHeader config) (normalNext config)
            (normalStart config) m).any fun h => h.capId == efiPciCapabilityIdPciexp)
        (Revisits (normalNext config) (normalStart config)) := by
  induction fuel generalizing n st express with
  | zero =>
    have := hr.length_le fun g hg => by
      obtain ⟨i,-,rfl⟩ := mem_headersOf.mp hg
      exact lt_of_le_of_lt (normal_chainAt_le i) (by decide)
    rw [length_headersOf] at this
    omega
  | succ fuel ih =>
    rw [parseNormal]
    set offset := chainAt (normalNext config) (normalStart config) n with hoffset
    by_cases h0 : offset = 0
    · rw [if_pos h0]
      exact ⟨st, express, .success, rfl, suffix_refl _, .inl ⟨rfl, n, hr, ⟨h0, hnz⟩, hexpress⟩⟩
    have hins : insertPciCap st .normal (readAt config offset 2 % 256) offset 0 =
      insertHeader st (normalHeader config offset) := rfl
    have hout := insertPciCap_outcome hr (normalHeader config offset)
    rw [InsertOutcome, ← headersOf_succ] at hout
    rw [if_neg h0, configSpace_eq]
    simp only [hins]
    obtain ⟨halloc,⟨hs,hrep,-⟩ | ⟨hs,howned,hmem⟩ | ⟨hs,howned,hall⟩⟩ := hout
    · have hnext : chainAt (normalNext config) (normalStart config) (n+1) =
          readAt config offset 2 / 256 &&& 0xFC := by
        rw [chainAt_succ, ← hoffset, normalNext, if_neg h0]
      obtain ⟨st',express',status,hrun,hsuf,hcases⟩ := @ih (n+1) _
        (express || readAt config offset 2 % 256 == efiPciCapabilityIdPciexp) hrep
        (fun i hi => by
          rcases Nat.lt_succ_iff_lt_or_eq.mp hi with hi | rfl
          · exact hnz i hi
          · exact h0)
        (by rw [headersOf_succ, any_append, hexpress, ← hoffset]; simp [normalHeader]) (by omega)
      rw [hnext] at hrun
      rw [hs, show EfiStatus.isError .success = false from rfl, if_ff]
      exact ⟨st', express', status, hrun, hsuf.trans halloc,
        hcases.imp_right (Or.imp_right fun h => ⟨h.1, h.2.1, halloc.subset h.2.2⟩)⟩
    · rw [hs, if_pos (show EfiStatus.isError .deviceError = true from rfl)]
      exact ⟨_, _, _, rfl, halloc, .inr (.inl ⟨rfl, howned, revisits_of_mem (fun _ => rfl) h0 hmem⟩)⟩
    · rw [hs, if_pos (show EfiStatus.isError .outOfResources = true from rfl)]
      exact ⟨_, _, _, rfl, halloc, .inr (.inr ⟨rfl, howned, hall⟩)⟩

/-- The extended chain, behind the normal headers `hs`; its first header is not all zeros. -/
theorem parseExtended_outcome {hs : List Header} {fuel n : Nat} {st : PciParse}
    (hhs : ∀ g ∈ hs, g.offset ≤ 0xFC) (hfirst : readAt config pciMaxConfigOffset 4 ≠ 0)
    (hr : Represents st (hs ++
      headersOf (extendedHeader config) (extendedNext config) (extendedStart config) n))
    (hge : ∀ i < n, pciMaxConfigOffset ≤ chainAt (extendedNext config) (extendedStart config) i)
    (hcurr : pciMaxConfigOffset ≤ chainAt (extendedNext config) (extendedStart config) n ∨
      chainAt (extendedNext config) (extendedStart config) n = 0) (hfuel : 4097 ≤ fuel+n) :
    ∃ r, parseExtended (configSpace config) fuel
        (chainAt (extendedNext config) (extendedStart config) n) st = some r ∧ TraversalOutcome st r
        (∃ m, Represents r.1 (hs ++
            headersOf (extendedHeader config) (extendedNext config) (extendedStart config) m) ∧
          chainAt (extendedNext config) (extendedStart config) m = 0 ∧
          ∀ i < m, pciMaxConfigOffset ≤ chainAt (extendedNext config) (extendedStart config) i)
        (Revisits (extendedNext config) (extendedStart config) ∨
          ∃ i, 0 < chainAt (extendedNext config) (extendedStart config) i ∧
            chainAt (extendedNext config) (extendedStart config) i < pciMaxConfigOffset) := by
  induction fuel generalizing n st with
  | zero =>
    have := hr.length_le fun g hg => by
      rcases mem_append.mp hg with hg | hg
      · exact lt_of_le_of_lt (hhs g hg) (by decide)
      · obtain ⟨i,-,rfl⟩ := mem_headersOf.mp hg
        exact lt_of_le_of_lt (extended_chainAt_le i) (by decide)
    rw [length_append, length_headersOf] at this
    omega
  | succ fuel ih =>
    rw [parseExtended]
    set offset := chainAt (extendedNext config) (extendedStart config) n with hoffset
    by_cases h0 : offset = 0
    · rw [if_pos h0]
      exact ⟨_, rfl, suffix_refl _, .inl ⟨rfl, n, hr, h0, hge⟩⟩
    have hhere := hcurr.resolve_right h0
    have hins : insertPciCap st .extended (readAt config offset 4 % 2^16) offset
        (readAt config offset 4 / 2^16 % 2^4) = insertHeader st (extendedHeader config offset) := rfl
    have hout := insertPciCap_outcome hr (extendedHeader config offset)
    rw [InsertOutcome, append_assoc, ← headersOf_succ] at hout
    have hnotFirst : ¬ (offset = pciMaxConfigOffset ∧ readAt config offset 4 = 0) := by
      rintro ⟨h1,h2⟩
      rw [h1] at h2
      exact hfirst h2
    rw [if_neg h0, configSpace_eq]
    simp only [hins]
    rw [if_neg hnotFirst]
    obtain ⟨halloc,⟨hs',hrep,-⟩ | ⟨hs',howned,hmem⟩ | ⟨hs',howned,hall⟩⟩ := hout
    · have hnext : chainAt (extendedNext config) (extendedStart config) (n+1) =
          readAt config offset 4 / 2 ^ 20 &&& 0xFFC := by
        rw [chainAt_succ, ← hoffset, extendedNext, if_neg (not_lt.mpr hhere)]
      rw [hs', show EfiStatus.isError .success = false from rfl, if_ff, ← hnext]
      by_cases hbad : chainAt (extendedNext config) (extendedStart config) (n+1) > 0 ∧
          chainAt (extendedNext config) (extendedStart config) (n+1) < pciMaxConfigOffset
      · rw [if_pos hbad]
        exact ⟨_, rfl, halloc, .inr (.inl ⟨rfl, hrep.owned, .inr ⟨n+1, hbad⟩⟩)⟩
      rw [if_neg hbad]
      obtain ⟨r,hrun,hsuf,hcases⟩ := ih hrep
        (fun i hi => by
          rcases Nat.lt_succ_iff_lt_or_eq.mp hi with hi | rfl
          · exact hge i hi
          · exact hhere) (by omega) (by omega)
      exact ⟨r, hrun, hsuf.trans halloc,
        hcases.imp_right (Or.imp_right fun h => ⟨h.1, h.2.1, halloc.subset h.2.2⟩)⟩
    · rw [hs', if_pos (show EfiStatus.isError .deviceError = true from rfl)]
      refine ⟨_, rfl, halloc, .inr (.inl ⟨hs', howned, .inl ?_⟩)⟩
      refine @revisits_of_mem (extendedNext config) (extendedStart config)
        (extendedHeader config) (fun _ => rfl) n h0 ?_
      rw [map_append, mem_append] at hmem
      refine hmem.resolve_left fun hm => ?_
      obtain ⟨g,hg,hgo⟩ := mem_map.mp hm
      have hle := hhs g hg
      have hoff : g.offset = offset := hgo
      rw [hoff] at hle
      exact absurd (hhere.trans hle) (by decide)
    · rw [hs', if_pos (show EfiStatus.isError .outOfResources = true from rfl)]
      exact ⟨_, rfl, halloc, .inr (.inr ⟨hs', howned, hall⟩)⟩

end

end Liano.Pci
