import Liano.Gcd.Attributes

/-! A request on a GCD map as a change of the function from addresses to what the map says of
them. -/
namespace Liano.Gcd

open Liano.Lib

/-- Only the addresses of the request change, each by `f` applied to its own old value; nothing
changes if the request fails. -/
structure Pointwise (map map' : List GcdMapEntry) (max baseAddress length : Nat)
    (f : GcdDescriptor → GcdDescriptor) (status : EfiStatus) : Prop where
  tiles : Tiles 0 map' (max+1)
  error : status.isError = true → ∀ x, lookup map' x = lookup map x
  success : status.isError = false → ∀ x, lookup map' x =
    if baseAddress ≤ x ∧ x < baseAddress+length then (lookup map x).map f else lookup map x

def operationOn (r : Request) (d : GcdDescriptor) : GcdDescriptor :=
  (changeEntry r (cpuArchAttributesOf r) r.attributes d).2

def KeepsWithin (r : Request) (map map' : List GcdMapEntry) (status : EfiStatus) : Prop :=
  status.isError = false → (r.operation = .setAttributesMemory ∨ r.operation = .setCapabilitiesMemory) →
    ∀ x d d', lookup map x = some d → lookup map' x = some d' →
      Within d.attributes d.capabilities → Within d'.attributes d'.capabilities

/-- The request is for attributes that are no CPU attributes, and nothing stands against it. -/
def KeepsCpuAttributes (allocated : Bool) (r : Request) (map : List GcdMapEntry) (max : Nat) : Prop :=
  r.operation = .setAttributesMemory ∧ converToCpuArchAttributes r.attributes = 0 ∧
  allocated = true ∧ 0 < r.length ∧ r.baseAddress+r.length ≤ max+1 ∧
  ∀ x d, r.baseAddress ≤ x → x < r.baseAddress+r.length → lookup map x = some d → verifyEntry r d = .success

/-- The CPU attributes of each address are requested, or among those of every later address of the
request. -/
def CpuAttributesGrow (r : Request) (map : List GcdMapEntry) : Prop :=
  ∀ x y, r.baseAddress ≤ x → x ≤ y → y < r.baseAddress+r.length → ∀ d d',
    lookup map x = some d → lookup map y = some d' →
    Within (cpuAttributes d) (r.attributes ||| cpuAttributes d')

section
variable {map : List GcdMapEntry} {max : Nat} {r : Request}

theorem verifyEntries_success_iff {entries : List GcdMapEntry} :
    verifyEntries r entries = .success ↔ ∀ e ∈ entries, verifyEntry r e.value = .success := by
  induction entries with
  | nil => simp [verifyEntries]
  | cons e entries ih =>
    rw [verifyEntries, List.forall_mem_cons, ← ih]
    cases hv : verifyEntry r e.value <;> simp [EfiStatus.isError]

variable {status : EfiStatus} {map' : List GcdMapEntry}

theorem isError_eq_false_iff : status.isError = false ↔ status = .success := by
  cases status <;> simp [EfiStatus.isError]

theorem changeEntry_eq (h : ¬ (r.operation = .setAttributesMemory ∧
    converToCpuArchAttributes r.attributes = 0)) (d : GcdDescriptor) :
    changeEntry r (cpuArchAttributesOf r) r.attributes d = (r.attributes, operationOn r d) := by
  rw [operationOn, cpuArchAttributesOf]
  cases hop : r.operation with
  | setAttributesMemory =>
    have hcpu : converToCpuArchAttributes r.attributes ≠ 0 := fun h0 => h ⟨hop, h0⟩
    simp only [changeEntry, hop, if_true, if_neg hcpu]
  | _ => simp only [changeEntry, hop]

section
variable (hop : r.operation = .setAttributesMemory) (hcpu : converToCpuArchAttributes r.attributes = 0)
include hop hcpu

theorem changeEntry_carries (s : BitVec 64) (d : GcdDescriptor) :
    changeEntry r (cpuArchAttributesOf r) s d = carryAttributes s d := by
  simp only [changeEntry, cpuArchAttributesOf, hop, if_true, hcpu]
  rfl

theorem operationOn_carries : operationOn r = keepCpuAttributes r.attributes := by
  funext d
  rw [operationOn, changeEntry_carries hop hcpu]
  rfl

end

theorem within_operationOn (hop : r.operation = .setAttributesMemory ∨
    r.operation = .setCapabilitiesMemory) {d : GcdDescriptor} (hv : verifyEntry r d = .success)
    (hd : Within d.attributes d.capabilities) :
    Within (operationOn r d).attributes (operationOn r d).capabilities := by
  rcases hop with hop | hop
  · have hcap : Within r.attributes d.capabilities := by
      rw [verifyEntry, hop] at hv
      by_contra hne
      have hne' : d.capabilities &&& r.attributes ≠ r.attributes := by
        rw [BitVec.and_comm]
        exact hne
      simp only [if_pos hne'] at hv
      split at hv <;> cases hv
    by_cases hcpu : converToCpuArchAttributes r.attributes = 0
    · rw [operationOn_carries hop hcpu]
      exact within_or_left.mpr ⟨hcap, within_and_left.trans hd⟩
    · simp only [operationOn, changeEntry, cpuArchAttributesOf, hop, if_true, if_neg hcpu]
      exact hcap
  · rw [verifyEntry, hop] at hv
    simp only [operationOn, changeEntry, hop]
    by_contra hne
    have hne' : r.capabilities &&& d.attributes ≠ d.attributes := by
      rw [BitVec.and_comm]
      exact hne
    simp only [if_pos hne'] at hv
    split at hv <;> cases hv

theorem pointwise_error (hmap : Tiles 0 map (max+1))
    (hst : status.isError = true) (f : GcdDescriptor → GcdDescriptor) (baseAddress length : Nat) :
    Pointwise map map max baseAddress length f status :=
  ⟨hmap, fun _ _ => rfl, fun h => by rw [hst] at h; cases h⟩

theorem keepsWithin_error (hst : status.isError = true) : KeepsWithin r map map status := by
  intro h
  rw [hst] at h
  cases h

variable {last s e : Nat} {range : MapRange}

theorem verifyEntries_iff_addresses (hr : IsRange map max r.baseAddress last range s e)
    (hle : r.baseAddress ≤ last) : verifyEntries r range.range = .success ↔
      ∀ x d, r.baseAddress ≤ x → x ≤ last → lookup map x = some d → verifyEntry r d = .success := by
  rw [verifyEntries_success_iff]
  constructor
  · intro h x d hx hxl hd
    rw [hr.lookup ⟨hx, hxl⟩] at hd
    obtain ⟨f,hf,-,rfl⟩ := mem_of_lookup hd
    exact h f hf
  · intro h f hf
    obtain ⟨x,hx,hin⟩ := exists_address hr.range hle hf (hr.meets f hf)
    refine h x f.value hx.1 hx.2 ?_
    rw [hr.lookup hx]
    exact lookup_of_mem hr.range hf hin

theorem pointwise_iff {σ : Type} {change : σ → GcdDescriptor → σ × GcdDescriptor} {st : σ}
    {baseAddress length : Nat} {f : GcdDescriptor → GcdDescriptor}
    (hr : IsRange map max baseAddress last range s e) (hlen : baseAddress+length = last+1)
    (htiles : Tiles 0 map' (max+1)) (hlookup : ∀ x, lookup map' x = if baseAddress ≤ x ∧ x ≤ last then
      lookup (thread change st range.range) x else lookup map x) :
    Pointwise map map' max baseAddress length f .success ↔ ∀ x, baseAddress ≤ x ∧ x ≤ last →
        lookup (thread change st range.range) x = (lookup range.range x).map f := by
  have hiff : ∀ x, (baseAddress ≤ x ∧ x < baseAddress+length) ↔ (baseAddress ≤ x ∧ x ≤ last) := by
    intro x
    rw [hlen, Nat.lt_succ_iff]
  constructor
  · intro h x hx
    have hx' := h.success rfl x
    rw [hlookup, if_pos hx, if_pos ((hiff x).mpr hx), hr.lookup hx] at hx'
    exact hx'
  · intro h
    refine ⟨htiles, fun herr => (nomatch herr), fun _ x => ?_⟩
    by_cases hx : baseAddress ≤ x ∧ x ≤ last
    · rw [hlookup, if_pos hx, if_pos ((hiff x).mpr hx), h x hx, hr.lookup hx]
    · rw [hlookup, if_neg hx, if_neg (fun hx' => hx ((hiff x).mp hx'))]

theorem keepsWithin_of_pointwise
    (hp : Pointwise map map' max r.baseAddress r.length (operationOn r) .success)
    (hver : ∀ x d, r.baseAddress ≤ x → x < r.baseAddress+r.length → lookup map x = some d →
      verifyEntry r d = .success) : KeepsWithin r map map' .success := by
  intro _ hop x d d' hd hd' hwithin
  have hx := hp.success rfl x
  rw [hd', hd] at hx
  by_cases hin : r.baseAddress ≤ x ∧ x < r.baseAddress+r.length
  · rw [if_pos hin, Option.map_some, Option.some.injEq] at hx
    rw [hx]
    exact within_operationOn hop (hver x d hin.1 hin.2 hd) hwithin
  · rw [if_neg hin, Option.some.injEq] at hx
    rw [hx]
    exact hwithin

/-- A request that is carried out is pointwise unless it carries attributes of one address to
another. -/
theorem pointwise_convert_iff
    (hr : IsRange map max r.baseAddress last range s e) (hle : r.baseAddress ≤ last)
    (hlen : r.baseAddress+r.length = last+1) (htiles : Tiles 0 map' (max+1))
    (hlookup : ∀ x, lookup map' x = if r.baseAddress ≤ x ∧ x ≤ last then
      lookup (thread (changeEntry r (cpuArchAttributesOf r)) r.attributes range.range) x
      else lookup map x) : Pointwise map map' max r.baseAddress r.length (operationOn r) .success ↔
      (r.operation = .setAttributesMemory ∧ converToCpuArchAttributes r.attributes = 0 →
        CpuAttributesGrow r map) := by
  rw [pointwise_iff hr hlen htiles hlookup]
  by_cases hcarry : r.operation = .setAttributesMemory ∧ converToCpuArchAttributes r.attributes = 0
  · have hchange : changeEntry r (cpuArchAttributesOf r) = carryAttributes := by
      funext st d
      exact changeEntry_carries hcarry.1 hcarry.2 st d
    have hself : Within r.attributes r.attributes := BitVec.and_self
    rw [hchange, operationOn_carries hcarry.1 hcarry.2,
      thread_eq_map_iff hr.range hle hr.meets, thread_carryAttributes_iff hself,
      @pairwise_iff_addresses range.range r.baseAddress last s e
        (fun d d' => Within (cpuAttributes d) (r.attributes ||| cpuAttributes d'))
        (fun d => within_or_self) hr.range hle hr.meets]
    constructor
    · intro h _ x y hx hxy hy d d' hd hd'
      rw [hlen, Nat.lt_succ_iff] at hy
      rw [hr.lookup ⟨hx, le_trans hxy hy⟩] at hd
      rw [hr.lookup ⟨le_trans hx hxy, hy⟩] at hd'
      exact h.2 x y hx hxy hy d d' hd hd'
    · intro h
      refine ⟨fun e _ => within_or_right hself, fun x y hx hxy hy d d' hd hd' => ?_⟩
      rw [← hr.lookup ⟨hx, le_trans hxy hy⟩] at hd
      rw [← hr.lookup ⟨le_trans hx hxy, hy⟩] at hd'
      exact h hcarry x y hx hxy (by omega) d d' hd hd'
  · refine iff_of_true (fun x hx => ?_) (fun h => absurd h hcarry)
    exact lookup_thread (changeEntry_eq hcarry) _ _

end

/-- Either the request is refused and nothing changes, or all addresses of it are converted. -/
theorem coreConvertSpace_cases {map : List GcdMapEntry} {max : Nat} (hmap : Tiles 0 map (max+1))
    (hmax : max < 2^64) (cpu : CpuArchProtocol) (allocated : Bool) (r : Request)
    (hwrap : r.baseAddress+r.length ≤ 2^64) :
    ∃ map' status, coreConvertSpace cpu allocated r map = some (map',status) ∧
      (status.isError = true ∧ map' = map ∧ ¬ KeepsCpuAttributes allocated r map max ∨
        status = .success ∧ allocated = true ∧ ∃ last range s e, r.baseAddress+r.length = last+1 ∧
          r.baseAddress ≤ last ∧ last ≤ max ∧ IsRange map max r.baseAddress last range s e ∧
          verifyEntries r range.range = .success ∧ Tiles 0 map' (max+1) ∧
          ∀ x, lookup map' x = if r.baseAddress ≤ x ∧ x ≤ last then
            lookup (thread (changeEntry r (cpuArchAttributesOf r)) r.attributes range.range) x else lookup map x) := by
  by_cases h0 : r.length = 0
  · refine ⟨map, .invalidParameter, by rw [coreConvertSpace, if_pos h0], .inl ⟨rfl, rfl, fun h => ?_⟩⟩
    exact absurd h.2.2.2.1 (by omega)
  obtain ⟨last,hlen⟩ : ∃ last, r.baseAddress+r.length = last+1 := ⟨r.baseAddress+r.length-1, by omega⟩
  have hle : r.baseAddress ≤ last := by omega
  obtain ⟨hnone,hsome⟩ := coreSearchGcdMapEntry_spec hmap hlen hle (by omega)
  by_cases hlast : last ≤ max
  swap
  · refine ⟨map, .unsupported, ?_, .inl ⟨rfl, rfl, fun h => ?_⟩⟩
    · rw [coreConvertSpace, if_neg h0, hnone (by omega)]
    · exact hlast (by have := h.2.2.2.2.1; omega)
  obtain ⟨range,s,e,hsrch,hr⟩ := hsome hlast
  have hunfold : coreConvertSpace cpu allocated r map =
      if (verifyEntries r range.range).isError then some (map, verifyEntries r range.range)
      else if !allocated then some (map, .outOfResources)
      else if (setCpuAttributes cpu r).isError then some (map, setCpuAttributes cpu r)
      else (convertRange r.baseAddress r.length (changeEntry r (cpuArchAttributesOf r))
        r.attributes range).map fun map => (map, .success) := by rw [coreConvertSpace, if_neg h0, hsrch]
  cases hv : (verifyEntries r range.range).isError with
  | true =>
    refine ⟨map, _, by rw [hunfold, if_pos hv], .inl ⟨hv, rfl, fun h => ?_⟩⟩
    rw [(verifyEntries_iff_addresses hr hle).mpr fun x d hx hxl hd => h.2.2.2.2.2 x d hx (by omega) hd] at hv
    cases hv
  | false =>
    cases allocated with
    | false =>
      exact ⟨map, .outOfResources, by rw [hunfold, hv]; rfl, .inl ⟨rfl, rfl, fun h => Bool.false_ne_true h.2.2.1⟩⟩
    | true =>
      cases hcpu : (setCpuAttributes cpu r).isError with
      | true =>
        refine ⟨map, _, by rw [hunfold, hv, hcpu]; rfl, .inl ⟨hcpu, rfl, fun h => ?_⟩⟩
        simp only [setCpuAttributes, h.2.1, ne_eq, not_true_eq_false, and_false, if_false] at hcpu
        cases hcpu
      | false =>
        obtain ⟨map',hconv,htiles,hlookup⟩ :=
          @convertRange_spec _ (changeEntry r (cpuArchAttributesOf r)) r.attributes map max
            r.baseAddress r.length last s e range hr hmax hle hlen
        refine ⟨map', .success, ?_, .inr ⟨rfl, rfl, last, range, s, e, hlen, hle, hlast, hr,
          isError_eq_false_iff.mp hv, htiles, hlookup⟩⟩
        rw [hunfold, hv, hcpu, hconv]
        rfl

/-- A request that does not wrap leaves a map that tiles the address space, and is pointwise exactly
if it does not set attributes behind smaller CPU attributes. -/
theorem coreConvertSpace_pointwise_iff {map : List GcdMapEntry} {max : Nat}
    (hmap : Tiles 0 map (max+1)) (hmax : max < 2^64) (cpu : CpuArchProtocol) (allocated : Bool)
    (r : Request) (hwrap : r.baseAddress+r.length ≤ 2^64) :
    ∃ map' status, coreConvertSpace cpu allocated r map = some (map',status) ∧ Tiles 0 map' (max+1) ∧
      (Pointwise map map' max r.baseAddress r.length (operationOn r) status ∧ KeepsWithin r map map' status ↔
        (KeepsCpuAttributes allocated r map max → CpuAttributesGrow r map)) := by
  -- a request that is refused changes nothing, and the condition does not concern it
  obtain ⟨map',status,hrun,⟨herr,rfl,hnot⟩ | ⟨rfl,rfl,last,range,s,e,hlen,hle,hlast,hr,hver,htiles,hlookup⟩⟩ :=
    coreConvertSpace_cases hmap hmax cpu allocated r hwrap
  · exact ⟨map', status, hrun, hmap,
      iff_of_true ⟨pointwise_error hmap herr _ _ _, keepsWithin_error herr⟩ fun h => absurd h hnot⟩
  refine ⟨map', .success, hrun, htiles, ?_⟩
  have hiff := pointwise_convert_iff hr hle hlen htiles hlookup
  have hall : ∀ x d, r.baseAddress ≤ x → x < r.baseAddress+r.length → lookup map x = some d →
      verifyEntry r d = .success :=
    fun x d hx hxl hd => (verifyEntries_iff_addresses hr hle).mp hver x d hx (by omega) hd
  constructor
  · intro h hkeep
    exact hiff.mp h.1 ⟨hkeep.1, hkeep.2.1⟩
  · intro h
    have hp := hiff.mpr fun hop => h ⟨hop.1, hop.2, rfl, by omega, by omega, hall⟩
    exact ⟨hp, keepsWithin_of_pointwise hp hall⟩

end Liano.Gcd
