import Liano.Gcd.SearchSpace
import Liano.MemoryMap.GetMemoryMap

/-! `CoreAddMemorySpace`: the pages of system memory that go from the GCD map to the UEFI page
map. -/
namespace Liano.Gcd

open Liano.Lib Liano.MemoryMap

def efiPageShift : Nat := 12

def alignValue (value alignment : Nat) (roundUp : Bool) : Nat :=
  alignDown alignment (if roundUp then toUint64 (value + (2^alignment-1)) else value)

def pageAlignAddress (value : Nat) : Nat := alignValue value efiPageShift true

def pageAlignLength (value : Nat) : Nat := alignValue value efiPageShift false

def coreInternalAddMemorySpace (cpu : CpuArchProtocol) (allocated : Bool)
    (gcdMemoryType : GcdMemoryType) (baseAddress length : Nat) (capabilities : BitVec 64)
    (map : List GcdMapEntry) : Option (List GcdMapEntry × EfiStatus) :=
  if gcdMemoryType = .nonExistent then some (map, .invalidParameter)
  else coreConvertSpace cpu allocated
    ⟨.addMemory, gcdMemoryType, .nonExistent, baseAddress, length, capabilities, 0⟩ map

def coreAllocateMemorySpace (allocated : Bool) (gcdAllocateType : GcdAllocateType)
    (gcdMemoryType : GcdMemoryType) (alignment length baseAddress : Nat)
    (imageHandle deviceHandle : Option Nat) (map : List GcdMapEntry) :
    Option (List GcdMapEntry × Nat × EfiStatus) := coreAllocateSpace allocated
    ⟨true, gcdAllocateType, gcdMemoryType, .nonExistent, alignment, length, baseAddress, imageHandle,
      deviceHandle⟩ map (map.length+1)

/-- The pages that a call of `CoreAddMemoryDescriptor` hands on to `CoreAddRange`. -/
structure AddedRange where
  type : Nat
  start : Nat
  numberOfPages : Nat
  attributes : BitVec 64
deriving DecidableEq, Repr

def memoryTypeOemReservedMin : Nat := 0x70000000

def coreAddMemoryDescriptor (type start numberOfPages : Nat) (attributes : BitVec 64) : Option AddedRange :=
  -- Start & EFI_PAGE_MASK
  if start % efiPageSize ≠ 0 then none
  else if type ≥ efiMaxMemoryType ∧ type < memoryTypeOemReservedMin then none
  else some ⟨type, start, numberOfPages, attributes⟩

/-- The GCD map, what has been added to the page map, the runs of the fallback loop, and the
status. -/
structure AddMemory where
  map : List GcdMapEntry
  added : List AddedRange
  runs : Nat
  status : EfiStatus
deriving DecidableEq, Repr

/-- The arguments that `CoreAddMemorySpace` passes on; `allocated` has the outcomes of
`CoreAllocateGcdMapEntry`. -/
structure AddMemoryRequest where
  cpu : CpuArchProtocol
  allocated : Nat → Bool
  gDxeCoreImageHandle : Option Nat
  gcdMemoryType : GcdMemoryType
  baseAddress : Nat
  length : Nat
  capabilities : BitVec 64

/-- The loop that goes on page by page; `none` is the loop going on after `fuel` tests of
`PageLength`. -/
def addPagesLoop (q : AddMemoryRequest) : Nat → Nat → Nat → AddMemory → Option AddMemory
  | 0, _, _, _ => none
  | fuel+1, pageLength, pageBaseAddress, s =>
    if pageLength = 0 then some s
    else
      (coreAllocateMemorySpace (q.allocated (s.runs+2)) .address q.gcdMemoryType efiPageShift
        efiPageSize pageBaseAddress q.gDxeCoreImageHandle none s.map).bind fun out =>
          let added := if out.2.2.isError then [] else
            (coreAddMemoryDescriptor efiConventionalMemory out.2.1 1 q.capabilities).toList
          addPagesLoop q fuel (toUint64 (pageLength + (2^64-efiPageSize)))
            (toUint64 (out.2.1+efiPageSize))
            ⟨out.1, s.added ++ added, s.runs+1, out.2.2⟩

def coreAddMemorySpace (q : AddMemoryRequest) (map : List GcdMapEntry) (fuel : Nat) : Option AddMemory :=
  (coreInternalAddMemorySpace q.cpu (q.allocated 0) q.gcdMemoryType q.baseAddress q.length
    q.capabilities map).bind fun out =>
      if !out.2.isError ∧ (q.gcdMemoryType = .systemMemory ∨ q.gcdMemoryType = .moreReliable) then
        let pageBaseAddress := pageAlignAddress q.baseAddress
        let pageLength := pageAlignLength (toUint64 (q.baseAddress+q.length + (2^64-pageBaseAddress)))
        (coreAllocateMemorySpace (q.allocated 1) .address q.gcdMemoryType efiPageShift pageLength
          pageBaseAddress q.gDxeCoreImageHandle none out.1).bind fun out =>
            if out.2.2.isError then addPagesLoop q fuel pageLength out.2.1 ⟨out.1, [], 0, out.2.2⟩
            else some ⟨out.1, (coreAddMemoryDescriptor efiConventionalMemory out.2.1
              (pageLength / 2^efiPageShift) q.capabilities).toList, 0, out.2.2⟩
      else some ⟨out.1, [], 0, out.2⟩

def AddedTo (added : List AddedRange) (x : Nat) : Prop :=
  ∃ d ∈ added, d.start ≤ x ∧ x < d.start + d.numberOfPages*efiPageSize

def PageAllocated (map : List GcdMapEntry) (x : Nat) : Prop :=
  ∀ y, y / efiPageSize = x / efiPageSize → ∃ d, lookup map y = some d ∧ d.imageHandle ≠ none

/-- The pages added are the whole pages inside the range that have been allocated, and the loop runs
no more often than there are pages in the length. -/
def AddsPages (q : AddMemoryRequest) (map : List GcdMapEntry) : Prop :=
  ∃ fuel out, coreAddMemorySpace q map fuel = some out ∧ (∀ x, AddedTo out.added x ↔
      q.baseAddress ≤ x / efiPageSize * efiPageSize ∧
        x / efiPageSize * efiPageSize + efiPageSize ≤ q.baseAddress+q.length ∧
        PageAllocated out.map x) ∧ out.runs ≤ q.length / efiPageSize

theorem pageAlignAddress_eq {n : Nat} (h : n ≤ 2^63) : pageAlignAddress n = (n+0xFFF) / 0x1000 * 0x1000 := by
  rw [pageAlignAddress, alignValue, if_pos rfl, alignDown, efiPageShift, toUint64_of_lt (by omega)]
  rfl

theorem pageAlignLength_eq (n : Nat) : pageAlignLength n = n / 0x1000 * 0x1000 := rfl

theorem addedTo_append {xs ys : List AddedRange} {x : Nat} :
    AddedTo (xs ++ ys) x ↔ AddedTo xs x ∨ AddedTo ys x := by
  constructor
  · rintro ⟨d,hd,h⟩
    rcases List.mem_append.mp hd with hd | hd
    · exact .inl ⟨d, hd, h⟩
    · exact .inr ⟨d, hd, h⟩
  · rintro (⟨d,hd,h⟩ | ⟨d,hd,h⟩)
    · exact ⟨d, List.mem_append_left _ hd, h⟩
    · exact ⟨d, List.mem_append_right _ hd, h⟩

theorem not_addedTo_nil (x : Nat) : ¬ AddedTo [] x := by
  rintro ⟨d,hd,-⟩
  cases hd

theorem addedTo_coreAddMemoryDescriptor {start pages x : Nat} {attrs : BitVec 64}
    (hal : start % efiPageSize = 0) :
    AddedTo (coreAddMemoryDescriptor efiConventionalMemory start pages attrs).toList x ↔
      start ≤ x ∧ x < start + pages*efiPageSize := by
  rw [coreAddMemoryDescriptor, if_neg (not_not_intro hal), if_neg (by decide), Option.toList_some]
  constructor
  · rintro ⟨d,hd,h⟩
    rw [List.mem_singleton.mp hd] at h
    exact h
  · intro h
    exact ⟨_, List.mem_singleton_self _, h⟩

section
variable {map : List GcdMapEntry} {max : Nat}

theorem findSpace_address {r : AllocateRequest} {fuel base : Nat}
    {found : Except EfiStatus MapRange} (htype : r.gcdAllocateType = .address)
    (h : findSpace r map fuel = some (base,found)) : base = r.baseAddress := by
  rw [findSpace, if_pos htype] at h
  split at h
  · cases h
    rfl
  split at h
  · cases h
    rfl
  · split at h <;> cases h <;> rfl

variable {map' : List GcdMapEntry}

theorem coreAllocateSpace_address {r : AllocateRequest} {allocated : Bool} {fuel base : Nat}
    {status : EfiStatus} (htype : r.gcdAllocateType = .address)
    (h : coreAllocateSpace allocated r map fuel = some (map',base,status)) :
    base = r.baseAddress ∧ (status.isError = false → r.imageHandle ≠ none) := by
  rw [coreAllocateSpace] at h
  by_cases himg : r.imageHandle = none
  · rw [if_pos himg] at h
    cases h
    exact ⟨rfl, fun hs => absurd hs (by decide)⟩
  refine ⟨?_, fun _ => himg⟩
  rw [if_neg himg] at h
  split at h
  · cases h
    rfl
  split at h
  · cases h
    rfl
  obtain ⟨⟨base',found⟩,hfind,hrest⟩ := Option.bind_eq_some_iff.mp h
  have hbase := findSpace_address htype hfind
  cases found with
  | error status' =>
    cases hrest
    exact hbase
  | ok range =>
    simp only at hrest
    split at hrest
    · cases hrest
      exact hbase
    · obtain ⟨map'',-,hout⟩ := Option.map_eq_some_iff.mp hrest
      cases hout
      exact hbase

/-- An exact allocation of a range inside the map either changes nothing or gives the range to the
image. -/
theorem coreAllocateMemorySpace_address {allocated : Bool} {gcdMemoryType : GcdMemoryType}
    {base length : Nat} {imageHandle : Option Nat} (hmap : Tiles 0 map (max+1))
    (hmax : max < 2^63) (hle : base+length ≤ max+1) : ∃ map' status,
      coreAllocateMemorySpace allocated .address gcdMemoryType efiPageShift length base imageHandle
        none map = some (map',base,status) ∧ Tiles 0 map' (max+1) ∧
      (status.isError = true → ∀ x, lookup map' x = lookup map x) ∧
      (status.isError = false → imageHandle ≠ none ∧ ∀ x, lookup map' x = if base ≤ x ∧ x < base+length then
          (lookup map x).map fun d => { d with imageHandle := imageHandle, deviceHandle := none }
        else lookup map x) := by
  have hlen : length ≤ max+1 := by omega
  have hwrap : base+length ≤ 2^64 := by omega
  have hsome := @coreAllocateSpace_isSome map ⟨true, .address, gcdMemoryType, .nonExistent,
    efiPageShift, length, base, imageHandle, none⟩ max allocated hmap hmax hlen
  obtain ⟨⟨map',base',status⟩,hrun⟩ := Option.isSome_iff_exists.mp hsome
  obtain ⟨rfl,himg⟩ := coreAllocateSpace_address rfl hrun
  have hpoint := coreAllocateSpace_pointwise hmap (by omega) hrun (fun _ => hwrap)
  exact ⟨map', status, hrun, hpoint.tiles, hpoint.error, fun hst => ⟨himg hst, hpoint.success hst⟩⟩

theorem pageAllocated_congr {x : Nat}
    (h : ∀ y, y / efiPageSize = x / efiPageSize → lookup map' y = lookup map y) :
    PageAllocated map' x ↔ PageAllocated map x := by
  constructor
  · intro hall y hy
    rw [← h y hy]
    exact hall y hy
  · intro hall y hy
    rw [h y hy]
    exact hall y hy

theorem mem_pages_iff {base k x y : Nat} (hal : base % efiPageSize = 0)
    (h : y / efiPageSize = x / efiPageSize) :
    (base ≤ y ∧ y < base + k*efiPageSize) ↔ (base ≤ x ∧ x < base + k*efiPageSize) := by
  rw [efiPageSize] at *
  omega

theorem pageAllocated_iff {status : EfiStatus} {base k x : Nat}
    (imageHandle : Option Nat) (hal : base % efiPageSize = 0)
    (hx : base ≤ x ∧ x < base + k*efiPageSize) (hfree : ∀ x, base ≤ x → x < base + k*efiPageSize →
      ∃ d, lookup map x = some d ∧ d.imageHandle = none)
    (herr : status.isError = true → ∀ x, lookup map' x = lookup map x)
    (hok : status.isError = false → imageHandle ≠ none ∧ ∀ x, lookup map' x =
      if base ≤ x ∧ x < base + k*efiPageSize then
        (lookup map x).map fun d => { d with imageHandle := imageHandle, deviceHandle := none }
      else lookup map x) : PageAllocated map' x ↔ status.isError = false := by
  constructor
  · intro hall
    cases hst : status.isError with
    | false => rfl
    | true =>
      obtain ⟨d,hd,himg⟩ := hall x rfl
      obtain ⟨d',hd',hnone⟩ := hfree x hx.1 hx.2
      rw [herr hst, hd', Option.some.injEq] at hd
      rw [hd] at hnone
      exact absurd hnone himg
  · intro hst y hy
    obtain ⟨himg,hlookup⟩ := hok hst
    have hyin := (mem_pages_iff hal hy).mpr hx
    obtain ⟨d,hd,-⟩ := hfree y hyin.1 hyin.2
    refine ⟨{ d with imageHandle := imageHandle, deviceHandle := none }, ?_, himg⟩
    rw [hlookup y, if_pos hyin, hd, Option.map_some]

/-- On free pages the loop ends, after a run for each of them, and adds those it has allocated. -/
theorem addPagesLoop_spec {q : AddMemoryRequest} {k base : Nat} {s : AddMemory}
    (hmap : Tiles 0 s.map (max+1)) (hmax : max < 2^63) (hal : base % efiPageSize = 0)
    (hle : base + k*efiPageSize ≤ max+1) (hfree : ∀ x, base ≤ x → x < base + k*efiPageSize →
      ∃ d, lookup s.map x = some d ∧ d.imageHandle = none) :
    ∃ out, addPagesLoop q (k+1) (k*efiPageSize) base s = some out ∧ out.runs = s.runs+k ∧
      (∀ x, ¬ (base ≤ x ∧ x < base + k*efiPageSize) → lookup out.map x = lookup s.map x) ∧
      ∀ x, AddedTo out.added x ↔ AddedTo s.added x ∨
        (base ≤ x ∧ x < base + k*efiPageSize) ∧ PageAllocated out.map x := by
  induction k generalizing base s with
  | zero =>
    refine ⟨s, ?_, rfl, fun _ _ => rfl, fun x => ?_⟩
    · rw [addPagesLoop, if_pos (zero_mul _)]
    · rw [zero_mul, add_zero]
      exact ⟨.inl, fun h => h.elim id fun h => absurd h.1.2 (not_lt.mpr h.1.1)⟩
  | succ k ih =>
    have hpage : efiPageSize = 0x1000 := rfl
    have hone : 1*efiPageSize = efiPageSize := one_mul _
    have hsplit : (k+1) * efiPageSize = k*efiPageSize+efiPageSize := Nat.succ_mul _ _
    obtain ⟨map',status,hrun,hmap',herr,hok⟩ :=
      @coreAllocateMemorySpace_address s.map max (q.allocated (s.runs+2)) q.gcdMemoryType base
        efiPageSize q.gDxeCoreImageHandle hmap hmax (by omega)
    have hfree' : ∀ x, base+efiPageSize ≤ x → x < base+efiPageSize + k*efiPageSize →
        ∃ d, lookup map' x = some d ∧ d.imageHandle = none := by
      intro x hx hlt
      obtain ⟨d,hd,hnone⟩ := hfree x (by omega) (by omega)
      refine ⟨d, ?_, hnone⟩
      cases hst : status.isError with
      | true => rw [herr hst, hd]
      | false => rw [(hok hst).2, if_neg (by omega), hd]
    obtain ⟨out,hout,hruns,hframe,hadded⟩ := @ih (base+efiPageSize) ⟨map', s.added ++
      (if status.isError then [] else
        (coreAddMemoryDescriptor efiConventionalMemory base 1 q.capabilities).toList),
      s.runs+1, status⟩ hmap' ((Nat.add_mod_right _ _).trans hal) (by omega) hfree'
    refine ⟨out, ?_, ?_, fun x hx => ?_, fun x => ?_⟩
    · have hlen : toUint64 (k*efiPageSize+efiPageSize + (2^64-efiPageSize)) = k*efiPageSize := by
        rw [toUint64]
        omega
      have hnext : toUint64 (base+efiPageSize) = base+efiPageSize := toUint64_of_lt (by omega)
      rw [addPagesLoop, if_neg (by omega), hrun, Option.bind_some, hsplit]
      simp only [hlen, hnext]
      exact hout
    · rw [hruns]
      exact Nat.add_right_comm s.runs 1 k
    · rw [hframe x (by omega)]
      cases hst : status.isError with
      | true => exact herr hst x
      | false => rw [(hok hst).2, if_neg (by omega)]
    · rw [hadded, addedTo_append, or_assoc]
      refine or_congr Iff.rfl ?_
      by_cases hin : base ≤ x ∧ x < base+efiPageSize
      · have hpgs : PageAllocated out.map x ↔ status.isError = false := by
          rw [pageAllocated_congr fun y hy => hframe y ?_]
          · refine pageAllocated_iff (k := 1) q.gDxeCoreImageHandle hal (by omega) (fun x hx hlt => ?_) herr ?_
            · exact hfree x hx (by omega)
            · rw [hone]
              exact hok
          · have := (@mem_pages_iff base 1 x y hal hy).mpr (by omega)
            omega
        rw [hpgs]
        cases hst : status.isError with
        | true =>
          constructor
          · rintro (h | h)
            · exact absurd h (not_addedTo_nil x)
            · omega
          · rintro ⟨-,h⟩
            cases h
        | false =>
          simp only [Bool.false_eq_true, if_false, addedTo_coreAddMemoryDescriptor hal]
          constructor
          · intro _
            exact ⟨by omega, trivial⟩
          · intro _
            exact .inl (by omega)
      · have hnot : ¬ AddedTo (if status.isError then [] else
            (coreAddMemoryDescriptor efiConventionalMemory base 1 q.capabilities).toList) x := by
          split
          · exact not_addedTo_nil x
          · rw [addedTo_coreAddMemoryDescriptor hal, hone]
            exact hin
        rw [or_iff_right hnot]
        refine and_congr ?_ Iff.rfl
        omega

theorem addPagesLoop_runs {q : AddMemoryRequest} {fuel k base : Nat} {s out : AddMemory}
    (hk : k*efiPageSize < 2^64)
    (h : addPagesLoop q fuel (k*efiPageSize) base s = some out) : out.runs = s.runs+k := by
  induction fuel generalizing k base s with
  | zero => cases h
  | succ fuel ih =>
    cases k with
    | zero =>
      cases h
      rfl
    | succ k =>
      have hsplit : (k+1) * efiPageSize = k*efiPageSize+efiPageSize := Nat.succ_mul _ _
      obtain ⟨step,-,hrest⟩ := Option.bind_eq_some_iff.mp h
      have hlen : toUint64 (k*efiPageSize+efiPageSize + (2^64-efiPageSize)) = k*efiPageSize := by
        rw [toUint64]
        omega
      simp only [hsplit, hlen] at hrest
      rw [ih (by omega) hrest]
      exact Nat.add_right_comm s.runs 1 k

theorem coreConvertSpace_success {cpu : CpuArchProtocol} {allocated : Bool} {r : Request}
    (hmap : Tiles 0 map (max+1)) (hmax : max < 2^64) (hwrap : r.baseAddress+r.length ≤ 2^64)
    (h : coreConvertSpace cpu allocated r map = some (map', .success)) :
    0 < r.length ∧ r.baseAddress+r.length ≤ max+1 ∧ ∀ x, r.baseAddress ≤ x → x < r.baseAddress+r.length →
        ∃ d, lookup map x = some d ∧ verifyEntry r d = .success := by
  obtain ⟨map'',status,hrun,⟨herr,-⟩ | ⟨-,-,last,range,s,e,hlen,hle,hlast,hr,hver,-,-⟩⟩ :=
    coreConvertSpace_cases hmap hmax cpu allocated r hwrap
  · cases hrun.symm.trans h
    cases herr
  refine ⟨by omega, by omega, fun x hx hlt => ?_⟩
  obtain ⟨f,hf,hhold⟩ := hmap.exists_mem (x := x) (Nat.zero_le _) (by omega)
  have hd := lookup_of_mem hmap hf hhold
  exact ⟨f.value, hd, (verifyEntries_iff_addresses hr hle).mp hver x f.value hx (by omega) hd⟩

theorem coreInternalAddMemorySpace_free {q : AddMemoryRequest}
    (hmap : Tiles 0 map (max+1)) (hmax : max < 2^63) (hwrap : q.baseAddress+q.length ≤ 2^64)
    (h : coreInternalAddMemorySpace q.cpu (q.allocated 0) q.gcdMemoryType q.baseAddress q.length
      q.capabilities map = some (map', .success)) :
    Tiles 0 map' (max+1) ∧ 0 < q.length ∧ q.baseAddress+q.length ≤ max+1 ∧
      ∀ x, q.baseAddress ≤ x → x < q.baseAddress+q.length →
        ∃ d, lookup map' x = some d ∧ d.imageHandle = none := by
  rw [coreInternalAddMemorySpace] at h
  split at h
  · cases h
  obtain ⟨hpos,hle,hver⟩ := coreConvertSpace_success hmap (by omega) hwrap h
  obtain ⟨map'',status,hrun,-,hpoint⟩ := coreConvertSpace_pointwise_iff hmap (by omega) q.cpu
    (q.allocated 0) ⟨.addMemory, q.gcdMemoryType, .nonExistent, q.baseAddress, q.length,
      q.capabilities, 0⟩ hwrap
  rw [h] at hrun
  cases hrun
  obtain ⟨⟨htiles,-,hok⟩,-⟩ := hpoint.mpr fun hkeep => (nomatch hkeep.1)
  refine ⟨htiles, hpos, hle, fun x hx hlt => ?_⟩
  obtain ⟨d,hd,hv⟩ := hver x hx hlt
  have himg : d.imageHandle = none := by
    simp only [verifyEntry] at hv
    split at hv
    · cases hv
    · rename_i hnot
      exact (not_or.mp hnot).2 |> not_not.mp
  have hlookup := hok rfl x
  rw [if_pos ⟨hx, hlt⟩, hd, Option.map_some] at hlookup
  exact ⟨_, hlookup, himg⟩

theorem wholePage_iff {base length start k x : Nat} (hstart : start = (base+0xFFF) / 0x1000 * 0x1000)
    (hk : k = (base+length-start) / 0x1000) (hle : start ≤ base+length) :
    (base ≤ x / 0x1000 * 0x1000 ∧ x / 0x1000 * 0x1000 + 0x1000 ≤ base+length) ↔
      (start ≤ x ∧ x < start + k*0x1000) := by omega

end

section
variable {q : AddMemoryRequest} {map map' : List GcdMapEntry} {max : Nat}

def pageLengthOf (q : AddMemoryRequest) : Nat := pageAlignLength (toUint64 (q.baseAddress+q.length +
    (2^64 - pageAlignAddress q.baseAddress)))

theorem coreAddMemorySpace_eq {fuel : Nat}
    (htype : q.gcdMemoryType = .systemMemory ∨ q.gcdMemoryType = .moreReliable)
    (hadd : coreInternalAddMemorySpace q.cpu (q.allocated 0) q.gcdMemoryType q.baseAddress q.length
      q.capabilities map = some (map', .success)) : coreAddMemorySpace q map fuel =
      (coreAllocateMemorySpace (q.allocated 1) .address q.gcdMemoryType efiPageShift
        (pageLengthOf q) (pageAlignAddress q.baseAddress) q.gDxeCoreImageHandle none map').bind
          fun out =>
            if out.2.2.isError then
              addPagesLoop q fuel (pageLengthOf q) out.2.1 ⟨out.1, [], 0, out.2.2⟩
            else some ⟨out.1, (coreAddMemoryDescriptor efiConventionalMemory out.2.1
              (pageLengthOf q / 2^efiPageShift) q.capabilities).toList, 0, out.2.2⟩ := by
  have hok : (!EfiStatus.success.isError) = true := rfl
  rw [coreAddMemorySpace, hadd, Option.bind_some, if_pos ⟨hok, htype⟩]
  rfl

theorem not_addsPages (hbase : q.baseAddress < 2^63)
    (htype : q.gcdMemoryType = .systemMemory ∨ q.gcdMemoryType = .moreReliable) (hpos : 0 < q.length)
    (hadd : coreInternalAddMemorySpace q.cpu (q.allocated 0) q.gcdMemoryType q.baseAddress q.length
      q.capabilities map = some (map', .success))
    (hlt : q.baseAddress+q.length < pageAlignAddress q.baseAddress) : ¬ AddsPages q map := by
  have hpage : efiPageSize = 0x1000 := rfl
  have hstart := @pageAlignAddress_eq q.baseAddress (by omega)
  rintro ⟨fuel,out,hrun,hadded,hruns⟩
  have hlen : pageLengthOf q = (2^52-1) * efiPageSize := by
    rw [pageLengthOf, pageAlignLength_eq, toUint64]
    omega
  rw [coreAddMemorySpace_eq htype hadd, hlen] at hrun
  obtain ⟨⟨map'',base,status⟩,halloc,hrest⟩ := Option.bind_eq_some_iff.mp hrun
  have hbaseEq : base = pageAlignAddress q.baseAddress := (coreAllocateSpace_address rfl halloc).1
  cases hst : status.isError with
  | true =>
    simp only [hst, if_true] at hrest
    have hmany : out.runs = 0 + (2^52-1) := addPagesLoop_runs (by decide) hrest
    have hshort : q.length / efiPageSize = 0 := by
      rw [hpage]
      omega
    omega
  | false =>
    simp only [hst, Bool.false_eq_true, if_false] at hrest
    cases hrest
    have hpgs : (2^52-1) * efiPageSize / 2^efiPageShift = 2^52-1 := by decide
    have hal : base % efiPageSize = 0 := by
      rw [hpage]
      omega
    have hin := (hadded base).mp (by
      rw [hpgs]
      exact (addedTo_coreAddMemoryDescriptor hal).mpr (by omega))
    omega

theorem addsPages_of_le (hmap' : Tiles 0 map' (max+1)) (hmax : max < 2^63)
    (htype : q.gcdMemoryType = .systemMemory ∨ q.gcdMemoryType = .moreReliable)
    (hpos : 0 < q.length) (hend : q.baseAddress+q.length ≤ max+1)
    (hfree : ∀ x, q.baseAddress ≤ x → x < q.baseAddress+q.length →
      ∃ d, lookup map' x = some d ∧ d.imageHandle = none)
    (hadd : coreInternalAddMemorySpace q.cpu (q.allocated 0) q.gcdMemoryType q.baseAddress q.length
      q.capabilities map = some (map', .success))
    (hle : pageAlignAddress q.baseAddress ≤ q.baseAddress+q.length) : AddsPages q map := by
  have hpage : efiPageSize = 0x1000 := rfl
  obtain ⟨start,hstart⟩ : ∃ start, start = pageAlignAddress q.baseAddress := ⟨_, rfl⟩
  have hstartEq : start = (q.baseAddress+0xFFF) / 0x1000 * 0x1000 := by
    rw [hstart]
    exact pageAlignAddress_eq (by omega)
  rw [← hstart] at hle
  obtain ⟨k,hk⟩ : ∃ k, k = (q.baseAddress+q.length - start) / 0x1000 := ⟨_, rfl⟩
  have hkPage : k*efiPageSize = k*0x1000 := rfl
  have hal : start % efiPageSize = 0 := by
    rw [hpage]
    omega
  have hlen : pageLengthOf q = k*efiPageSize := by
    rw [pageLengthOf, pageAlignLength_eq, toUint64, ← hstart]
    omega
  have hfree' : ∀ x, start ≤ x → x < start + k*efiPageSize →
      ∃ d, lookup map' x = some d ∧ d.imageHandle = none := fun x hx hlt => hfree x (by omega) (by omega)
  obtain ⟨map'',status,halloc,hmap'',herr,hgiven⟩ :=
    @coreAllocateMemorySpace_address map' max (q.allocated 1) q.gcdMemoryType start
      (k*efiPageSize) q.gDxeCoreImageHandle hmap' hmax (by omega)
  have hwhole : ∀ x, (q.baseAddress ≤ x / efiPageSize * efiPageSize ∧
      x / efiPageSize * efiPageSize + efiPageSize ≤ q.baseAddress+q.length) ↔
        (start ≤ x ∧ x < start + k*efiPageSize) := fun x => wholePage_iff hstartEq hk hle
  have hrun := @coreAddMemorySpace_eq q map map' (k+1) htype hadd
  rw [hlen, ← hstart, halloc, Option.bind_some] at hrun
  cases hst : status.isError with
  | true =>
    simp only [hst, if_true] at hrun
    have hfree'' : ∀ x, start ≤ x → x < start + k*efiPageSize →
        ∃ d, lookup map'' x = some d ∧ d.imageHandle = none := by
      intro x hx hlt
      rw [herr hst]
      exact hfree' x hx hlt
    obtain ⟨out,hout,hruns,-,hadded⟩ := @addPagesLoop_spec max q k start
      ⟨map'', [], 0, status⟩ hmap'' hmax hal (by omega) hfree''
    rw [hout] at hrun
    refine ⟨k+1, out, hrun, fun x => ?_, ?_⟩
    · rw [hadded, or_iff_right (not_addedTo_nil x), ← and_assoc, hwhole]
    · have hcnt : out.runs = 0+k := hruns
      rw [hpage]
      omega
  | false =>
    simp only [hst, Bool.false_eq_true, if_false] at hrun
    refine ⟨k+1, _, hrun, fun x => ?_, Nat.zero_le _⟩
    have hpgs : k*efiPageSize / 2^efiPageShift = k := Nat.mul_div_cancel k (by decide)
    rw [hpgs, addedTo_coreAddMemoryDescriptor hal, ← and_assoc, hwhole]
    constructor
    · intro hx
      exact ⟨hx, (pageAllocated_iff q.gDxeCoreImageHandle hal hx hfree' herr hgiven).mpr hst⟩
    · exact fun h => h.1

/-- The pages added are the right ones exactly if the first page boundary from the base on is not
beyond the range. -/
theorem coreAddMemorySpace_adds_iff (hmap : Tiles 0 map (max+1)) (hmax : max < 2^63)
    (hwrap : q.baseAddress+q.length ≤ 2^64)
    (htype : q.gcdMemoryType = .systemMemory ∨ q.gcdMemoryType = .moreReliable)
    (hadd : coreInternalAddMemorySpace q.cpu (q.allocated 0) q.gcdMemoryType q.baseAddress q.length
      q.capabilities map = some (map', .success)) :
    AddsPages q map ↔ pageAlignAddress q.baseAddress ≤ q.baseAddress+q.length := by
  obtain ⟨hmap',hpos,hend,hfree⟩ := coreInternalAddMemorySpace_free hmap hmax hwrap hadd
  constructor
  · intro h
    by_contra hlt
    exact not_addsPages (by omega) htype hpos hadd (Nat.lt_of_not_le hlt) h
  · exact addsPages_of_le hmap' hmax htype hpos hend hfree hadd

end

def noMemory : List GcdMapEntry := [⟨0, 0x3FFF, ⟨0, 0, .nonExistent, .nonExistent, none, none⟩⟩]

def addPage : AddMemoryRequest := ⟨none, fun _ => true, some 1, .systemMemory, 0xF00, 0x1200, 0⟩

theorem addPage_adds : AddsPages addPage noMemory :=
  (@coreAddMemorySpace_adds_iff addPage noMemory _ 0x3FFF ⟨rfl, by decide, rfl⟩ (by decide)
    (by decide) (.inl rfl) rfl).mpr (by decide)

def addBytes : AddMemoryRequest := { addPage with baseAddress := 0x1100, length := 0x200 }

/-- The length of the pages wraps round, and the loop would go on through all of memory. -/
theorem addBytes_not_adds : Tiles 0 noMemory 0x4000 ∧
    (∃ map', coreInternalAddMemorySpace addBytes.cpu (addBytes.allocated 0) addBytes.gcdMemoryType
        addBytes.baseAddress addBytes.length addBytes.capabilities noMemory = some (map', .success) ∧
      coreAllocateMemorySpace true .address .systemMemory efiPageShift
        (pageAlignLength (toUint64 (0x1100+0x200 + (2^64 - pageAlignAddress 0x1100))))
        (pageAlignAddress 0x1100) (some 1) none map' = some (map', 0x2000, .notFound)) ∧
    pageAlignLength (toUint64 (0x1100+0x200 + (2^64 - pageAlignAddress 0x1100))) =
      (2^52-1) * efiPageSize ∧ ¬ AddsPages addBytes noMemory := by
  exact ⟨⟨rfl, by decide, rfl⟩, ⟨_, rfl, by decide⟩, by decide,
    not_addsPages (by decide) (.inl rfl) (by decide) rfl (by decide)⟩

end Liano.Gcd
