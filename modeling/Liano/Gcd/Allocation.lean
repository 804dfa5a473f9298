import Liano.Gcd.Pointwise

/-! `CoreAllocateSpace`: what its search finds, that the search ends, and the requests on a GCD map
together. -/
namespace Liano.Gcd

open Liano.Lib

section
variable {map : List GcdMapEntry} {r : AllocateRequest}

variable {baseAddress : Nat} {range : MapRange}
variable {maxAddress fuel base : Nat} {entries : List GcdMapEntry}

theorem coreSearch_of_allocateSearch {link : Option Nat}
    (h : allocateSearch r maxAddress map fuel link baseAddress = some (base, some range)) :
    coreSearchGcdMapEntry base r.length map = some range ∧ checkedBefore r range.range = range.range := by
  induction fuel generalizing link baseAddress with
  | zero => cases h
  | succ fuel ih =>
    cases link with
    | none => cases h
    | some link =>
      rw [allocateSearch] at h
      cases hent : map[link]? with
      | none =>
        rw [hent] at h
        cases h
      | some entry =>
        simp only [hent] at h
        by_cases hchk : (coreAllocateSpaceCheckEntry r entry.value).isError = true
        · rw [if_pos hchk] at h
          exact ih h
        rw [if_neg hchk] at h
        cases hcand : candidate r maxAddress baseAddress entry with
        | next =>
          rw [hcand] at h
          exact ih h
        | stop base =>
          rw [hcand] at h
          cases h
        | tryBase base' =>
          simp only [hcand] at h
          cases hsrch : coreSearchGcdMapEntry base' r.length map with
          | none =>
            rw [hsrch] at h
            cases h
          | some range' =>
            simp only [hsrch] at h
            by_cases hall : checkedBefore r range'.range = range'.range
            · rw [if_pos hall, Option.some.injEq, Prod.mk.injEq, Option.some.injEq] at h
              rw [← h.1, ← h.2]
              exact ⟨hsrch, hall⟩
            · rw [if_neg hall] at h
              exact ih h

theorem coreSearch_of_findSpace (h : findSpace r map fuel = some (base, .ok range)) :
    coreSearchGcdMapEntry base r.length map = some range ∧ checkedBefore r range.range = range.range := by
  rw [findSpace] at h
  by_cases htype : r.gcdAllocateType = .address
  · rw [if_pos htype] at h
    by_cases hal : r.baseAddress % 2^r.alignment ≠ 0
    · rw [if_pos hal] at h
      cases h
    rw [if_neg hal] at h
    cases hsrch : coreSearchGcdMapEntry r.baseAddress r.length map with
    | none =>
      rw [hsrch] at h
      cases h
    | some range' =>
      simp only [hsrch] at h
      by_cases hall : checkedBefore r range'.range = range'.range
      · rw [if_pos hall, Option.some.injEq, Prod.mk.injEq, Except.ok.injEq] at h
        rw [← h.1, ← h.2]
        exact ⟨hsrch, hall⟩
      · rw [if_neg hall] at h
        cases h
  · rw [if_neg htype, Option.map_eq_some_iff] at h
    obtain ⟨⟨base',found⟩,hrun,heq⟩ := h
    cases found with
    | none => cases heq
    | some range' =>
      cases heq
      exact coreSearch_of_allocateSearch hrun

def allocateTo (r : AllocateRequest) (d : GcdDescriptor) : GcdDescriptor :=
  { d with imageHandle := r.imageHandle, deviceHandle := r.deviceHandle }

variable {max : Nat}

/-- Either the request is refused and nothing changes, or it is given space that the check has accepted. -/
theorem coreAllocateSpace_cases {allocated : Bool} {map' : List GcdMapEntry} {status : EfiStatus}
    (h : coreAllocateSpace allocated r map fuel = some (map',base,status)) :
    status.isError = true ∧ map' = map ∨ status = .success ∧ r.imageHandle ≠ none ∧ 0 < r.length ∧ ∃ range,
      coreSearchGcdMapEntry base r.length map = some range ∧ checkedBefore r range.range = range.range ∧
        convertRange base r.length (fun (_ : Unit) entry => ((), allocateTo r entry)) () range = some map' := by
  rw [coreAllocateSpace] at h
  by_cases himg : r.imageHandle = none
  · rw [if_pos himg] at h
    cases h
    exact .inl ⟨rfl, rfl⟩
  rw [if_neg himg] at h
  by_cases hal : r.alignment ≥ 64
  · rw [if_pos hal] at h
    cases h
    exact .inl ⟨rfl, rfl⟩
  rw [if_neg hal] at h
  by_cases hlength : r.length = 0
  · rw [if_pos hlength] at h
    cases h
    exact .inl ⟨rfl, rfl⟩
  rw [if_neg hlength, Option.bind_eq_some_iff] at h
  obtain ⟨⟨base',found⟩,hfind,hrest⟩ := h
  cases found with
  | error status' =>
    have hst : status'.isError = true := by
      rw [findSpace] at hfind
      by_cases htype : r.gcdAllocateType = .address
      · rw [if_pos htype] at hfind
        split at hfind
        · cases hfind
          rfl
        split at hfind
        · cases hfind
          rfl
        split at hfind
        · cases hfind
        · cases hfind
          rfl
      · rw [if_neg htype, Option.map_eq_some_iff] at hfind
        obtain ⟨⟨base',found⟩,-,heq⟩ := hfind
        cases found with
        | none =>
          cases heq
          rfl
        | some range => cases heq
    cases hrest
    exact .inl ⟨hst, rfl⟩
  | ok range =>
    cases allocated with
    | false =>
      cases hrest
      exact .inl ⟨rfl, rfl⟩
    | true =>
      simp only [Bool.not_true, Bool.false_eq_true, if_false, Option.map_eq_some_iff] at hrest
      obtain ⟨map'',hconv,heq⟩ := hrest
      cases heq
      obtain ⟨hsrch,hall⟩ := coreSearch_of_findSpace hfind
      exact .inr ⟨rfl, himg, Nat.pos_of_ne_zero hlength, range, hsrch, hall, hconv⟩

theorem coreAllocateSpace_pointwise {allocated : Bool}
    {map' : List GcdMapEntry} {status : EfiStatus} (hmap : Tiles 0 map (max+1)) (hmax : max < 2^64)
    (h : coreAllocateSpace allocated r map fuel = some (map',base,status))
    (hwrap : status.isError = false → base+r.length ≤ 2^64) :
    Pointwise map map' max base r.length (allocateTo r) status := by
  obtain ⟨herr,rfl⟩ | ⟨rfl,-,hpos,range,hsrch,-,hconv⟩ := coreAllocateSpace_cases h
  · exact pointwise_error hmap herr _ _ _
  obtain ⟨last,s,e,hlen,hlast,hr⟩ := range_of_search hmap hpos (hwrap rfl) hsrch
  obtain ⟨map'',hconv',htiles,hlookup⟩ := @convertRange_spec Unit
    (fun (_ : Unit) entry => ((), allocateTo r entry)) () map max base r.length last s e range
    hr hmax (by omega) hlen
  obtain rfl : map'' = map' := Option.some.inj (hconv'.symm.trans hconv)
  refine (pointwise_iff hr hlen htiles hlookup).mpr fun x _ => ?_
  exact @lookup_thread _ Unit (fun (_ : Unit) entry => ((), allocateTo r entry)) (allocateTo r)
    () (fun _ => rfl) range.range x

theorem getElem?_order {a b i k : Nat} {e f : GcdMapEntry} (h : Tiles a map b) (hik : i < k)
    (he : map[i]? = some e) (hf : map[k]? = some f) : e.endAddress < f.baseAddress := by
  induction map generalizing a i k with
  | nil => cases he
  | cons g map ih =>
    cases k with
    | zero => exact absurd hik (Nat.not_lt_zero i)
    | succ k =>
      cases i with
      | zero =>
        rw [List.getElem?_cons_zero, Option.some.injEq] at he
        subst he
        exact h.2.2.le_of_mem (List.mem_of_getElem? hf)
      | succ i => exact ih h.2.2 (by omega) he hf

theorem exists_unchecked (h : checkedBefore r entries ≠ entries) :
    ∃ e, entries[(checkedBefore r entries).length]? = some e ∧
      (coreAllocateSpaceCheckEntry r e.value).isError = true := by
  rw [checkedBefore] at *
  induction entries with
  | nil => exact absurd rfl h
  | cons e entries ih =>
    cases hchk : (coreAllocateSpaceCheckEntry r e.value).isError with
    | true =>
      rw [List.takeWhile_cons_of_neg (by simp [hchk])]
      exact ⟨e, rfl, hchk⟩
    | false =>
      rw [List.takeWhile_cons_of_pos (by simp [hchk])] at h ⊢
      exact ih fun heq => h (by rw [heq])

theorem le_alignUp (n alignment : Nat) : n ≤ alignDown alignment (n + (2^alignment-1)) := by
  have hdiv := Nat.div_add_mod (n + (2^alignment-1)) (2^alignment)
  rw [mul_comm] at hdiv
  rw [alignDown]
  omega

theorem alignUp_le {n alignment : Nat} (hn : n ≤ 2^63) (hal : alignment < 64) :
    alignDown alignment (n + (2^alignment-1)) ≤ 2^63 := by
  have hpos : 0 < 2^alignment := Nat.two_pow_pos _
  obtain ⟨k,hk⟩ : ∃ k, 2^63 = k * 2^alignment := ⟨2 ^ (63-alignment), by rw [← Nat.pow_add]; congr 1; omega⟩
  rw [alignDown, hk]
  refine Nat.mul_le_mul_right _ (Nat.lt_succ_iff.mp ?_)
  rw [Nat.div_lt_iff_lt_mul hpos, Nat.succ_mul]
  omega

theorem alignDown_le (alignment n : Nat) : alignDown alignment n ≤ n := Nat.div_mul_le_self n _

/-- The space tried next to an entry does not wrap, and lies on the side that the search goes to. -/
theorem candidate_side {entry : GcdMapEntry}
    (hmax : max < 2^63) (hal : r.alignment < 64) (hlen : r.length ≤ max+1)
    (hend : entry.endAddress ≤ max) (hle : entry.baseAddress ≤ entry.endAddress)
    (h : candidate r maxAddress baseAddress entry = .tryBase base) : base+r.length ≤ 2^64 ∧
      if topDown r then base+r.length ≤ entry.endAddress+1 else entry.baseAddress ≤ base := by
  rw [candidate] at h
  cases htop : topDown r with
  | true =>
    simp only [htop, if_true] at h ⊢
    by_cases hnext : toUint64 (entry.baseAddress+r.length) > maxAddress
    · rw [if_pos hnext] at h
      cases h
    rw [if_neg hnext] at h
    by_cases hstop : r.length > toUint64 (entry.endAddress+1)
    · rw [if_pos hstop] at h
      cases h
    rw [if_neg hstop, Candidate.tryBase.injEq] at h
    rw [toUint64_of_lt (by omega)] at hnext hstop
    have hdown := alignDown_le r.alignment (toUint64 ((if entry.endAddress > maxAddress
      then maxAddress else entry.endAddress) + 1 + (2^64-r.length)))
    rw [h] at hdown
    have hbase : base+r.length ≤ entry.endAddress+1 := by
      rw [toUint64] at hdown
      split at hdown <;> omega
    omega
  | false =>
    simp only [htop, Bool.false_eq_true, if_false] at h ⊢
    have hpow : 2^r.alignment ≤ 2^63 := Nat.pow_le_pow_right (by decide) (by omega)
    have hsum : toUint64 (entry.baseAddress + (2^r.alignment-1)) =
        entry.baseAddress + (2^r.alignment-1) := toUint64_of_lt (by omega)
    rw [hsum] at h
    have hup := le_alignUp entry.baseAddress r.alignment
    have hupLe := @alignUp_le entry.baseAddress r.alignment (by omega) hal
    split at h
    · cases h
    · rw [Candidate.tryBase.injEq] at h
      rw [h] at hup hupLe
      exact ⟨by omega, hup⟩

def linksLeft (r : AllocateRequest) (size : Nat) : Option Nat → Nat
  | none => 0
  | some link => if topDown r then link+1 else size-link

theorem linksLeft_followingLink {size link : Nat} (hlink : link < size) :
    linksLeft r size (followingLink r size link) < linksLeft r size (some link) := by
  rw [followingLink, linksLeft]
  cases htop : topDown r with
  | true =>
    simp only [if_true]
    by_cases h0 : link = 0
    · rw [if_pos h0, linksLeft]
      omega
    · rw [if_neg h0]
      simp only [linksLeft, htop, if_true]
      omega
  | false =>
    simp only [Bool.false_eq_true, if_false]
    by_cases hnext : link+1 < size
    · rw [if_pos hnext]
      simp only [linksLeft, htop, Bool.false_eq_true, if_false]
      omega
    · rw [if_neg hnext, linksLeft]
      omega

theorem linksLeft_unchecked {link : Nat} {entry : GcdMapEntry}
    (hmap : Tiles 0 map (max+1)) (hmax : max < 2^63)
    (hal : r.alignment < 64) (hpos : 0 < r.length) (hlength : r.length ≤ max+1)
    (hent : map[link]? = some entry)
    (hchk : ¬ (coreAllocateSpaceCheckEntry r entry.value).isError = true)
    (hcand : candidate r maxAddress baseAddress entry = .tryBase base)
    (hsrch : coreSearchGcdMapEntry base r.length map = some range)
    (hne : checkedBefore r range.range ≠ range.range) :
    linksLeft r map.length (some (range.before.length + (checkedBefore r range.range).length)) <
      linksLeft r map.length (some link) := by
  obtain ⟨hlink,-⟩ := List.getElem?_eq_some_iff.mp hent
  have hmem := List.mem_of_getElem? hent
  obtain ⟨hle,hend⟩ := hmap.end_of_mem hmem
  obtain ⟨hwrap,hside⟩ := candidate_side hmax hal hlength (Nat.le_of_lt_succ hend) hle hcand
  obtain ⟨last,s,e,hlen,hlast,hr⟩ := range_of_search hmap (by omega) (by omega) hsrch
  obtain ⟨f,hf,hfcheck⟩ := exists_unchecked hne
  have hfmem := List.mem_of_getElem? hf
  have hfmap := hr.getElem?_range hf
  have hmeets := hr.meets f hfmem
  have hneq : range.before.length + (checkedBefore r range.range).length ≠ link := by
    intro heq
    rw [heq, hent, Option.some.injEq] at hfmap
    rw [← hfmap] at hfcheck
    exact hchk hfcheck
  cases htop : topDown r with
  | true =>
    simp only [htop, if_true, linksLeft] at hside ⊢
    have hle : ¬ link < range.before.length + (checkedBefore r range.range).length := by
      intro hlt
      have := getElem?_order hmap hlt hent hfmap
      omega
    omega
  | false =>
    simp only [htop, Bool.false_eq_true, if_false, linksLeft] at hside ⊢
    have hle : ¬ range.before.length + (checkedBefore r range.range).length < link := by
      intro hlt
      have := getElem?_order hmap hlt hfmap hent
      omega
    omega

theorem allocateSearch_isSome {link : Option Nat}
    (hmap : Tiles 0 map (max+1)) (hmax : max < 2^63) (hal : r.alignment < 64)
    (hpos : 0 < r.length) (hlen : r.length ≤ max+1) (hfuel : linksLeft r map.length link < fuel) :
    (allocateSearch r maxAddress map fuel link baseAddress).isSome = true := by
  induction fuel generalizing link baseAddress with
  | zero => exact absurd hfuel (Nat.not_lt_zero _)
  | succ fuel ih =>
    cases link with
    | none => rfl
    | some link =>
      rw [allocateSearch]
      cases hent : map[link]? with
      | none => rfl
      | some entry =>
        have hfoll : linksLeft r map.length (followingLink r map.length link) < fuel := by
          have := @linksLeft_followingLink r map.length link
            (List.getElem?_eq_some_iff.mp hent).1
          omega
        simp only
        by_cases hchk : (coreAllocateSpaceCheckEntry r entry.value).isError = true
        · rw [if_pos hchk]
          exact ih hfoll
        rw [if_neg hchk]
        cases hcand : candidate r maxAddress baseAddress entry with
        | next => exact ih hfoll
        | stop base => rfl
        | tryBase base =>
          simp only
          cases hsrch : coreSearchGcdMapEntry base r.length map with
          | none => rfl
          | some range =>
            simp only
            by_cases hall : checkedBefore r range.range = range.range
            · rw [if_pos hall]
              rfl
            rw [if_neg hall]
            have hleft := linksLeft_unchecked hmap hmax hal hpos hlen hent hchk
              hcand hsrch hall
            exact ih (by omega)

theorem searchLoop_holds {last : Nat} {before : List GcdMapEntry}
    (h : searchLoop baseAddress last before none entries = some range) :
    ∃ e ∈ entries, e.Holds baseAddress := by
  induction entries generalizing before with
  | nil => cases h
  | cons entry entries ih =>
    by_cases hin : entry.Holds baseAddress
    · exact ⟨entry, List.mem_cons_self, hin⟩
    rw [searchLoop] at h
    simp only [hin, decide_false, Bool.false_eq_true, if_false, Option.isSome_none, Option.map_none] at h
    obtain ⟨e,he,hhold⟩ := ih h
    exact ⟨e, List.mem_cons_of_mem _ he, hhold⟩

theorem coreSearch_base_le {length : Nat} (hmap : Tiles 0 map (max+1))
    (h : coreSearchGcdMapEntry base length map = some range) : base ≤ max := by
  obtain ⟨e,he,hhold⟩ := searchLoop_holds h
  by_contra hlt
  have hsome := lookup_of_mem hmap he hhold
  rw [lookup_eq_none_of_le hmap (by omega)] at hsome
  cases hsome

theorem findSpace_isSome (hmap : Tiles 0 map (max+1)) (hmax : max < 2^63)
    (hal : r.alignment < 64) (hpos : 0 < r.length) (hlength : r.length ≤ max+1) :
    (findSpace r map (map.length+1)).isSome = true := by
  rw [findSpace]
  by_cases htype : r.gcdAllocateType = .address
  · rw [if_pos htype]
    split
    · rfl
    · split
      · rfl
      · split <;> rfl
  rw [if_neg htype, Option.isSome_map]
  refine allocateSearch_isSome hmap hmax hal hpos hlength ?_
  by_cases hnil : map = []
  · rw [if_pos hnil, linksLeft]
    exact Nat.succ_pos _
  · have hlen := List.length_pos_iff.mpr hnil
    rw [if_neg hnil, linksLeft]
    split <;> omega

theorem coreAllocateSpace_isSome (allocated : Bool) (hmap : Tiles 0 map (max+1))
    (hmax : max < 2^63) (hlength : r.length ≤ max+1) :
    (coreAllocateSpace allocated r map (map.length+1)).isSome = true := by
  rw [coreAllocateSpace]
  by_cases himg : r.imageHandle = none
  · rw [if_pos himg]
    rfl
  by_cases hal : r.alignment ≥ 64
  · rw [if_neg himg, if_pos hal]
    rfl
  by_cases hzero : r.length = 0
  · rw [if_neg himg, if_neg hal, if_pos hzero]
    rfl
  rw [if_neg himg, if_neg hal, if_neg hzero]
  obtain ⟨⟨base,found⟩,hfind⟩ := Option.isSome_iff_exists.mp
    (findSpace_isSome hmap hmax (Nat.lt_of_not_le hal) (Nat.pos_of_ne_zero hzero) hlength)
  rw [hfind, Option.bind_some]
  cases found with
  | error status => rfl
  | ok range =>
    cases allocated with
    | false => rfl
    | true =>
      have hsrch := (coreSearch_of_findSpace hfind).1
      have hbase := coreSearch_base_le hmap hsrch
      obtain ⟨last,s,e,hlen,hlast,hr⟩ := range_of_search hmap (by omega) (by omega) hsrch
      obtain ⟨map',hconv,-,-⟩ := @convertRange_spec Unit
        (fun (_ : Unit) entry => ((), allocateTo r entry)) () map max base r.length last s e range
        hr (by omega) (by omega) hlen
      show Option.isSome ((convertRange base r.length
        (fun (_ : Unit) entry => ((), allocateTo r entry)) () range).map _) = true
      rw [hconv]
      rfl

end

/-- On a map that tiles the address space: a request to `CoreConvertSpace` that does not wrap is
pointwise, with attributes within capabilities, exactly if it does not set attributes behind smaller
CPU attributes; one to `CoreAllocateSpace` always is, and it returns. -/
theorem gcdMap_pointwise_iff {map : List GcdMapEntry} {max : Nat} (hmap : Tiles 0 map (max+1))
    (hmax : max < 2^64) : (∀ cpu allocated r, r.baseAddress+r.length ≤ 2^64 →
      ∃ map' status, coreConvertSpace cpu allocated r map = some (map',status) ∧
        Tiles 0 map' (max+1) ∧ (Pointwise map map' max r.baseAddress r.length (operationOn r) status ∧
            KeepsWithin r map map' status ↔
          (KeepsCpuAttributes allocated r map max → CpuAttributesGrow r map))) ∧
    (∀ allocated r fuel map' base status, coreAllocateSpace allocated r map fuel = some (map',base,status) →
      (status.isError = false → base+r.length ≤ 2^64) →
      Pointwise map map' max base r.length (allocateTo r) status) ∧
    (max < 2^63 → ∀ allocated r, r.length ≤ max+1 →
      (coreAllocateSpace allocated r map (map.length+1)).isSome = true) :=
  ⟨fun cpu allocated r => coreConvertSpace_pointwise_iff hmap hmax cpu allocated r,
    fun _ _ _ _ _ _ => coreAllocateSpace_pointwise hmap hmax,
    fun hmax' allocated _ => coreAllocateSpace_isSome allocated hmap hmax'⟩

def twoCaches : List GcdMapEntry :=
  [⟨0, 0xFFF, ⟨efiMemoryUc ||| efiMemoryRuntime, efiMemoryUc, .systemMemory, .nonExistent, none, none⟩⟩,
    ⟨0x1000, 0x1FFF, ⟨efiMemoryWb ||| efiMemoryRuntime, efiMemoryWb, .systemMemory, .nonExistent,
      none, none⟩⟩]

def setRuntime : Request := ⟨.setAttributesMemory, .nonExistent, .nonExistent, 0, 0x2000, 0, efiMemoryRuntime⟩

def allocatePage : AllocateRequest :=
  ⟨true, .anySearchBottomUp, .systemMemory, .nonExistent, 12, 0x1000, 0, some 1, none⟩

theorem gcdMap_pointwise_iff_twoCaches :
    (∃ map' status, coreConvertSpace none true { setRuntime with length := 0x1000 } twoCaches =
        some (map',status) ∧ Tiles 0 map' 0x2000 ∧ (Pointwise twoCaches map' 0x1FFF 0 0x1000
          (operationOn { setRuntime with length := 0x1000 }) status ∧
        KeepsWithin { setRuntime with length := 0x1000 } twoCaches map' status ↔
        (KeepsCpuAttributes true { setRuntime with length := 0x1000 } twoCaches 0x1FFF →
          CpuAttributesGrow { setRuntime with length := 0x1000 } twoCaches))) ∧
    (∀ map', coreAllocateSpace true allocatePage twoCaches 3 = some (map', 0, .success) →
      Pointwise twoCaches map' 0x1FFF 0 0x1000 (allocateTo allocatePage) .success) ∧
    (coreAllocateSpace true allocatePage twoCaches 3).isSome = true :=
  have h := @gcdMap_pointwise_iff twoCaches 0x1FFF
    ⟨rfl, by decide, rfl, by decide, rfl⟩ (by decide)
  ⟨h.1 none true { setRuntime with length := 0x1000 } (by decide),
    fun map' hrun => h.2.1 true allocatePage 3 map' 0 .success hrun (fun _ => by decide),
    h.2.2 (by decide) true allocatePage (by decide)⟩

/-- The write-back memory becomes uncached too, which is not in its capabilities. -/
theorem not_pointwise_setRuntime :
    Tiles 0 twoCaches 0x2000 ∧ setRuntime.baseAddress+setRuntime.length ≤ 2^64 ∧
    ∃ map', coreConvertSpace none true setRuntime twoCaches = some (map', .success) ∧
      (lookup map' 0x1000).map GcdDescriptor.attributes =
        some (efiMemoryRuntime ||| efiMemoryUc ||| efiMemoryWb) ∧
      ¬ Pointwise twoCaches map' 0x1FFF setRuntime.baseAddress setRuntime.length
        (operationOn setRuntime) .success ∧ ¬ KeepsWithin setRuntime twoCaches map' .success := by
  refine ⟨⟨rfl, by decide, rfl, by decide, rfl⟩, by decide, _, rfl, by decide, fun h => ?_, fun h => ?_⟩
  · exact absurd (h.success rfl 0x1000) (by decide)
  · exact absurd (h rfl (.inl rfl) 0x1000 _ _ rfl rfl (by decide)) (by decide)

end Liano.Gcd
