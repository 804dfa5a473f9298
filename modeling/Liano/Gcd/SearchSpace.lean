import Liano.Gcd.Allocation
import Mathlib.Data.List.TakeWhile
import Mathlib.Order.Bounds.Basic

/-! `CoreAllocateSpace`: the spaces that a request asks for, and what its search finds of them. -/
namespace Liano.Gcd

open List hiding lookup max range

open Liano.Lib

def Suits (r : AllocateRequest) (d : GcdDescriptor) : Prop :=
  d.imageHandle = none ∧ (r.memory = true → d.gcdMemoryType = r.gcdMemoryType) ∧
    (r.memory = false → d.gcdIoType = r.gcdIoType)

instance (r : AllocateRequest) (d : GcdDescriptor) : Decidable (Suits r d) :=
  inferInstanceAs (Decidable (_ ∧ _ ∧ _))

theorem coreAllocateSpaceCheckEntry_iff {r : AllocateRequest} {d : GcdDescriptor} :
    (coreAllocateSpaceCheckEntry r d).isError = true ↔ ¬ Suits r d := by
  have herr : EfiStatus.notFound.isError = true := rfl
  have hok : EfiStatus.success.isError = false := rfl
  rw [coreAllocateSpaceCheckEntry, Suits]
  by_cases himg : d.imageHandle = none
  · rw [if_neg (not_not_intro himg)]
    cases hmem : r.memory with
    | true =>
      by_cases htype : d.gcdMemoryType = r.gcdMemoryType <;>
        simp [himg, htype, herr, hok]
    | false => by_cases htype : d.gcdIoType = r.gcdIoType <;> simp [himg, htype, herr, hok]
  · rw [if_pos himg]
    simp [himg, herr]

/-- A base that the request may be given: aligned, with a space that ends at `maxAddress` at the
latest, each address of it in a suitable entry of the map. -/
structure Fits (r : AllocateRequest) (map : List GcdMapEntry) (maxAddress base : Nat) : Prop where
  aligned : 2^r.alignment ∣ base
  le_max : base+r.length-1 ≤ maxAddress
  suits : ∀ x, base ≤ x → x < base+r.length → ∃ d, lookup map x = some d ∧ Suits r d

/-- The address that bounds the search, in a map that ends at `max`. -/
def searchMax (r : AllocateRequest) (max : Nat) : Nat := if r.gcdAllocateType = .maxAddressSearchBottomUp ∨
    r.gcdAllocateType = .maxAddressSearchTopDown then r.baseAddress else max

def Reaches (r : AllocateRequest) (map : List GcdMapEntry) (maxAddress base : Nat) : Prop :=
  Fits r map maxAddress base ∧ (topDown r = true →
    ∃ e ∈ map, e.Holds (base+r.length-1) ∧ e.baseAddress+r.length ≤ maxAddress)

def nearEnd (r : AllocateRequest) (base : Nat) : Nat := if topDown r then base+r.length-1 else base

def AheadOf (r : AllocateRequest) (map : List GcdMapEntry) (link : Option Nat) (x : Nat) : Prop :=
  ∃ l k e, link = some l ∧ map[k]? = some e ∧ e.Holds x ∧ if topDown r then k ≤ l else l ≤ k

section
variable {map : List GcdMapEntry} {r : AllocateRequest} {max maxAddress : Nat}

theorem exists_index {x : Nat} {d : GcdDescriptor} (h : lookup map x = some d) :
    ∃ (k : Nat) (e : GcdMapEntry), map[k]? = some e ∧ e.Holds x ∧ e.value = d := by
  obtain ⟨e,he,hhold,hval⟩ := mem_of_lookup h
  obtain ⟨k,hk⟩ := mem_iff_getElem?.mp he
  exact ⟨k, e, hk, hhold, hval⟩

theorem lt_of_lookup {x : Nat} {d : GcdDescriptor} (hmap : Tiles 0 map (max+1))
    (h : lookup map x = some d) : x ≤ max := by
  by_contra hlt
  rw [lookup_eq_none_of_le hmap (by omega)] at h
  cases h

theorem Fits.le_map {base : Nat} (hmap : Tiles 0 map (max+1)) (hpos : 0 < r.length)
    (h : Fits r map maxAddress base) : base+r.length ≤ max+1 := by
  obtain ⟨d,hd,-⟩ := h.suits (base+r.length - 1) (by omega) (by omega)
  have := lt_of_lookup hmap hd
  omega

theorem Fits.suits_of_mem {base x : Nat} {e : GcdMapEntry} (hmap : Tiles 0 map (max+1))
    (h : Fits r map maxAddress base) (hbase : base ≤ x) (hx : x < base+r.length) (he : e ∈ map)
    (hhold : e.Holds x) : Suits r e.value := by
  obtain ⟨d,hd,hsuits⟩ := h.suits x hbase hx
  rw [lookup_of_mem hmap he hhold, Option.some.injEq] at hd
  rwa [hd]

theorem nearEnd_mem (hpos : 0 < r.length) (base : Nat) :
    base ≤ nearEnd r base ∧ nearEnd r base < base+r.length := by
  rw [nearEnd]
  split <;> omega

theorem index_unique {x i k : Nat} {e f : GcdMapEntry} (hmap : Tiles 0 map (max+1))
    (he : map[i]? = some e) (hf : map[k]? = some f) (hex : e.Holds x) (hfx : f.Holds x) : i = k := by
  rcases lt_trichotomy i k with hlt | heq | hgt
  · have := getElem?_order hmap hlt he hf
    have := hex.2
    have := hfx.1
    omega
  · exact heq
  have := getElem?_order hmap hgt hf he
  have := hex.1
  have := hfx.2
  omega

theorem AheadOf.following {link x : Nat} {entry : GcdMapEntry} (hent : map[link]? = some entry)
    (hnot : ¬ entry.Holds x) (h : AheadOf r map (some link) x) :
    AheadOf r map (followingLink r map.length link) x := by
  obtain ⟨l,k,e,hl,hk,hhold,hside⟩ := h
  cases hl
  have hne : k ≠ link := by
    intro heq
    rw [heq, hent, Option.some.injEq] at hk
    rw [hk] at hnot
    exact hnot hhold
  have hlt := (List.getElem?_eq_some_iff.mp hk).1
  rw [followingLink]
  cases htop : topDown r with
  | true =>
    rw [htop, if_pos rfl] at hside
    rw [if_pos rfl, if_neg (by omega)]
    refine ⟨link-1, k, e, rfl, hk, hhold, ?_⟩
    rw [htop, if_pos rfl]
    omega
  | false =>
    rw [htop, if_ff] at hside
    rw [if_ff, if_pos (by omega)]
    refine ⟨link+1, k, e, rfl, hk, hhold, ?_⟩
    rw [htop, if_ff]
    omega

theorem AheadOf.side {link x : Nat} {entry : GcdMapEntry} (hmap : Tiles 0 map (max+1))
    (hent : map[link]? = some entry) (h : AheadOf r map (some link) x) :
    if topDown r then x ≤ entry.endAddress else entry.baseAddress ≤ x := by
  obtain ⟨l,k,e,hl,hk,hhold,hside⟩ := h
  cases hl
  rcases lt_trichotomy k link with hlt | heq | hgt
  · have hord := getElem?_order hmap hlt hk hent
    have hle := hhold.2
    have hin := (hmap.end_of_mem (mem_of_getElem? hent)).1
    split at hside
    · rw [if_pos ‹_›]
      omega
    · omega
  · rw [heq, hent, Option.some.injEq] at hk
    subst hk
    split
    · exact hhold.2
    · exact hhold.1
  · have hord := getElem?_order hmap hgt hent hk
    have hle := hhold.1
    have hin := (hmap.end_of_mem (mem_of_getElem? hent)).1
    split at hside
    · omega
    · rw [if_neg ‹_›]
      omega

theorem dvd_alignDown (alignment n : Nat) : 2^alignment ∣ alignDown alignment n := Nat.dvd_mul_left _ _

theorem le_alignDown {alignment base n : Nat} (hbase : 2^alignment ∣ base) (hle : base ≤ n) :
    base ≤ alignDown alignment n := by
  obtain ⟨k,rfl⟩ := hbase
  rw [alignDown, mul_comm]
  refine Nat.mul_le_mul_right _ ((Nat.le_div_iff_mul_le (Nat.two_pow_pos _)).mpr ?_)
  rwa [mul_comm]

theorem alignUp_le_of_dvd {alignment base n : Nat} (hbase : 2^alignment ∣ base) (hle : n ≤ base) :
    alignDown alignment (n + (2^alignment-1)) ≤ base := by
  obtain ⟨k,rfl⟩ := hbase
  have hpos : 0 < 2^alignment := Nat.two_pow_pos _
  rw [alignDown, mul_comm (2^alignment)] at *
  refine Nat.mul_le_mul_right _ (Nat.lt_succ_iff.mp ?_)
  rw [Nat.div_lt_iff_lt_mul hpos, Nat.succ_mul]
  omega

def lowestBase (r : AllocateRequest) (entry : GcdMapEntry) : Nat :=
  alignDown r.alignment (entry.baseAddress + (2^r.alignment-1))

def spaceEnd (r : AllocateRequest) (base : Nat) : Nat := toUint64 (base+r.length-1)

variable {link baseAddress base : Nat} {entry : GcdMapEntry}

theorem candidate_bottomUp (hmax : max < 2^63) (hal : r.alignment < 64)
    (hent : entry.endAddress ≤ max) (hle : entry.baseAddress ≤ entry.endAddress)
    (htop : topDown r = false) : candidate r maxAddress baseAddress entry =
      if spaceEnd r (lowestBase r entry) > maxAddress then .stop (lowestBase r entry)
      else .tryBase (lowestBase r entry) := by
  have hpow : 2^r.alignment ≤ 2^63 := Nat.pow_le_pow_right (by decide) (by omega)
  have hsum : toUint64 (entry.baseAddress + (2^r.alignment-1)) =
      entry.baseAddress + (2^r.alignment-1) := toUint64_of_lt (by omega)
  rw [candidate, htop, if_ff, hsum]
  rfl

/-- A search from the top down stops where the space is longer than all that is below, and tries the
highest aligned base at the end of an entry that starts low enough. -/
theorem candidate_topDown (hmax : max < 2^63) (hent : entry.endAddress ≤ max)
    (hle : entry.baseAddress ≤ entry.endAddress) (htop : topDown r = true) :
    match candidate r maxAddress baseAddress entry with
    | .next => maxAddress < entry.baseAddress+r.length
    | .stop _ => entry.endAddress+1 < r.length
    | .tryBase base => entry.baseAddress+r.length ≤ maxAddress ∧
        ∃ top, top ≤ entry.endAddress ∧ top ≤ maxAddress ∧ r.length ≤ top+1 ∧
          (∀ x, x ≤ entry.endAddress → x ≤ maxAddress → x ≤ top) ∧
          base = alignDown r.alignment (top+1-r.length) := by
  rw [candidate, if_pos htop]
  by_cases hnext : toUint64 (entry.baseAddress+r.length) > maxAddress
  · rw [if_pos hnext]
    exact lt_of_lt_of_le hnext (Nat.mod_le _ _)
  rw [if_neg hnext, toUint64_of_lt (by omega : entry.endAddress+1 < 2^64)]
  by_cases hstop : r.length > entry.endAddress+1
  · rw [if_pos hstop]
    exact hstop
  rw [if_neg hstop]
  rw [toUint64_of_lt (by omega)] at hnext
  obtain ⟨top,htopEq⟩ : ∃ top, top =
      if entry.endAddress > maxAddress then maxAddress else entry.endAddress := ⟨_, rfl⟩
  have hend : top ≤ entry.endAddress ∧ top ≤ maxAddress ∧ r.length ≤ top+1 ∧
      ∀ x, x ≤ entry.endAddress → x ≤ maxAddress → x ≤ top := by
    split at htopEq <;> refine ⟨?_, ?_, ?_, fun x _ _ => ?_⟩ <;> omega
  refine ⟨by omega, top, hend.1, hend.2.1, hend.2.2.1, hend.2.2.2, ?_⟩
  congr 1
  rw [toUint64]
  omega

structure Tried (r : AllocateRequest) (map : List GcdMapEntry) (maxAddress link : Nat)
    (entry : GcdMapEntry) (base : Nat) : Prop where
  aligned : 2^r.alignment ∣ base
  le_max : base+r.length-1 ≤ maxAddress
  le_end : base+r.length ≤ 2^64
  reaches : topDown r = true → base+r.length ≤ entry.endAddress+1 ∧ entry.baseAddress+r.length ≤ maxAddress
  outermost : ∀ b, Fits r map maxAddress b → AheadOf r map (some link) (nearEnd r b) →
    if topDown r then b ≤ base else base ≤ b

theorem tried_of_candidate (hmap : Tiles 0 map (max+1)) (hmax : max < 2^63)
    (hal : r.alignment < 64) (hpos : 0 < r.length)
    (hlength : topDown r = false → r.length ≤ max+1) (hent : map[link]? = some entry)
    (hcand : candidate r maxAddress baseAddress entry = .tryBase base) :
    Tried r map maxAddress link entry base := by
  obtain ⟨hle,hend⟩ := hmap.end_of_mem (mem_of_getElem? hent)
  cases htop : topDown r with
  | true =>
    have hspec := @candidate_topDown r max maxAddress baseAddress entry hmax (by omega) hle htop
    rw [hcand] at hspec
    obtain ⟨hstart,top,htopEnd,htopMax,htopLen,hgreatest,rfl⟩ := hspec
    have hdown := alignDown_le r.alignment (top+1-r.length)
    refine ⟨dvd_alignDown _ _, by omega, by omega, fun _ => ⟨by omega, hstart⟩, fun b hb hahead => ?_⟩
    have hside := hahead.side hmap hent
    rw [nearEnd, htop, if_pos rfl, if_pos rfl] at hside
    rw [htop, if_pos rfl]
    have := hgreatest _ hside hb.le_max
    exact le_alignDown hb.aligned (by omega)
  | false =>
    rw [candidate_bottomUp hmax hal (by omega) hle htop] at hcand
    have hup : lowestBase r entry ≤ 2^63 := alignUp_le (by omega) hal
    have hlen := hlength htop
    rw [spaceEnd, toUint64_of_lt (by omega)] at hcand
    by_cases hgt : lowestBase r entry + r.length - 1 > maxAddress
    · rw [if_pos hgt] at hcand
      cases hcand
    rw [if_neg hgt, Candidate.tryBase.injEq] at hcand
    subst hcand
    refine ⟨dvd_alignDown _ _, by omega, by omega, fun h => ?_, fun b hb hahead => ?_⟩
    · rw [htop] at h
      cases h
    · have hside := hahead.side hmap hent
      rw [nearEnd, htop, if_ff, if_ff] at hside
      rw [htop, if_ff]
      exact alignUp_le_of_dvd hb.aligned hside

/-- At an entry that the search stops at, or goes on behind, there is no space it reaches. -/
theorem not_reaches_of_stop {stopped : Nat} (hmap : Tiles 0 map (max+1)) (hmax : max < 2^63)
    (hal : r.alignment < 64) (hpos : 0 < r.length)
    (hlength : topDown r = false → r.length ≤ max+1) (hent : map[link]? = some entry)
    (hcand : candidate r maxAddress baseAddress entry = .stop stopped) (b : Nat)
    (hahead : AheadOf r map (some link) (nearEnd r b)) : ¬ Reaches r map maxAddress b := by
  intro hb
  obtain ⟨hle,hend⟩ := hmap.end_of_mem (mem_of_getElem? hent)
  have hside := hahead.side hmap hent
  cases htop : topDown r with
  | true =>
    have hspec := @candidate_topDown r max maxAddress baseAddress entry hmax (by omega) hle htop
    rw [hcand] at hspec
    rw [nearEnd, htop, if_pos rfl, if_pos rfl] at hside
    omega
  | false =>
    rw [candidate_bottomUp hmax hal (by omega) hle htop] at hcand
    have hup : lowestBase r entry ≤ 2^63 := alignUp_le (by omega) hal
    have hlen := hlength htop
    rw [spaceEnd, toUint64_of_lt (by omega)] at hcand
    rw [nearEnd, htop, if_ff, if_ff] at hside
    by_cases hgt : lowestBase r entry + r.length - 1 > maxAddress
    · have hlow : lowestBase r entry ≤ b := alignUp_le_of_dvd hb.1.aligned hside
      have hmaxAddr := hb.1.le_max
      omega
    · rw [if_neg hgt] at hcand
      cases hcand

theorem topDown_of_next (h : candidate r maxAddress baseAddress entry = .next) : topDown r = true := by
  rw [candidate] at h
  cases htop : topDown r with
  | true => rfl
  | false =>
    simp only [htop, Bool.false_eq_true, if_false] at h
    split at h <;> cases h

theorem not_holds_of_next (hmap : Tiles 0 map (max+1)) (hmax : max < 2^63)
    (hent : map[link]? = some entry)
    (hcand : candidate r maxAddress baseAddress entry = .next) {b : Nat}
    (hb : Reaches r map maxAddress b) : ¬ entry.Holds (nearEnd r b) := by
  intro hhold
  have htop := topDown_of_next hcand
  have hmem := mem_of_getElem? hent
  obtain ⟨hle,hend⟩ := hmap.end_of_mem hmem
  have hspec := @candidate_topDown r max maxAddress baseAddress entry hmax (by omega) hle htop
  rw [hcand] at hspec
  have hhigh : maxAddress < entry.baseAddress+r.length := hspec
  obtain ⟨e,he,heholds,hstart⟩ := hb.2 htop
  rw [nearEnd, htop, if_pos rfl] at hhold
  obtain ⟨k,hk⟩ := mem_iff_getElem?.mp he
  have hidx := index_unique hmap hk hent heholds hhold
  rw [hidx, hent, Option.some.injEq] at hk
  rw [hk] at hhigh
  omega

variable {range : MapRange} {last s e : Nat}

theorem suits_of_checked (hr : IsRange map max base last range s e)
    (hall : checkedBefore r range.range = range.range) {x : Nat} (hx : base ≤ x ∧ x ≤ last) :
    ∃ d, lookup map x = some d ∧ Suits r d := by
  have hstart := hr.start_le
  have hend := hr.lt_end
  obtain ⟨f,hf,hhold⟩ := hr.range.exists_mem (x := x) (by omega) (by omega)
  refine ⟨f.value, by rw [hr.lookup hx, lookup_of_mem hr.range hf hhold], ?_⟩
  rw [checkedBefore, takeWhile_eq_self_iff] at hall
  have hchk := hall f hf
  by_contra hnot
  rw [coreAllocateSpaceCheckEntry_iff.mpr hnot] at hchk
  cases hchk

theorem reaches_of_checked (hmap : Tiles 0 map (max+1)) (hent : map[link]? = some entry) (htried : Tried r map maxAddress link entry base)
    (hlen : base+r.length = last+1) (hr : IsRange map max base last range s e)
    (hall : checkedBefore r range.range = range.range) : Reaches r map maxAddress base := by
  refine ⟨⟨htried.aligned, htried.le_max, fun x hx hxl => suits_of_checked hr hall (by omega)⟩, fun htop => ?_⟩
  · obtain ⟨hle,hlow⟩ := htried.reaches htop
    have hentEnd := (hmap.end_of_mem (mem_of_getElem? hent)).2
    obtain ⟨f,hf,hhold⟩ := hmap.exists_mem (x := last) (Nat.zero_le _) (by omega)
    refine ⟨f, hf, ?_, ?_⟩
    · rw [hlen, Nat.add_sub_cancel]
      exact hhold
    · obtain ⟨k,hk⟩ := mem_iff_getElem?.mp hf
      have hbase : f.baseAddress ≤ entry.baseAddress := by
        rcases lt_trichotomy k link with hlt | heq | hgt
        · have hord := getElem?_order hmap hlt hk hent
          have := (hmap.end_of_mem hf).1
          omega
        · rw [heq, hent, Option.some.injEq] at hk
          rw [hk]
        · have hord := getElem?_order hmap hgt hent hk
          have := hhold.1
          omega
      omega

/-- The spaces that fit are all ahead of an entry that is in the way of the outermost base. -/
theorem ahead_of_unchecked {m : Nat} {f : GcdMapEntry} (hmap : Tiles 0 map (max+1))
    (hpos : 0 < r.length) (hlen : base+r.length = last+1) (hm : map[m]? = some f)
    (hnot : ¬ Suits r f.value) (hmeets : base ≤ f.endAddress ∧ f.baseAddress ≤ last) {b : Nat}
    (hb : Fits r map maxAddress b) (hside : if topDown r then b ≤ base else base ≤ b) :
    AheadOf r map (some m) (nearEnd r b) := by
  obtain ⟨hnearLe,hnearLt⟩ := @nearEnd_mem r hpos b
  obtain ⟨d,hd,-⟩ := hb.suits _ hnearLe hnearLt
  obtain ⟨k,g,hk,hhold,-⟩ := exists_index hd
  have hmem := mem_of_getElem? hm
  have hseg := (hmap.end_of_mem hmem).1
  refine ⟨m, k, g, rfl, hk, hhold, ?_⟩
  cases htop : topDown r with
  | true =>
    rw [htop, if_pos rfl] at hside
    by_contra hlt
    have hord := getElem?_order hmap (Nat.lt_of_not_le hlt) hm hk
    have hstart := hhold.1
    exact hnot (hb.suits_of_mem hmap (by omega) (by omega) hmem ⟨hseg, le_rfl⟩)
  | false =>
    rw [htop, if_ff] at hside
    by_contra hlt
    have hord := getElem?_order hmap (Nat.lt_of_not_le hlt) hk hm
    have hstart := hhold.2
    exact hnot (hb.suits_of_mem hmap (by omega) (by omega) hmem ⟨le_rfl, hseg⟩)

def Outermost (r : AllocateRequest) (map : List GcdMapEntry) (maxAddress base : Nat) : Option MapRange → Prop
  | none => ∀ b, ¬ Reaches r map maxAddress b
  | some _ => Reaches r map maxAddress base ∧
      ∀ b, Reaches r map maxAddress b → if topDown r then b ≤ base else base ≤ b

theorem allocateSearch_outermost {fuel : Nat} {start : Option Nat} {found : Option MapRange}
    (hmap : Tiles 0 map (max+1)) (hmax : max < 2^63) (hal : r.alignment < 64)
    (hpos : 0 < r.length) (hlength : topDown r = false → r.length ≤ max+1)
    (hstart : ∀ l, start = some l → l < map.length)
    (hahead : ∀ b, Reaches r map maxAddress b → AheadOf r map start (nearEnd r b))
    (h : allocateSearch r maxAddress map fuel start baseAddress = some (base,found)) :
    Outermost r map maxAddress base found := by
  induction fuel generalizing start baseAddress with
  | zero => cases h
  | succ fuel ih =>
    cases start with
    | none =>
      cases h
      intro b hb
      obtain ⟨l,k,e,hl,-⟩ := hahead b hb
      cases hl
    | some link =>
      obtain ⟨entry,hent⟩ : ∃ entry, map[link]? = some entry :=
        ⟨_, getElem?_eq_getElem (hstart link rfl)⟩
      have hfoll : ∀ l, followingLink r map.length link = some l → l < map.length := by
        intro l hl
        have := hstart link rfl
        rw [followingLink] at hl
        split at hl <;> split at hl <;> cases hl <;> omega
      rw [allocateSearch] at h
      simp only [hent] at h
      by_cases hchk : (coreAllocateSpaceCheckEntry r entry.value).isError = true
      · rw [if_pos hchk] at h
        refine ih hfoll (fun b hb => (hahead b hb).following hent fun hhold => ?_) h
        have hnear := @nearEnd_mem r hpos b
        exact coreAllocateSpaceCheckEntry_iff.mp hchk
          (hb.1.suits_of_mem hmap hnear.1 hnear.2 (mem_of_getElem? hent) hhold)
      rw [if_neg hchk] at h
      cases hcand : candidate r maxAddress baseAddress entry with
      | next =>
        rw [hcand] at h
        exact ih hfoll (fun b hb =>
          (hahead b hb).following hent (not_holds_of_next hmap hmax hent hcand hb)) h
      | stop stopped =>
        rw [hcand] at h
        cases h
        intro b hb
        exact not_reaches_of_stop hmap hmax hal hpos hlength hent hcand b (hahead b hb) hb
      | tryBase tried =>
        have htried := tried_of_candidate hmap hmax hal hpos hlength hent hcand
        simp only [hcand] at h
        have hside : ∀ b, Reaches r map maxAddress b → if topDown r then b ≤ tried else tried ≤ b :=
          fun b hb => htried.outermost b hb.1 (hahead b hb)
        obtain ⟨last,hlen⟩ : ∃ last, tried+r.length = last+1 := ⟨tried+r.length - 1, by omega⟩
        have hend := htried.le_end
        obtain ⟨hnone,hsome⟩ := coreSearchGcdMapEntry_spec hmap hlen (by omega) (by omega)
        by_cases hlast : last ≤ max
        · obtain ⟨range,s,e,hsrch,hr⟩ := hsome hlast
          simp only [hsrch] at h
          by_cases hall : checkedBefore r range.range = range.range
          · rw [if_pos hall] at h
            cases h
            exact ⟨reaches_of_checked hmap hent htried hlen hr hall, hside⟩
          rw [if_neg hall] at h
          obtain ⟨f,hf,hfcheck⟩ := exists_unchecked hall
          have hm := hr.getElem?_range hf
          refine ih (fun l hl => ?_) (fun b hb => ahead_of_unchecked hmap hpos hlen hm
            (coreAllocateSpaceCheckEntry_iff.mp hfcheck)
            (hr.meets f (mem_of_getElem? hf)) hb.1 (hside b hb)) h
          cases hl
          exact (List.getElem?_eq_some_iff.mp hm).1
        · rw [hnone (by omega)] at h
          cases h
          intro b hb
          have hbMap := hb.1.le_map hmap hpos
          have hb' := hside b hb
          cases htop : topDown r with
          | true =>
            have := (htried.reaches htop).1
            have := (hmap.end_of_mem (mem_of_getElem? hent)).2
            omega
          | false =>
            rw [htop, if_ff] at hb'
            omega

end

end Liano.Gcd
