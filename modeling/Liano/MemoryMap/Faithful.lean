import Mathlib.Data.List.Pairwise
import Liano.MemoryMap.Merge

/-! `CoreGetMemoryMap` reports each address as the page map and the GCD map have it. -/
namespace Liano.MemoryMap

open List hiding merge

open Liano.Lib Liano.Gcd

structure PageRange {α : Type} (e : Segment α) : Prop where
  nonempty : e.baseAddress ≤ e.endAddress
  base : efiPageSize ∣ e.baseAddress
  limit : efiPageSize ∣ e.endAddress+1
  bounded : e.endAddress+1 < 2^64

theorem PageRange.pages {α : Type} {e : Segment α} (h : PageRange e) :
    e.baseAddress + pagesBetween e.baseAddress e.endAddress * efiPageSize = e.endAddress+1 := by
  obtain ⟨hle,hbase,hlim,hbnd⟩ := h
  have hsize : toUint64 (e.endAddress + (2^64-e.baseAddress) + 1) = e.endAddress+1-e.baseAddress := by
    unfold toUint64
    omega
  have hdvd : efiPageSize ∣ e.endAddress+1-e.baseAddress := Nat.dvd_sub hlim hbase
  rw [pagesBetween, hsize, Nat.div_mul_cancel hdvd]
  omega

theorem extends_range {α : Type} {e : Segment α} (h : PageRange e) {d : EfiMemoryDescriptor}
    (hstart : d.physicalStart = e.baseAddress)
    (hpgs : d.numberOfPages = pagesBetween e.baseAddress e.endAddress) :
    d.Bounded ∧ ∀ x, d.Holds x ↔ e.Holds x := by
  have hlim : d.limit = e.endAddress+1 := by rw [EfiMemoryDescriptor.limit, hstart, hpgs, h.pages]
  refine ⟨?_, fun x => ?_⟩
  · rw [EfiMemoryDescriptor.Bounded, hlim]
    exact h.bounded
  · rw [EfiMemoryDescriptor.Holds, hlim, hstart, Nat.lt_succ_iff]
    rfl

/-- The map with what `added` says of further addresses, in at most `n` more descriptors. -/
structure Adds (map map' : List EfiMemoryDescriptor) (n : Nat)
    (added : Nat → PageAttributes → Prop) : Prop where
  isMap : IsMap map'
  length : map'.length ≤ map.length+n
  reports : ∀ x v, Reports map' x v ↔ Reports map x v ∨ added x v

theorem putDescriptor_adds {slots : Nat} {map : List EfiMemoryDescriptor} {α : Type}
    {e : Segment α} {d : EfiMemoryDescriptor} {v : PageAttributes} (hmap : IsMap map)
    (hslots : map.length < slots) (hrng : PageRange e) (hstart : d.physicalStart = e.baseAddress)
    (hpgs : d.numberOfPages = pagesBetween e.baseAddress e.endAddress)
    (hval : v = ⟨d.type, d.attributes⟩) (hapart : ∀ x w, e.Holds x → ¬ Reports map x w) :
    ∃ map', putDescriptor slots map d = some map' ∧ Adds map map' 1 fun x w => e.Holds x ∧ w = v := by
  obtain ⟨hd,hhold⟩ := extends_range hrng hstart hpgs
  have hall : ∀ f ∈ map, Apart f d := by
    intro f hf x hx hdx
    exact hapart x _ ((hhold x).mp hdx) ⟨f, hf, says_self hx⟩
  obtain ⟨h1,h2,h3⟩ := mergeMemoryMapDescriptor_extends hmap hd hall
  refine ⟨_, if_pos hslots, h1, h2, fun x w => ?_⟩
  rw [h3]
  unfold EfiMemoryDescriptor.Says
  rw [hhold, hval]
  rw [PageAttributes.mk.injEq]
  simp only [eq_comm]

def entryValue (statistics : Nat → EfiMemoryTypeStatistics) (e : MemoryMapEntry) : PageAttributes :=
  ⟨(entryDescriptor statistics e).type, (entryDescriptor statistics e).attributes⟩

def EntriesSay (statistics : Nat → EfiMemoryTypeStatistics) (es : List MemoryMapEntry) (x : Nat)
    (v : PageAttributes) : Prop := ∃ e ∈ es, e.Holds x ∧ v = entryValue statistics e

def Disjoint {α : Type} (es : List (Segment α)) : Prop := es.Pairwise fun e f => ∀ x, e.Holds x → ¬ f.Holds x

instance {α : Type} : Std.Symm fun e f : Segment α => ∀ x, e.Holds x → ¬ f.Holds x where
  symm _ _ hef x hx hxe := hef x hxe hx

theorem Disjoint.eq {α : Type} {es : List (Segment α)} (h : Disjoint es) {e f : Segment α}
    (he : e ∈ es) (hf : f ∈ es) {x : Nat} (hex : e.Holds x) (hfx : f.Holds x) : e = f := by
  by_contra hne
  exact List.Pairwise.forall h he hf hne x hex hfx

variable {statistics : Nat → EfiMemoryTypeStatistics}

theorem entriesSay_cons {e : MemoryMapEntry} {es : List MemoryMapEntry} {x : Nat} {v : PageAttributes} :
    EntriesSay statistics (e :: es) x v ↔
      (e.Holds x ∧ v = entryValue statistics e) ∨ EntriesSay statistics es x v := by
  unfold EntriesSay
  simp only [mem_cons, or_and_right, exists_or, exists_eq_left]

theorem putEntries_adds {slots : Nat}
    {es : List MemoryMapEntry} {map : List EfiMemoryDescriptor} (hmap : IsMap map)
    (hslots : map.length+es.length ≤ slots) (hrng : ∀ e ∈ es, PageRange e)
    (hdisj : Disjoint es) (hapart : ∀ e ∈ es, ∀ x w, e.Holds x → ¬ Reports map x w) :
    ∃ map', putEntries statistics slots es map = some map' ∧
      Adds map map' es.length (EntriesSay statistics es) := by
  induction es generalizing map with
  | nil =>
    refine ⟨map, rfl, hmap, le_rfl, fun x v => ?_⟩
    constructor
    · exact .inl
    · rintro (h | ⟨e,he,-⟩)
      · exact h
      · cases he
  | cons e es ih =>
    have hpair := pairwise_cons.mp hdisj
    rw [length_cons] at hslots
    obtain ⟨map',hput,hadds⟩ := putDescriptor_adds hmap
      (show map.length < slots by omega) (hrng e mem_cons_self)
      (show (entryDescriptor statistics e).physicalStart = e.baseAddress from rfl) rfl rfl
      (hapart e mem_cons_self)
    have hnext : ∀ f ∈ es, ∀ x w, f.Holds x → ¬ Reports map' x w := by
      intro f hf x w hx hrep
      rcases (hadds.reports x w).mp hrep with hrep | ⟨hex,-⟩
      · exact hapart f (mem_cons_of_mem _ hf) x w hx hrep
      · exact hpair.1 f hf x hex hx
    have hlen := hadds.length
    obtain ⟨map'',hputs,hadds'⟩ := ih hadds.isMap (by omega)
      (fun f hf => hrng f (mem_cons_of_mem _ hf)) hpair.2 hnext
    refine ⟨map'', ?_, hadds'.isMap, ?_, fun x v => ?_⟩
    · rw [putEntries, hput]
      exact hputs
    · have hlen' := hadds'.length
      rw [length_cons]
      omega
    · rw [hadds'.reports, hadds.reports, entriesSay_cons, or_assoc]
      rfl

def GcdSays (es : List GcdMapEntry) (x : Nat) (v : PageAttributes) : Prop :=
  ∃ e ∈ es, e.Holds x ∧ gcdAttributes e.value = some v

theorem gcdSays_cons {e : GcdMapEntry} {es : List GcdMapEntry} {x : Nat} {v : PageAttributes} :
    GcdSays (e :: es) x v ↔ (e.Holds x ∧ gcdAttributes e.value = some v) ∨ GcdSays es x v := by
  unfold GcdSays
  simp only [mem_cons, or_and_right, exists_or, exists_eq_left]

def counted (es : List GcdMapEntry) : Nat := (es.filter fun e => isCounted e.value).length

theorem counted_cons (e : GcdMapEntry) (es : List GcdMapEntry) :
    counted (e :: es) = (if isCounted e.value then 1 else 0) + counted es := by
  unfold counted
  rw [filter_cons]
  split
  · rw [length_cons, add_comm]
  · rw [zero_add]

theorem isSome_gcdAttributes (d : GcdDescriptor) : (gcdAttributes d).isSome = isCounted d := by
  unfold gcdAttributes isCounted
  cases hreserved : isReservedOrRuntimeMmio d with
  | true => rw [if_pos rfl, Bool.or_true, Option.isSome_some]
  | false =>
    rw [if_ff, Bool.or_false]
    by_cases hpersistent : d.gcdMemoryType = .persistent
    · rw [if_pos hpersistent, hpersistent]
      rfl
    · rw [if_neg hpersistent]
      exact (beq_eq_false_iff_ne.mpr hpersistent).symm

theorem sameGcd_spec {d e : GcdDescriptor} (h : sameGcd d e = true) : gcdAttributes d = gcdAttributes e := by
  unfold sameGcd at h
  rw [Bool.and_eq_true, Bool.and_eq_true, Bool.and_eq_true, beq_iff_eq, beq_iff_eq, beq_iff_eq] at h
  obtain ⟨⟨⟨hcap,hattr⟩,htype⟩,-⟩ := h
  unfold gcdAttributes isReservedOrRuntimeMmio
  rw [hcap, hattr, htype]

theorem isCounted_of_sameGcd {d e : GcdDescriptor} (h : sameGcd d e = true) : isCounted d = isCounted e := by
  rw [← isSome_gcdAttributes, ← isSome_gcdAttributes, sameGcd_spec h]

def GcdAligned (es : List GcdMapEntry) : Prop :=
  ∀ e ∈ es, isCounted e.value = true → efiPageSize ∣ e.baseAddress ∧ efiPageSize ∣ e.endAddress+1

theorem putGcdEntry_adds {slots : Nat} {map : List EfiMemoryDescriptor} {e : GcdMapEntry}
    (hmap : IsMap map) (hslots : map.length + (if isCounted e.value then 1 else 0) ≤ slots)
    (hrng : isCounted e.value = true → PageRange e)
    (hapart : isCounted e.value = true → ∀ x w, e.Holds x → ¬ Reports map x w) :
    ∃ map', putGcdEntry slots e map = some map' ∧ Adds map map' (if isCounted e.value then 1 else 0)
        fun x v => e.Holds x ∧ gcdAttributes e.value = some v := by
  unfold putGcdEntry
  have hsome := isSome_gcdAttributes e.value
  cases hattr : gcdAttributes e.value with
  | none =>
    refine ⟨map, rfl, hmap, Nat.le_add_right _ _, fun x v => ?_⟩
    simp only [reduceCtorEq, and_false, or_false]
  | some v =>
    rw [hattr, Option.isSome_some] at hsome
    rw [← hsome, if_pos rfl] at hslots
    rw [← hsome, if_pos rfl]
    obtain ⟨map',hput,hadds⟩ := putDescriptor_adds hmap hslots (hrng hsome.symm)
      (show (gcdDescriptor e v).physicalStart = e.baseAddress from rfl) rfl rfl
      (hapart hsome.symm)
    refine ⟨map', hput, hadds.isMap, hadds.length, fun x w => ?_⟩
    rw [hadds.reports, Option.some.injEq, eq_comm]
    exact Iff.rfl

section
variable {slots b : Nat} {map : List EfiMemoryDescriptor} {merge e : GcdMapEntry}
  {es : List GcdMapEntry}

theorem gcdSays_merged (htiles : Tiles merge.baseAddress (merge :: e :: es) b)
    (hsame : sameGcd merge.value e.value = true) (x : Nat) (v : PageAttributes) :
    GcdSays ({ merge with endAddress := e.endAddress } :: es) x v ↔ GcdSays (merge :: e :: es) x v := by
  obtain ⟨-,hle,hbase,hle',-⟩ := htiles
  rw [gcdSays_cons, gcdSays_cons, gcdSays_cons, ← sameGcd_spec hsame, ← or_assoc, ← or_and_right]
  unfold Segment.Holds
  have hhold : (merge.baseAddress ≤ x ∧ x ≤ e.endAddress) ↔
      (merge.baseAddress ≤ x ∧ x ≤ merge.endAddress) ∨ (e.baseAddress ≤ x ∧ x ≤ e.endAddress) := by omega
  rw [hhold]

theorem apart_of_counted (hapart : ∀ x v w, GcdSays (merge :: es) x v → ¬ Reports map x w)
    (hcnt : isCounted merge.value = true) (x : Nat) (w : PageAttributes) (hx : merge.Holds x) :
    ¬ Reports map x w := by
  rw [← isSome_gcdAttributes, Option.isSome_iff_exists] at hcnt
  obtain ⟨v,hv⟩ := hcnt
  exact hapart x v w ⟨merge, mem_cons_self, hx, hv⟩

theorem range_of_counted (htiles : Tiles merge.baseAddress (merge :: es) b) (hb : b < 2^64)
    (hal : GcdAligned (merge :: es)) (hcnt : isCounted merge.value = true) : PageRange merge := by
  obtain ⟨hbase,hlim⟩ := hal merge mem_cons_self hcnt
  exact ⟨htiles.2.1, hbase, hlim, lt_of_le_of_lt htiles.2.2.le hb⟩

theorem putGcdEntries_adds (hmap : IsMap map) (hslots : map.length + counted (merge :: es) ≤ slots)
    (htiles : Tiles merge.baseAddress (merge :: es) b) (hb : b < 2^64)
    (hal : GcdAligned (merge :: es)) (hapart : ∀ x v w, GcdSays (merge :: es) x v → ¬ Reports map x w) :
    ∃ map', putGcdEntries slots merge es map = some map' ∧
      Adds map map' (counted (merge :: es)) (GcdSays (merge :: es)) := by
  induction es generalizing merge map with
  | nil =>
    rw [counted_cons] at hslots ⊢
    obtain ⟨map',hput,hadds⟩ := putGcdEntry_adds hmap hslots
      (range_of_counted htiles hb hal) (apart_of_counted hapart)
    refine ⟨map', hput, hadds.isMap, hadds.length, fun x v => ?_⟩
    rw [hadds.reports, gcdSays_cons]
    refine or_congr Iff.rfl ⟨.inl, ?_⟩
    rintro (h | ⟨e,he,-⟩)
    · exact h
    · cases he
  | cons e es ih =>
    rw [putGcdEntries]
    split
    · rename_i hsame
      have hcnt : counted ({ merge with endAddress := e.endAddress } :: es) ≤ counted (merge :: e :: es) := by
        rw [counted_cons, counted_cons, counted_cons, isCounted_of_sameGcd hsame]
        omega
      have hstated := gcdSays_merged htiles hsame
      have hmerged : GcdAligned ({ merge with endAddress := e.endAddress } :: es) := by
        intro f hf hcounted
        rcases mem_cons.mp hf with rfl | hf
        · have hbase := hal merge mem_cons_self hcounted
          rw [isCounted_of_sameGcd hsame] at hcounted
          exact ⟨hbase.1, (hal e (mem_cons_of_mem _ mem_cons_self) hcounted).2⟩
        · exact hal f (mem_cons_of_mem _ (mem_cons_of_mem _ hf)) hcounted
      obtain ⟨h1,h2,h3,h4,h5⟩ := htiles
      have htiles' : Tiles merge.baseAddress ({ merge with endAddress := e.endAddress } :: es) b :=
        ⟨rfl, show merge.baseAddress ≤ e.endAddress by omega, h5⟩
      have hapart' : ∀ x v w, GcdSays ({ merge with endAddress := e.endAddress } :: es) x v →
          ¬ Reports map x w := fun x v w hv => hapart x v w ((hstated x v).mp hv)
      obtain ⟨map',hput,hadds⟩ := ih hmap (by omega) htiles' hmerged hapart'
      refine ⟨map', hput, hadds.isMap, ?_, fun x v => ?_⟩
      · have hlen := hadds.length
        omega
      · rw [hadds.reports, hstated]
    · rw [counted_cons] at hslots
      obtain ⟨map',hput,hadds⟩ := putGcdEntry_adds hmap
        (show map.length + (if isCounted merge.value then 1 else 0) ≤ slots by omega)
        (range_of_counted htiles hb hal) (apart_of_counted hapart)
      have hlen := hadds.length
      have htiles' : Tiles e.baseAddress (e :: es) b := ⟨rfl, htiles.2.2.2.1, htiles.2.2.2.2⟩
      have haligned' : GcdAligned (e :: es) := fun f hf => hal f (mem_cons_of_mem _ hf)
      have hapart' : ∀ x v w, GcdSays (e :: es) x v → ¬ Reports map' x w := by
        rintro x v w ⟨f,hf,hx,hv⟩ hrep
        rcases (hadds.reports x w).mp hrep with hrep | ⟨hmx,-⟩
        · exact hapart x v w ⟨f, mem_cons_of_mem _ hf, hx, hv⟩ hrep
        have hbase := htiles.2.2.le_of_mem hf
        have h1 := hmx.2
        have h2 := hx.1
        omega
      obtain ⟨map'',hputs,hadds'⟩ := ih hadds.isMap (by omega) htiles' haligned' hapart'
      refine ⟨map'', ?_, hadds'.isMap, ?_, fun x v => ?_⟩
      · rw [hput]
        exact hputs
      · have hlen' := hadds'.length
        rw [counted_cons]
        omega
      · rw [hadds'.reports, hadds.reports, @gcdSays_cons merge, or_assoc]

end

section
variable (statistics : Nat → EfiMemoryTypeStatistics) (e : MemoryMapEntry)

def ReportedType (type : Nat) : Prop :=
  if e.value.type = efiConventionalMemory ∧ ∃ t < efiMaxMemoryType, inBin (statistics t) e = true then
    type < efiMaxMemoryType ∧ inBin (statistics type) e = true ∧
      ∀ t < efiMaxMemoryType, inBin (statistics t) e = true → t ≤ type
  else type = e.value.type

theorem lastPassing_spec (p : Nat → Bool) (start n : Nat) : if ∃ t < n, p t = true then
      (range n).foldl (fun type t => if p t then t else type) start < n ∧
      p ((range n).foldl (fun type t => if p t then t else type) start) = true ∧
        ∀ t < n, p t = true → t ≤ (range n).foldl (fun type t => if p t then t else type) start
    else (range n).foldl (fun type t => if p t then t else type) start = start := by
  induction n with
  | zero =>
    rw [if_neg]
    · rfl
    · rintro ⟨t,ht,-⟩
      omega
  | succ n ih =>
    rw [range_succ, foldl_append, foldl_cons, foldl_nil]
    by_cases hn : p n = true
    · rw [if_pos ⟨n, Nat.lt_succ_self n, hn⟩, if_pos hn]
      exact ⟨Nat.lt_succ_self n, hn, fun t ht _ => Nat.le_of_lt_succ ht⟩
    rw [if_neg hn]
    have hsame : (∃ t < n+1, p t = true) ↔ ∃ t < n, p t = true := by
      constructor
      · rintro ⟨t,ht,hpt⟩
        rcases Nat.lt_succ_iff_lt_or_eq.mp ht with ht | rfl
        · exact ⟨t, ht, hpt⟩
        · exact absurd hpt hn
      · rintro ⟨t,ht,hpt⟩
        exact ⟨t, Nat.lt_succ_of_lt ht, hpt⟩
    by_cases hex : ∃ t < n, p t = true
    · rw [if_pos hex] at ih
      rw [if_pos (hsame.mpr hex)]
      refine ⟨Nat.lt_succ_of_lt ih.1, ih.2.1, fun t ht hpt => ?_⟩
      rcases Nat.lt_succ_iff_lt_or_eq.mp ht with ht | rfl
      · exact ih.2.2 t ht hpt
      · exact absurd hpt hn
    · rw [if_neg hex] at ih
      rw [if_neg fun h => hex (hsame.mp h)]
      exact ih

theorem reportedType_binType :
    ReportedType statistics e (binType statistics e) := by
  unfold ReportedType binType
  have hlast := lastPassing_spec (fun t => inBin (statistics t) e) e.value.type efiMaxMemoryType
  by_cases htype : e.value.type = efiConventionalMemory
  · rw [if_pos htype]
    by_cases hex : ∃ t < efiMaxMemoryType, inBin (statistics t) e = true
    · rw [if_pos hex] at hlast
      rw [if_pos ⟨htype, hex⟩]
      exact hlast
    · rw [if_neg hex] at hlast
      rw [if_neg fun h => hex h.2]
      exact hlast
  · rw [if_neg htype, if_neg fun h => htype h.1]

theorem reportedType_iff {e : MemoryMapEntry}
    {type : Nat} : ReportedType statistics e type ↔ type = binType statistics e := by
  constructor
  · intro h
    have hbin := reportedType_binType statistics e
    unfold ReportedType at h hbin
    split at h
    · rename_i hin
      rw [if_pos hin] at hbin
      exact le_antisymm (hbin.2.2 type h.1 h.2.1) (h.2.2 _ hbin.1 hbin.2.1)
    · rename_i hin
      rw [if_neg hin] at hbin
      rw [h, hbin]
  · rintro rfl
    exact reportedType_binType statistics e

def HasRuntime (attributes : BitVec 64) : Prop := attributes &&& efiMemoryRuntime = efiMemoryRuntime

theorem getLsbD_efiMemoryRuntime {i : Nat} (hi : i < 64) : efiMemoryRuntime.getLsbD i = decide (i = 63) := by
  have hall : ∀ i : Fin 64, efiMemoryRuntime.getLsbD i.val = decide (i.val = 63) := by decide
  exact hall ⟨i, hi⟩

theorem hasRuntime_iff (a : BitVec 64) : HasRuntime a ↔ a.getLsbD 63 = true := by
  constructor
  · intro h
    have hbit : (a &&& efiMemoryRuntime).getLsbD 63 = efiMemoryRuntime.getLsbD 63 := by rw [h]
    rw [BitVec.getLsbD_and, getLsbD_efiMemoryRuntime (by decide)] at hbit
    simpa using hbit
  · intro h
    apply BitVec.eq_of_getLsbD_eq
    intro i hi
    rw [BitVec.getLsbD_and, getLsbD_efiMemoryRuntime hi]
    by_cases hlast : i = 63
    · rw [hlast, h, Bool.true_and]
    · rw [decide_eq_false hlast, Bool.and_false]

theorem hasRuntime_or (a b : BitVec 64) : HasRuntime (a ||| b) ↔ HasRuntime a ∨ HasRuntime b := by
  rw [hasRuntime_iff, hasRuntime_iff, hasRuntime_iff, BitVec.getLsbD_or, Bool.or_eq_true]

theorem hasRuntime_and (a b : BitVec 64) : HasRuntime (a &&& b) ↔ HasRuntime a ∧ HasRuntime b := by
  rw [hasRuntime_iff, hasRuntime_iff, hasRuntime_iff, BitVec.getLsbD_and, Bool.and_eq_true]

theorem hasRuntime_clearPages (v : PageAttributes) :
    HasRuntime (clearPages v).attributes ↔ HasRuntime v.attributes := by
  have hmask : HasRuntime (~~~clearedAttributes) := by
    unfold HasRuntime
    decide
  unfold clearPages
  rw [hasRuntime_and]
  exact and_iff_left hmask

theorem hasRuntime_entryValue :
    HasRuntime (entryValue statistics e).attributes ↔
      runtimeType statistics (entryValue statistics e).type = true ∨ HasRuntime e.value.attributes := by
  unfold entryValue entryDescriptor
  split
  · rename_i hrt
    have hself : HasRuntime efiMemoryRuntime := by
      unfold HasRuntime
      decide
    rw [hasRuntime_or]
    simp only [hself, hrt, or_true, true_or]
  · rename_i hrt
    simp only [hrt, Bool.false_eq_true, false_or]

end

theorem hasRuntime_gcdAttributes {d : GcdDescriptor} {v : PageAttributes}
    (h : gcdAttributes d = some v) : HasRuntime v.attributes ↔ HasRuntime d.attributes := by
  have hcap : ∀ a : BitVec 64, ¬ HasRuntime (a &&& reportedCapabilities) := by
    intro a hruntime
    rw [hasRuntime_and] at hruntime
    exact absurd hruntime.2 (by unfold HasRuntime; decide)
  have hport : HasRuntime (~~~efiMemoryPortIo) := by
    unfold HasRuntime
    decide
  have hnv : ¬ HasRuntime efiMemoryNv := by
    unfold HasRuntime
    decide
  unfold gcdAttributes at h
  split at h
  · obtain rfl := Option.some.inj h
    rw [hasRuntime_or, hasRuntime_and]
    simp only [hcap, hport, and_true, or_false]
  split at h
  · obtain rfl := Option.some.inj h
    rw [hasRuntime_or, hasRuntime_or]
    simp only [hcap, hnv, or_false]
  · cases h

/-- A page map and a GCD map of whole pages, without an address in both of them. -/
structure WellFormed (m : MemoryServices) : Prop where
  pages : ∀ e ∈ m.gMemoryMap, PageRange e
  disjoint : Disjoint m.gMemoryMap
  gcd : ∃ limit < 2^64, Tiles 0 m.mGcdMemorySpaceMap limit
  aligned : GcdAligned m.mGcdMemorySpaceMap
  apart : ∀ e ∈ m.gMemoryMap, ∀ g ∈ m.mGcdMemorySpaceMap, isCounted g.value = true →
    ∀ x, e.Holds x → ¬ g.Holds x

def Belongs (m : MemoryServices) (x : Nat) (v : PageAttributes) : Prop :=
  (∃ e ∈ m.gMemoryMap, e.Holds x ∧ ReportedType m.mMemoryTypeStatistics e v.type ∧
    v.attributes = ((if runtimeType m.mMemoryTypeStatistics v.type then
      e.value.attributes ||| efiMemoryRuntime else e.value.attributes) &&& ~~~clearedAttributes)) ∨
  ∃ g ∈ m.mGcdMemorySpaceMap, g.Holds x ∧ ∃ w, gcdAttributes g.value = some w ∧ v = clearPages w

def BelongsToRuntime (m : MemoryServices) (x type : Nat) : Prop := (∃ e ∈ m.gMemoryMap, e.Holds x ∧
    (runtimeType m.mMemoryTypeStatistics type = true ∨ HasRuntime e.value.attributes)) ∨
  ∃ g ∈ m.mGcdMemorySpaceMap, isCounted g.value = true ∧ g.Holds x ∧ HasRuntime g.value.attributes

section
variable {m : MemoryServices} {x : Nat} {v : PageAttributes}

theorem belongs_iff : Belongs m x v ↔ ∃ w, (EntriesSay m.mMemoryTypeStatistics m.gMemoryMap x w ∨
    GcdSays m.mGcdMemorySpaceMap x w) ∧ v = clearPages w := by
  constructor
  · rintro (⟨e,he,hx,htype,hattr⟩ | ⟨g,hg,hx,w,hw,rfl⟩)
    · refine ⟨_, .inl ⟨e, he, hx, rfl⟩, ?_⟩
      rw [reportedType_iff] at htype
      obtain ⟨type,attrs⟩ := v
      dsimp only at htype hattr
      rw [hattr, htype]
      rfl
    · exact ⟨w, .inr ⟨g, hg, hx, hw⟩, rfl⟩
  · rintro ⟨w,⟨e,he,hx,rfl⟩ | ⟨g,hg,hx,hw⟩,rfl⟩
    · exact .inl ⟨e, he, hx, reportedType_binType _ e, rfl⟩
    · exact .inr ⟨g, hg, hx, w, hw, rfl⟩

theorem isCounted_of_gcdAttributes {d : GcdDescriptor} (h : gcdAttributes d = some v) :
    isCounted d = true := by rw [← isSome_gcdAttributes, h, Option.isSome_some]

theorem hasRuntime_iff_belongsToRuntime (hm : WellFormed m) (h : Belongs m x v) :
    HasRuntime v.attributes ↔ BelongsToRuntime m x v.type := by
  obtain ⟨limit,-,htiles⟩ := hm.gcd
  rw [belongs_iff] at h
  obtain ⟨w,h,rfl⟩ := h
  rw [hasRuntime_clearPages]
  rcases h with ⟨e,he,hx,rfl⟩ | ⟨g,hg,hx,hw⟩
  · rw [hasRuntime_entryValue]
    constructor
    · intro hrt
      exact .inl ⟨e, he, hx, hrt⟩
    · rintro (⟨f,hf,hfx,hrt⟩ | ⟨g,hg,hcnt,hgx,-⟩)
      · rw [hm.disjoint.eq he hf hx hfx]
        rw [hm.disjoint.eq he hf hx hfx] at hrt
        exact hrt
      · exact absurd hgx (hm.apart e he g hg hcnt x hx)
  · have hcnt := isCounted_of_gcdAttributes hw
    rw [hasRuntime_gcdAttributes hw]
    constructor
    · intro hrt
      exact .inr ⟨g, hg, hcnt, hx, hrt⟩
    · rintro (⟨e,he,hex,-⟩ | ⟨f,hf,-,hfx,hrt⟩)
      · exact absurd hx (hm.apart e he g hg hcnt x hex)
      · have hsame : g.value = f.value :=
          Option.some.inj ((lookup_of_mem htiles hg hx).symm.trans (lookup_of_mem htiles hf hfx))
        rw [hsame]
        exact hrt

theorem putGcdEntries_zero {slots limit : Nat} {map : List EfiMemoryDescriptor}
    {es : List GcdMapEntry} (hmap : IsMap map) (hslots : map.length + counted es ≤ slots)
    (htiles : Tiles 0 es limit) (hlim : limit < 2^64) (hal : GcdAligned es)
    (hapart : ∀ x v w, GcdSays es x v → ¬ Reports map x w) :
    ∃ map', putGcdEntries slots zeroGcdMapEntry es map = some map' ∧
      Adds map map' (counted es) (GcdSays es) := by
  cases es with
  | nil =>
    refine ⟨map, rfl, hmap, le_rfl, fun x v => ⟨.inl, ?_⟩⟩
    rintro (h | ⟨e,he,-⟩)
    · exact h
    · cases he
  | cons e es =>
    obtain ⟨hbase,hle,hrest⟩ := htiles
    rw [putGcdEntries]
    split
    · -- the first entry is merged into the empty one, and is not reported
      rename_i hsame
      have hcnt := isCounted_of_sameGcd hsame
      have hzero : isCounted zeroGcdMapEntry.value = false := by decide
      rw [hzero] at hcnt
      have hstated : ∀ x v, GcdSays ({ zeroGcdMapEntry with endAddress := e.endAddress } :: es) x v ↔
          GcdSays (e :: es) x v := by
        intro x v
        rw [gcdSays_cons, gcdSays_cons, sameGcd_spec hsame]
        unfold Segment.Holds
        rw [hbase]
        exact Iff.rfl
      have hcount : counted ({ zeroGcdMapEntry with endAddress := e.endAddress } :: es) =
          counted (e :: es) := by
        rw [counted_cons, counted_cons, ← hcnt]
        rfl
      obtain ⟨map',hput,hadds⟩ := @putGcdEntries_adds slots limit map
        { zeroGcdMapEntry with endAddress := e.endAddress } es hmap (by rw [hcount]; exact hslots)
        ⟨rfl, Nat.zero_le _, hrest⟩ hlim
        (by
          intro f hf hfcounted
          rcases mem_cons.mp hf with rfl | hf
          · exact absurd (hzero.symm.trans hfcounted) Bool.false_ne_true
          · exact hal f (mem_cons_of_mem _ hf) hfcounted)
        (fun x v w h => hapart x v w ((hstated x v).mp h))
      refine ⟨map', hput, hadds.isMap, ?_, fun x v => ?_⟩
      · rw [← hcount]
        exact hadds.length
      · rw [hadds.reports, hstated]
    · exact putGcdEntries_adds hmap hslots ⟨rfl, hle, hrest⟩ hlim hal hapart

/-- With the freed-memory guard off a call always has a result, and one that succeeds returns
disjoint descriptors, in the slots that the size check asked for, that report exactly the addresses
of the page map and of the reported GCD ranges, each with its type and its attributes. -/
theorem coreGetMemoryMap_faithful (hm : WellFormed m) (hguard : m.guardedFreePages = none)
    (behind : Nat) (memoryMapSize : Option Nat) (hasBuffer : Bool) :
    ∃ r, coreGetMemoryMap m behind memoryMapSize hasBuffer = some r ∧ (r.status = .success →
        r.memoryMap.Pairwise Apart ∧ r.memoryMap.length ≤ neededSlots m ∧
        (∀ size, memoryMapSize = some size → descriptorSize * neededSlots m ≤ size) ∧
        r.memoryMapSize = some (descriptorSize*r.memoryMap.length) ∧
        (∀ x v, Reports r.memoryMap x v ↔ Belongs m x v) ∧
        ∀ x v, Reports r.memoryMap x v → (HasRuntime v.attributes ↔ BelongsToRuntime m x v.type)) := by
  cases memoryMapSize with
  | none => exact ⟨_, rfl, fun h => by cases h⟩
  | some size =>
    unfold coreGetMemoryMap
    dsimp only
    split
    · exact ⟨_, rfl, fun h => by cases h⟩
    · rename_i hsize
      split
      · exact ⟨_, rfl, fun h => by cases h⟩
      · obtain ⟨limit,hlim,htiles⟩ := hm.gcd
        have hslots : neededSlots m = counted m.mGcdMemorySpaceMap + m.gMemoryMap.length := rfl
        obtain ⟨map,hents,hadds⟩ := @putEntries_adds m.mMemoryTypeStatistics (neededSlots m)
          m.gMemoryMap [] isMap_nil (by rw [length_nil, hslots]; omega) hm.pages hm.disjoint
          (fun _ _ _ _ _ => reports_nil)
        have hlen := hadds.length
        rw [length_nil, zero_add] at hlen
        have hapart : ∀ x v w, GcdSays m.mGcdMemorySpaceMap x v → ¬ Reports map x w := by
          rintro x v w ⟨g,hg,hx,hv⟩ hrep
          rcases (hadds.reports x w).mp hrep with hrep | ⟨e,he,hex,-⟩
          · exact reports_nil hrep
          · exact hm.apart e he g hg (isCounted_of_gcdAttributes hv) x hex hx
        obtain ⟨map',hgcd,hadds'⟩ := @putGcdEntries_zero (neededSlots m) limit map
          m.mGcdMemorySpaceMap hadds.isMap (by rw [hslots]; omega) htiles hlim hm.aligned hapart
        have hlen' := hadds'.length
        obtain ⟨hmerged,hmlen,hmreports⟩ := mergeMemoryMap_spec behind (isMap_clearPaging hadds'.isMap)
        rw [length_map] at hmlen
        have hbelongs : ∀ x v, Reports (mergeMemoryMap none behind (map'.map clearPaging)) x v ↔
            Belongs m x v := by
          intro x v
          rw [hmreports, reports_clearPaging, belongs_iff]
          simp only [hadds'.reports, hadds.reports, reports_nil, false_or]
        rw [hents, Option.bind_eq_bind, Option.bind_some, hgcd, Option.bind_some, hguard]
        refine ⟨_, rfl, fun _ => ⟨hmerged.apart, ?_, ?_, rfl, hbelongs, ?_⟩⟩
        · dsimp only
          omega
        · rintro s hs
          cases hs
          omega
        · intro x v hrep
          exact hasRuntime_iff_belongsToRuntime hm ((hbelongs x v).mp hrep)

end

/-! A page map of two pages, with a page between them, and a GCD map that reserves a fourth one for
use at runtime. -/

def initialStatistics (type : Nat) : EfiMemoryTypeStatistics where
  baseAddress := 0
  maximumAddress := 0xffffffffffffffff
  numberOfPages := 0
  special := type ∈ [0, 5, 6, 9, 10, 13]
  runtime := type ∈ [5, 6, 13]

def reservedRuntime (guardedFreePages : Option (Nat → Bool)) : MemoryServices where
  gMemoryMap := [⟨0x0, 0xfff, ⟨efiConventionalMemory, 0xf⟩⟩, ⟨0x2000, 0x2fff, ⟨efiConventionalMemory, 0xf⟩⟩]
  mGcdMemorySpaceMap := [⟨0x0, 0x2fff, ⟨0xf, 0, .systemMemory, .nonExistent, some 1, none⟩⟩,
      ⟨0x3000, 0x3fff, ⟨efiMemoryRuntime, efiMemoryRuntime, .reserved, .nonExistent, none, none⟩⟩]
  mMemoryTypeStatistics := initialStatistics
  mMemoryMapKey := 1
  guardedFreePages := guardedFreePages

theorem wellFormed_reservedRuntime (guard : Option (Nat → Bool)) : WellFormed (reservedRuntime guard) where
  pages := by
    intro e he
    have hcases : e = ⟨0x0, 0xfff, ⟨efiConventionalMemory, 0xf⟩⟩ ∨
        e = ⟨0x2000, 0x2fff, ⟨efiConventionalMemory, 0xf⟩⟩ := by simpa [reservedRuntime] using he
    rcases hcases with rfl | rfl
    · exact ⟨by decide, by decide, by decide, by decide⟩
    · exact ⟨by decide, by decide, by decide, by decide⟩
  disjoint := by
    refine pairwise_cons.mpr ⟨fun f hf x hx hfx => ?_, pairwise_singleton _ _⟩
    obtain rfl := mem_singleton.mp hf
    have h1 := hx.2
    have h2 := hfx.1
    dsimp only at h1 h2
    omega
  gcd := ⟨0x4000, by decide, by decide, by decide, by decide, by decide, rfl⟩
  aligned := by
    intro e he
    have hcases : e = ⟨0x0, 0x2fff, ⟨0xf, 0, .systemMemory, .nonExistent, some 1, none⟩⟩ ∨
        e = ⟨0x3000, 0x3fff, ⟨efiMemoryRuntime, efiMemoryRuntime, .reserved, .nonExistent, none, none⟩⟩ := by
      simpa [reservedRuntime] using he
    rcases hcases with rfl | rfl
    · decide
    · decide
  apart := by
    intro e he g hg hcounted x hex hgx
    have hlast : e.endAddress ≤ 0x2fff := by
      have hall : ∀ e ∈ (reservedRuntime none).gMemoryMap, e.endAddress ≤ 0x2fff := by decide
      exact hall e he
    have hfst : 0x3000 ≤ g.baseAddress := by
      have hall : ∀ g ∈ (reservedRuntime none).mGcdMemorySpaceMap, isCounted g.value = true →
          0x3000 ≤ g.baseAddress := by decide
      exact hall g hg hcounted
    have h1 := hex.2
    have h2 := hgx.1
    omega

/-- Reserved memory is reported with the runtime attribute, and with the freed-memory guard on the
guarded page between the entries is reported as well. -/
theorem not_faithful_reservedRuntime : (WellFormed (reservedRuntime none) ∧
      ∃ r, coreGetMemoryMap (reservedRuntime none) 0 (some 0x1000) true = some r ∧
        r.status = .success ∧ Reports r.memoryMap 0x3000 ⟨efiReservedMemoryType, efiMemoryRuntime⟩ ∧
        runtimeType initialStatistics efiReservedMemoryType = false) ∧
    (WellFormed (reservedRuntime (some fun x => x == 0x1000)) ∧
      ∃ r, coreGetMemoryMap (reservedRuntime (some fun x => x == 0x1000)) 0 (some 0x1000) true =
          some r ∧ r.status = .success ∧ Reports r.memoryMap 0x1000 ⟨efiConventionalMemory, 0xf⟩ ∧
        ∀ e ∈ (reservedRuntime none).gMemoryMap, ¬ e.Holds 0x1000) := by
  refine ⟨⟨wellFormed_reservedRuntime none, _, rfl, rfl, ?_, rfl⟩,
    wellFormed_reservedRuntime _, _, rfl, rfl, ?_, by decide⟩
  · exact ⟨⟨efiReservedMemoryType, 0x3000, 0, 1, efiMemoryRuntime⟩, by decide,
      ⟨by decide, by decide⟩, rfl, rfl⟩
  · exact ⟨⟨efiConventionalMemory, 0, 0, 3, 0xf⟩, by decide, ⟨by decide, by decide⟩, rfl, rfl⟩

theorem coreGetMemoryMap_faithful_reservedRuntime :
    ∃ r, coreGetMemoryMap (reservedRuntime none) 0 (some 0x1000) true = some r ∧ (r.status = .success →
        r.memoryMap.Pairwise Apart ∧ r.memoryMap.length ≤ neededSlots (reservedRuntime none) ∧
        (∀ size, some 0x1000 = some size → descriptorSize * neededSlots (reservedRuntime none) ≤ size) ∧
        r.memoryMapSize = some (descriptorSize*r.memoryMap.length) ∧
        (∀ x v, Reports r.memoryMap x v ↔ Belongs (reservedRuntime none) x v) ∧
        ∀ x v, Reports r.memoryMap x v →
          (HasRuntime v.attributes ↔ BelongsToRuntime (reservedRuntime none) x v.type)) :=
  coreGetMemoryMap_faithful (wellFormed_reservedRuntime none) rfl 0 (some 0x1000) true

end Liano.MemoryMap
