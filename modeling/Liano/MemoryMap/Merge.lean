import Liano.MemoryMap.GetMemoryMap

/-! What a memory map says of each address, and that the merges do not change it. -/
namespace Liano.MemoryMap

open Liano.Lib Liano.Gcd List

def EfiMemoryDescriptor.limit (d : EfiMemoryDescriptor) : Nat := d.physicalStart + d.numberOfPages*efiPageSize

def EfiMemoryDescriptor.Holds (d : EfiMemoryDescriptor) (x : Nat) : Prop := d.physicalStart ≤ x ∧ x < d.limit

def EfiMemoryDescriptor.Bounded (d : EfiMemoryDescriptor) : Prop := d.limit < 2^64

def EfiMemoryDescriptor.Says (d : EfiMemoryDescriptor) (x : Nat) (v : PageAttributes) : Prop :=
  d.Holds x ∧ d.type = v.type ∧ d.attributes = v.attributes

def Reports (map : List EfiMemoryDescriptor) (x : Nat) (v : PageAttributes) : Prop := ∃ d ∈ map, d.Says x v

def Apart (d e : EfiMemoryDescriptor) : Prop := ∀ x, d.Holds x → ¬ e.Holds x

section
variable {d e f : EfiMemoryDescriptor} {map rest : List EfiMemoryDescriptor} {x : Nat}
  {v : PageAttributes}

theorem says_self (h : d.Holds x) : d.Says x ⟨d.type, d.attributes⟩ := ⟨h, rfl, rfl⟩

theorem reports_nil : ¬ Reports [] x v := by
  rintro ⟨d,hd,-⟩
  cases hd

theorem reports_cons : Reports (d :: map) x v ↔ d.Says x v ∨ Reports map x v := by
  constructor
  · rintro ⟨e,he,hstated⟩
    rcases mem_cons.mp he with rfl | he
    · exact .inl hstated
    · exact .inr ⟨e, he, hstated⟩
  · rintro (hstated | ⟨e,he,hstated⟩)
    · exact ⟨d, mem_cons_self, hstated⟩
    · exact ⟨e, mem_cons_of_mem _ he, hstated⟩

theorem apart_all_iff : (∀ e ∈ map, Apart d e) ↔ ∀ x v, d.Holds x → ¬ Reports map x v := by
  constructor
  · rintro h x v hx ⟨e,he,hstated⟩
    exact h e he x hx hstated.1
  · intro h e he x hx hex
    exact h x _ hx ⟨e, he, says_self hex⟩

/-- `e` is `d` and `f` together. -/
structure Joins (d f e : EfiMemoryDescriptor) : Prop where
  bounded : e.Bounded
  joined : ∀ x v, e.Says x v ↔ d.Says x v ∨ f.Says x v

theorem Joins.holds (h : Joins d f e) (hx : e.Holds x) : d.Holds x ∨ f.Holds x := by
  rcases (h.joined x _).mp (says_self hx) with hd | hf
  · exact .inl hd.1
  · exact .inr hf.1

theorem bounded_pages (h : d.Bounded) : d.numberOfPages*efiPageSize < 2^64 := by
  unfold EfiMemoryDescriptor.Bounded EfiMemoryDescriptor.limit at h
  omega

theorem efiPagesToSize_of_bounded (h : d.Bounded) :
    efiPagesToSize d.numberOfPages = d.numberOfPages*efiPageSize := toUint64_of_lt (bounded_pages h)

theorem toUint64_limit (h : d.Bounded) :
    toUint64 (d.physicalStart + efiPagesToSize d.numberOfPages) = d.limit := by
  rw [efiPagesToSize_of_bounded h]
  exact toUint64_of_lt h

section
variable (hd : d.Bounded) (hf : f.Bounded)
include hd hf

theorem toUint64_below_iff :
    toUint64 (d.physicalStart + (2^64 - efiPagesToSize f.numberOfPages)) = f.physicalStart ↔
      f.limit = d.physicalStart := by
  rw [efiPagesToSize_of_bounded hf]
  unfold EfiMemoryDescriptor.Bounded EfiMemoryDescriptor.limit at hd hf
  unfold EfiMemoryDescriptor.limit toUint64
  omega

theorem toUint64_pages : toUint64 (d.numberOfPages+f.numberOfPages) = d.numberOfPages+f.numberOfPages := by
  have hdp := bounded_pages hd
  have hfp := bounded_pages hf
  unfold efiPageSize at hdp hfp
  exact toUint64_of_lt (by omega)

/-- The pages of both, from where the lower one starts. -/
theorem joins_of_adjacent (htype : d.type = f.type) (hattr : d.attributes = f.attributes)
    (hsame : e.type = d.type ∧ e.attributes = d.attributes)
    (hpages : e.numberOfPages = toUint64 (d.numberOfPages+f.numberOfPages))
    (hplace : e.physicalStart = d.physicalStart ∧ d.limit = f.physicalStart ∨
      e.physicalStart = f.physicalStart ∧ f.limit = d.physicalStart) : Joins d f e := by
  rw [toUint64_pages hd hf] at hpages
  have hend : e.numberOfPages*efiPageSize = d.numberOfPages*efiPageSize + f.numberOfPages*efiPageSize := by
    rw [hpages, add_mul]
  unfold EfiMemoryDescriptor.Bounded EfiMemoryDescriptor.limit at hd hf
  unfold EfiMemoryDescriptor.limit at hplace
  constructor
  · unfold EfiMemoryDescriptor.Bounded EfiMemoryDescriptor.limit
    omega
  · intro x v
    unfold EfiMemoryDescriptor.Says EfiMemoryDescriptor.Holds EfiMemoryDescriptor.limit
    rw [← htype, ← hattr, hend, hsame.1, hsame.2]
    by_cases hv : d.type = v.type ∧ d.attributes = v.attributes
    · simp only [hv, and_true]
      omega
    · simp only [hv, and_false, or_false]

theorem joins_above (htype : d.type = f.type) (hattr : d.attributes = f.attributes) (hlim : d.limit = f.physicalStart) :
    Joins d f { d with numberOfPages := toUint64 (d.numberOfPages+f.numberOfPages) } :=
  joins_of_adjacent hd hf htype hattr ⟨rfl, rfl⟩ rfl (.inl ⟨rfl, hlim⟩)

theorem joins_below (htype : d.type = f.type)
    (hattr : d.attributes = f.attributes) (hlim : f.limit = d.physicalStart) : Joins d f { d with
      physicalStart := f.physicalStart
      virtualStart := f.virtualStart
      numberOfPages := toUint64 (d.numberOfPages+f.numberOfPages) } :=
  joins_of_adjacent hd hf htype hattr ⟨rfl, rfl⟩ rfl (.inr ⟨rfl, hlim⟩)
end

structure IsMap (map : List EfiMemoryDescriptor) : Prop where
  bounded : ∀ d ∈ map, d.Bounded
  apart : map.Pairwise Apart

theorem isMap_nil : IsMap [] := ⟨fun _ hd => absurd hd not_mem_nil, List.Pairwise.nil⟩

theorem isMap_cons : IsMap (d :: map) ↔ d.Bounded ∧ (∀ e ∈ map, Apart d e) ∧ IsMap map := by
  constructor
  · intro h
    have hpair := pairwise_cons.mp h.apart
    exact ⟨h.bounded d mem_cons_self, hpair.1, fun e he => h.bounded e (mem_cons_of_mem _ he), hpair.2⟩
  · rintro ⟨hd,hapart,hmap⟩
    refine ⟨fun e he => ?_, pairwise_cons.mpr ⟨hapart, hmap.apart⟩⟩
    rcases mem_cons.mp he with rfl | he
    · exact hd
    · exact hmap.bounded e he

theorem Joins.isMap (h : Joins d f e) (hmap : IsMap (d :: map)) (hf : ∀ g ∈ map, Apart f g) :
    IsMap (e :: map) := by
  obtain ⟨-,hd,hrest⟩ := isMap_cons.mp hmap
  refine isMap_cons.mpr ⟨h.bounded, fun g hg x hx => ?_, hrest⟩
  rcases h.holds hx with hx | hx
  · exact hd g hg x hx
  · exact hf g hg x hx

structure Extends (map map' : List EfiMemoryDescriptor) (d : EfiMemoryDescriptor) : Prop where
  isMap : IsMap map'
  length : map'.length ≤ map.length+1
  reports : ∀ x v, Reports map' x v ↔ Reports map x v ∨ d.Says x v

theorem Joins.extends (h : Joins d f e) (hmap : IsMap (d :: map)) (hf : ∀ g ∈ map, Apart f g) :
    Extends (d :: map) (e :: map) f where
  isMap := h.isMap hmap hf
  length := Nat.le_succ _
  reports x v := by
    rw [reports_cons, reports_cons, h.joined]
    exact or_right_comm

theorem Extends.cons (h : Extends map rest f) (hmap : IsMap (d :: map)) (hf : Apart d f) :
    Extends (d :: map) (d :: rest) f where
  isMap := by
    obtain ⟨hd,hapart,-⟩ := isMap_cons.mp hmap
    refine isMap_cons.mpr ⟨hd, apart_all_iff.mpr fun x v hx hrep => ?_, h.isMap⟩
    rcases (h.reports x v).mp hrep with hrep | hstated
    · exact apart_all_iff.mp hapart x v hx hrep
    · exact hf x hx hstated.1
  length := Nat.succ_le_succ h.length
  reports x v := by rw [reports_cons, reports_cons, h.reports, or_assoc]

theorem mergeMemoryMapDescriptor_extends (hmap : IsMap map) (hd : d.Bounded)
    (hapart : ∀ e ∈ map, Apart e d) : Extends map (mergeMemoryMapDescriptor map d) d := by
  induction map with
  | nil =>
    refine ⟨isMap_cons.mpr ⟨hd, fun e he => absurd he not_mem_nil, isMap_nil⟩, le_rfl, fun x v => ?_⟩
    rw [mergeMemoryMapDescriptor, reports_cons, or_comm]
  | cons m rest ih =>
    obtain ⟨hm,-,hrest⟩ := isMap_cons.mp hmap
    have hmd := hapart m mem_cons_self
    have happart : ∀ e ∈ rest, Apart e d := fun e he => hapart e (mem_cons_of_mem _ he)
    have hdrest : ∀ e ∈ rest, Apart d e := fun e he x hx hex => happart e he x hex hx
    have hgo := (ih hrest happart).cons hmap hmd
    rw [mergeMemoryMapDescriptor, toUint64_limit hm]
    split
    · exact hgo
    rename_i hsame
    rw [not_or, not_not, not_not] at hsame
    split
    · rename_i habove
      exact (joins_above hm hd hsame.1 hsame.2 habove).extends hmap hdrest
    split
    · rename_i hbelow
      rw [toUint64_below_iff hm hd] at hbelow
      exact (joins_below hm hd hsame.1 hsame.2 hbelow).extends hmap hdrest
    · exact hgo

theorem mergeEntries_spec (behind : Nat) (hmap : IsMap (d :: map)) :
    IsMap (mergeEntries none behind d map) ∧ (mergeEntries none behind d map).length ≤ map.length+1 ∧
      ∀ x v, Reports (mergeEntries none behind d map) x v ↔ Reports (d :: map) x v := by
  induction map generalizing d with
  | nil => exact ⟨hmap, le_rfl, fun x v => Iff.rfl⟩
  | cons e rest ih =>
    obtain ⟨hd,hapart,hrest⟩ := isMap_cons.mp hmap
    obtain ⟨he,her,-⟩ := isMap_cons.mp hrest
    rw [mergeEntries]
    unfold mergeGuardPages
    dsimp only
    rw [toUint64_limit hd]
    split
    · rename_i hsame
      have hjoin := joins_above hd he hsame.1 hsame.2.1 hsame.2.2
      have hdr : IsMap (d :: rest) := isMap_cons.mpr
        ⟨hd, fun g hg => hapart g (mem_cons_of_mem _ hg), (isMap_cons.mp hrest).2.2⟩
      obtain ⟨hmap',hlen,hrep⟩ := ih (hjoin.isMap hdr her)
      refine ⟨hmap', by rw [length_cons]; omega, fun x v => ?_⟩
      rw [hrep, reports_cons, reports_cons, reports_cons, hjoin.joined, or_assoc]
    · obtain ⟨hmap',hlen,hrep⟩ := ih hrest
      refine ⟨isMap_cons.mpr ⟨hd, apart_all_iff.mpr fun x v hx hr => ?_, hmap'⟩,
        Nat.succ_le_succ hlen, fun x v => ?_⟩
      · exact apart_all_iff.mp hapart x v hx ((hrep x v).mp hr)
      · rw [reports_cons, hrep, ← reports_cons]

theorem mergeMemoryMap_spec (behind : Nat) (hmap : IsMap map) : IsMap (mergeMemoryMap none behind map) ∧
      (mergeMemoryMap none behind map).length ≤ map.length ∧
      ∀ x v, Reports (mergeMemoryMap none behind map) x v ↔ Reports map x v := by
  cases map with
  | nil => exact ⟨hmap, le_rfl, fun x v => Iff.rfl⟩
  | cons d rest => exact mergeEntries_spec behind hmap

def clearPages (v : PageAttributes) : PageAttributes :=
  { v with attributes := v.attributes &&& ~~~clearedAttributes }

theorem isMap_clearPaging (hmap : IsMap map) : IsMap (map.map clearPaging) := by
  induction map with
  | nil => exact isMap_nil
  | cons d rest ih =>
    obtain ⟨hd,hapart,hrest⟩ := isMap_cons.mp hmap
    refine isMap_cons.mpr ⟨hd, fun e he => ?_, ih hrest⟩
    obtain ⟨f,hf,rfl⟩ := mem_map.mp he
    exact hapart f hf

theorem reports_clearPaging :
    Reports (map.map clearPaging) x v ↔ ∃ w, Reports map x w ∧ v = clearPages w := by
  constructor
  · rintro ⟨d,hd,hhold,htype,hattr⟩
    obtain ⟨e,he,rfl⟩ := mem_map.mp hd
    refine ⟨⟨e.type, e.attributes⟩, ⟨e, he, says_self hhold⟩, ?_⟩
    cases v
    exact PageAttributes.mk.injEq _ _ _ _ ▸ ⟨htype.symm, hattr.symm⟩
  · rintro ⟨w,⟨d,hd,hhold,htype,hattr⟩,rfl⟩
    exact ⟨clearPaging d, mem_map_of_mem hd, hhold, htype, congrArg (· &&& ~~~clearedAttributes) hattr⟩

end

end Liano.MemoryMap
