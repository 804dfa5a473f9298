import Liano.Mtrr.PointwiseEdit
import Liano.Mtrr.VariableMtrrs

/-! The two readers of the variable MTRRs give each address above 1 MiB one type. -/
namespace Liano.Mtrr

open Liano.Lib List

/-- The types of two MTRRs that may overlap. -/
def Combinable (t u : MtrrMemoryCacheType) : Prop := t = u ∨ t = cacheUncacheable ∨ u = cacheUncacheable ∨
    t = cacheWriteThrough ∧ u = cacheWriteBack ∨ t = cacheWriteBack ∧ u = cacheWriteThrough

def strength (t : MtrrMemoryCacheType) : Nat :=
  if t = cacheUncacheable then 2 else if t = cacheWriteBack then 0 else 1

def Strongest (types : List MtrrMemoryCacheType) (t : MtrrMemoryCacheType) : Prop :=
  t ∈ types ∧ ∀ u ∈ types, strength u ≤ strength t

section
variable {t u v : MtrrMemoryCacheType} {types : List MtrrMemoryCacheType}

theorem Combinable.eq_of_strength (h : Combinable t u) (hs : strength t = strength u) : t = u := by
  rcases h with rfl | rfl | rfl | ⟨rfl,rfl⟩ | ⟨rfl,rfl⟩
  · rfl
  · by_contra hne
    simp only [strength, if_true, if_neg (Ne.symm hne)] at hs
    split at hs <;> cases hs
  · by_contra hne
    simp only [strength, if_true, if_neg hne] at hs
    split at hs <;> cases hs
  · cases hs
  · cases hs

theorem Strongest.unique (hcomb : ∀ t ∈ types, ∀ u ∈ types, Combinable t u)
    (ht : Strongest types t) (hu : Strongest types u) : t = u :=
  (hcomb t ht.1 u hu.1).eq_of_strength (le_antisymm (hu.2 t ht.1) (ht.2 u hu.1))

theorem Combinable.symm (h : Combinable t u) : Combinable u t := by
  rcases h with rfl | rfl | rfl | h | h
  · exact .inl rfl
  · exact .inr (.inr (.inl rfl))
  · exact .inr (.inl rfl)
  · exact .inr (.inr (.inr (.inr ⟨h.2, h.1⟩)))
  · exact .inr (.inr (.inr (.inl ⟨h.2, h.1⟩)))

theorem precede_iff (h : Combinable t u) (hne : t ≠ u) :
    mtrrLibTypeLeftPrecedeRight t u = true ↔ strength u < strength t := by
  rcases h with rfl | rfl | rfl | ⟨rfl,rfl⟩ | ⟨rfl,rfl⟩
  · exact absurd rfl hne
  · simp only [mtrrLibTypeLeftPrecedeRight, strength, true_or, decide_true, if_true, if_neg (Ne.symm hne)]
    split <;> simp
  · have hwb : cacheUncacheable ≠ cacheWriteBack := by decide
    simp only [mtrrLibTypeLeftPrecedeRight, strength, if_true, hne, hwb, if_false, and_false,
      or_false, decide_false, Bool.false_eq_true, false_iff]
    split <;> simp
  · decide
  · decide

theorem mtrrLibPrecedence_eq (h : Combinable t u) :
    ∃ v, mtrrLibPrecedence t u = some v ∧ Strongest [t, u] v := by
  rw [mtrrLibPrecedence]
  by_cases heq : t = u
  · subst heq
    exact ⟨t, if_pos rfl, by simp [Strongest]⟩
  have hleft := precede_iff h heq
  have hright := precede_iff h.symm (Ne.symm heq)
  have hne : strength t ≠ strength u := fun hs => heq (h.eq_of_strength hs)
  by_cases hlt : strength u < strength t
  · rw [hleft.mpr hlt]
    refine ⟨t, by simp, by simp, ?_⟩
    simp
    omega
  have hgt : strength t < strength u := by omega
  have hfalse : mtrrLibTypeLeftPrecedeRight t u = false := by
    rw [← Bool.not_eq_true, hleft]
    exact hlt
  rw [hfalse, hright.mpr hgt]
  refine ⟨u, by simp, by simp, ?_⟩
  simp
  omega

theorem Strongest.cons (hu : Strongest [t, u] v) {w : MtrrMemoryCacheType}
    (hw : Strongest (v :: types) w) : Strongest (t :: u :: types) w := by
  obtain ⟨hvmem,hv⟩ := hu
  obtain ⟨hwmem,hw⟩ := hw
  have hvw := hw v mem_cons_self
  constructor
  · rcases mem_cons.mp hwmem with rfl | hmem
    · rcases mem_cons.mp hvmem with rfl | hmem
      · simp
      · simp [mem_singleton.mp hmem]
    · simp [hmem]
  · intro s hs
    rcases mem_cons.mp hs with rfl | hs
    · exact le_trans (hv s (by simp)) hvw
    · rcases mem_cons.mp hs with rfl | hs
      · exact le_trans (hv s (by simp)) hvw
      · exact hw s (mem_cons_of_mem _ hs)

end

/-- The types of the MTRRs that cover an address. -/
def coveringTypes (address : Nat) (variableMtrr : List MtrrMemoryRange) : List MtrrMemoryCacheType :=
  (variableMtrr.filter fun r => r.Covers address).map (·.type)

section
variable {address : Nat} {vs : List MtrrMemoryRange} {t : MtrrMemoryCacheType}

theorem coveringTypes_cons {r : MtrrMemoryRange} : coveringTypes address (r :: vs) =
    if r.Covers address then r.type :: coveringTypes address vs else coveringTypes address vs := by
  by_cases hr : r.Covers address <;> simp [hr, coveringTypes]

theorem variableType_spec (hne : t ≠ cacheInvalid)
    (hval : ∀ u ∈ coveringTypes address vs, u ≠ cacheInvalid)
    (hcomb : ∀ u ∈ t :: coveringTypes address vs, ∀ v ∈ t :: coveringTypes address vs, Combinable u v) :
    ∃ u, variableType address vs t = some u ∧ u ≠ cacheInvalid ∧
      Strongest (t :: coveringTypes address vs) u := by
  induction vs generalizing t with
  | nil => exact ⟨t, rfl, hne, by simp [coveringTypes, Strongest]⟩
  | cons r rest ih =>
    rw [variableType]
    rw [coveringTypes_cons] at hval hcomb ⊢
    by_cases hr : r.Covers address
    · rw [if_pos hr] at hval hcomb ⊢
      rw [if_pos hr, if_neg hne]
      obtain ⟨v,hprec,hv⟩ := mtrrLibPrecedence_eq (hcomb t (by simp) r.type (by simp))
      have hvmem : v = t ∨ v = r.type := by simpa using hv.1
      have hvin : ∀ u ∈ v :: coveringTypes address rest, u ∈ t :: r.type :: coveringTypes address rest := by
        intro u hu
        rcases mem_cons.mp hu with rfl | hu
        · rcases hvmem with rfl | rfl <;> simp
        · simp [hu]
      obtain ⟨u,hrun,hune,hu⟩ := ih (t := v) (by
          rcases hvmem with rfl | rfl
          · exact hne
          · exact hval _ (by simp))
        (fun u hu => hval u (mem_cons_of_mem _ hu))
        (fun u hu w hw => hcomb u (hvin u hu) w (hvin w hw))
      exact ⟨u, by rw [hprec]; exact hrun, hune, hv.cons hu⟩
    · rw [if_neg hr] at hval hcomb ⊢
      rw [if_neg hr]
      exact ih hne hval hcomb

theorem variableType_start
    (hval : ∀ u ∈ coveringTypes address vs, u ≠ cacheInvalid)
    (hcomb : ∀ u ∈ coveringTypes address vs, ∀ v ∈ coveringTypes address vs, Combinable u v) :
    coveringTypes address vs = [] ∧ variableType address vs cacheInvalid = some cacheInvalid ∨
      ∃ u, variableType address vs cacheInvalid = some u ∧ u ≠ cacheInvalid ∧
        Strongest (coveringTypes address vs) u := by
  induction vs with
  | nil => exact .inl ⟨rfl, rfl⟩
  | cons r rest ih =>
    rw [variableType]
    rw [coveringTypes_cons] at hval hcomb ⊢
    by_cases hr : r.Covers address
    · rw [if_pos hr] at hval hcomb ⊢
      rw [if_pos hr, if_pos rfl]
      exact .inr (variableType_spec (hval _ (by simp)) (fun u hu => hval u (mem_cons_of_mem _ hu)) hcomb)
    · rw [if_neg hr] at hval hcomb ⊢
      rw [if_neg hr]
      exact ih hval hcomb

end

/-- The calls of `MtrrLibSetMemoryType` that the passes make, in their order. -/
def calls (variableMtrr : List MtrrMemoryRange) : List MtrrMemoryRange :=
  passes.flatMap fun selected => variableMtrr.filter fun r => r.length ≠ 0 ∧ selected r.type

def applyCalls (rangeCapacity : Nat) : List MtrrMemoryRange → List MtrrMemoryRange → Nat →
    Option (EfiStatus × List MtrrMemoryRange × Nat) := applyPass (fun _ => true) rangeCapacity

section
variable {selected : MtrrMemoryCacheType → Bool} {capacity count : Nat}
  {vs xs ys ranges : List MtrrMemoryRange}

theorem applyPass_eq : applyPass selected capacity vs ranges count =
    applyCalls capacity (vs.filter fun r => r.length ≠ 0 ∧ selected r.type) ranges count := by
  induction vs generalizing ranges count with
  | nil => rfl
  | cons r rest ih =>
    rw [applyPass, filter_cons]
    by_cases hr : r.length ≠ 0 ∧ selected r.type = true
    · rw [if_pos hr, if_pos (by simpa using hr), applyCalls, applyPass, if_pos ⟨hr.1, rfl⟩]
      simp only [ih]
      rfl
    · rw [if_neg hr, if_neg (by simpa using hr), ih]

theorem applyCalls_append : applyCalls capacity (xs ++ ys) ranges count =
    (applyCalls capacity xs ranges count).bind fun (status,ranges,count) =>
      if status = .outOfResources then some (status,ranges,count)
      else applyCalls capacity ys ranges count := by
  induction xs generalizing ranges count with
  | nil => rfl
  | cons r rest ih =>
    rw [cons_append, applyCalls, applyPass, applyPass]
    by_cases hr : r.length ≠ 0 ∧ true = true
    · rw [if_pos hr, if_pos hr, Option.bind_assoc]
      congr 1
      funext w
      by_cases hout : w.1 = .outOfResources
      · simp [hout]
      · simp only [hout, if_false]
        exact ih
    · rw [if_neg hr, if_neg hr]
      exact ih

theorem mtrrLibApplyVariableMtrrs_eq : mtrrLibApplyVariableMtrrs vs ranges capacity count =
    applyCalls capacity (calls vs) ranges count := by
  rw [mtrrLibApplyVariableMtrrs, calls]
  generalize passes = ps
  induction ps generalizing ranges count with
  | nil => rfl
  | cons selected ps ih =>
    rw [flatMap_cons, applyCalls_append, applyPasses, applyPass_eq]
    simp only [ih]

end

def lastType (x : Nat) : List MtrrMemoryRange → Option MtrrMemoryCacheType
  | [] => none
  | r :: rest => (lastType x rest).or (if r.baseAddress ≤ x ∧ x < r.limit then some r.type else none)

def Undisplaced (capacity : Nat) : List MtrrMemoryRange → List MtrrMemoryRange → Nat → Prop
  | [], _, _ => True
  | r :: rest, ranges, count =>
    ¬ Displaced (ranges.take count) r.baseAddress r.limit r.type ∧
      match mtrrLibSetMemoryType ranges capacity count r.baseAddress r.length r.type with
      | some (_,ranges',count') => Undisplaced capacity rest ranges' count'
      | none => True

theorem applyCalls_types {b capacity count : Nat} {cs ranges : List MtrrMemoryRange}
    (hcnt : count ≤ capacity) (hcap : capacity ≤ ranges.length)
    (hmem : ranges.length*sizeOfMtrrMemoryRange ≤ 2^64)
    (htile : Tiling 0 (ranges.take count) b) (hb : b < 2^64)
    (hcs : ∀ r ∈ cs, 0 < r.length ∧ r.limit ≤ b) (hmoved : Undisplaced capacity cs ranges count) :
    ∃ status ranges' count', applyCalls capacity cs ranges count = some (status,ranges',count') ∧
      (status = .outOfResources ∨ status = .success ∧ ∀ x,
        typeAt (ranges'.take count') x = (lastType x cs).or (typeAt (ranges.take count) x)) := by
  induction cs generalizing ranges count with
  | nil => exact ⟨_, _, _, rfl, .inr ⟨rfl, fun x => rfl⟩⟩
  | cons r rest ih =>
    obtain ⟨hlength,hlim⟩ := hcs r mem_cons_self
    obtain ⟨status,ranges',count',hcall,hcount',htiling',htypes⟩ :=
      mtrrLibSetMemoryType_types r.type hcnt hcap hmem htile hb hlength
        (Nat.zero_le _) hlim
    obtain ⟨hnot,hrest⟩ := hmoved
    rw [hcall] at hrest
    have hlen := mtrrLibSetMemoryType_length hcall
    rw [applyCalls, applyPass, if_pos ⟨by omega, rfl⟩, hcall, Option.bind_some]
    by_cases hout : status = .outOfResources
    · exact ⟨_, _, _, if_pos hout, .inl hout⟩
    obtain ⟨status'',ranges'',count'',hrun,hres⟩ := ih hcount' (by omega)
      (by rw [hlen]; exact hmem) htiling' (fun s hs => hcs s (mem_cons_of_mem _ hs))
      hrest
    refine ⟨status'', ranges'', count'', ?_, ?_⟩
    · simp only [if_neg hout]
      exact hrun
    · rcases hres with hfull | ⟨hok,hat⟩
      · exact .inl hfull
      refine .inr ⟨hok, fun x => ?_⟩
      rw [hat, htypes hout hnot, lastType, Option.or_assoc]
      congr 1
      show (if r.baseAddress ≤ x ∧ x < r.limit then _ else _) = _
      split <;> rfl

theorem lastType_spec {x : Nat} {cs : List MtrrMemoryRange}
    (hsort : cs.Pairwise fun r s => strength r.type ≤ strength s.type) :
    (lastType x cs = none ∧ ∀ r ∈ cs, ¬ (r.baseAddress ≤ x ∧ x < r.limit)) ∨
      ∃ r ∈ cs, (r.baseAddress ≤ x ∧ x < r.limit) ∧ lastType x cs = some r.type ∧
        ∀ s ∈ cs, s.baseAddress ≤ x ∧ x < s.limit → strength s.type ≤ strength r.type := by
  induction cs with
  | nil => exact .inl ⟨rfl, by simp⟩
  | cons r rest ih =>
    obtain ⟨hfst,hrest⟩ := pairwise_cons.mp hsort
    rcases ih hrest with ⟨hnone,hall⟩ | ⟨s,hs,hcover,hlast,hmax⟩
    · by_cases hr : r.baseAddress ≤ x ∧ x < r.limit
      · right
        refine ⟨r, mem_cons_self, hr, ?_, ?_⟩
        · rw [lastType, hnone, if_pos hr]
          rfl
        · intro s hs hcover
          rcases mem_cons.mp hs with rfl | hs
          · exact le_rfl
          · exact absurd hcover (hall s hs)
      · left
        constructor
        · rw [lastType, hnone, if_neg hr]
          rfl
        · intro s hs
          rcases mem_cons.mp hs with rfl | hs
          · exact hr
          · exact hall s hs
    · right
      refine ⟨s, mem_cons_of_mem _ hs, hcover, ?_, ?_⟩
      · rw [lastType, hlast]
        rfl
      · intro u hu hucover
        rcases mem_cons.mp hu with rfl | hu
        · exact hfst s hs
        · exact hmax u hu hucover

theorem passes_eq : passes = [0, 1, 2].map fun k type => decide (strength type = k) := by
  have hne : cacheWriteBack ≠ cacheUncacheable := by decide
  have hweak : ∀ t : MtrrMemoryCacheType, t = cacheWriteBack ↔ strength t = 0 := fun t => by
    by_cases huc : t = cacheUncacheable
    · subst huc
      decide
    · by_cases hwb : t = cacheWriteBack <;> simp [strength, huc, hwb, hne]
  have hstrong : ∀ t : MtrrMemoryCacheType, t = cacheUncacheable ↔ strength t = 2 := fun t => by
    by_cases huc : t = cacheUncacheable
    · simp [strength, huc]
    · by_cases hwb : t = cacheWriteBack <;> simp [strength, huc, hwb, hne]
  have hother : ∀ t : MtrrMemoryCacheType, t ≠ cacheWriteBack ∧ t ≠ cacheUncacheable ↔
      strength t = 1 := fun t => by
    by_cases huc : t = cacheUncacheable
    · simp [strength, huc]
    · by_cases hwb : t = cacheWriteBack <;> simp [strength, huc, hwb, hne]
  simp only [passes, map_cons, map_nil, hother, hweak, hstrong]

theorem calls_eq (vs : List MtrrMemoryRange) : calls vs =
    [0, 1, 2].flatMap fun k => vs.filter fun r => r.length ≠ 0 ∧ strength r.type = k := by
  rw [calls, passes_eq, flatMap_map]
  simp only [decide_eq_true_eq]

theorem calls_sorted (vs : List MtrrMemoryRange) :
    (calls vs).Pairwise fun r s => strength r.type ≤ strength s.type := by
  have hmem : ∀ k, ∀ r ∈ vs.filter (fun r => r.length ≠ 0 ∧ strength r.type = k),
      strength r.type = k := fun k r hr => (of_decide_eq_true (mem_filter.mp hr).2).2
  rw [calls_eq, pairwise_flatMap]
  constructor
  · intro k _
    apply pairwise_of_forall_mem_list
    intro r hr s hs
    rw [hmem k r hr, hmem k s hs]
  · refine (by decide : List.Pairwise (· ≤ ·) [0, 1, 2]).imp ?_
    intro j k hjk r hr s hs
    rw [hmem j r hr, hmem k s hs]
    exact hjk

theorem mem_calls {vs : List MtrrMemoryRange} {r : MtrrMemoryRange} :
    r ∈ calls vs ↔ r ∈ vs ∧ r.length ≠ 0 := by
  rw [calls_eq, mem_flatMap]
  constructor
  · rintro ⟨k,-,hr⟩
    have hr := mem_filter.mp hr
    exact ⟨hr.1, (of_decide_eq_true hr.2).1⟩
  · rintro ⟨hr,hlen⟩
    refine ⟨strength r.type, ?_, mem_filter.mpr ⟨hr, decide_eq_true ⟨hlen, rfl⟩⟩⟩
    rw [strength]
    split
    · simp
    · split <;> simp

def NaturallyAligned (r : MtrrMemoryRange) : Prop := ∃ k, r.length = 2^k ∧ 2^k ∣ r.baseAddress

/-- The variable MTRRs in use are naturally aligned, have a type, and overlap only where their types
may meet. -/
structure WellFormed (variableMtrr : List MtrrMemoryRange) : Prop where
  aligned : ∀ r ∈ variableMtrr, r.length ≠ 0 → NaturallyAligned r
  overlaps : ∀ r ∈ variableMtrr, ∀ s ∈ variableMtrr, (∃ x, r.Covers x ∧ s.Covers x) → Combinable r.type s.type

section
variable {physicalAddressBits : Nat} {settings : List MtrrVariableSetting} {r : MtrrMemoryRange}

section
variable (hr : r ∈ mtrrLibGetRawVariableRanges physicalAddressBits settings)
include hr

theorem rawVariableRange_bounds :
    r.baseAddress < 2^physicalAddressBits ∧ r.length ≤ 2^physicalAddressBits := by
  obtain ⟨s,-,rfl⟩ := mem_map.mp hr
  have hpow : 0 < 2^physicalAddressBits := Nat.two_pow_pos _
  rw [rawVariableRange]
  split
  · constructor
    · have hmask : s.base &&& mtrrValidAddressMask physicalAddressBits ≤
          mtrrValidBitsMask physicalAddressBits := le_trans Nat.and_le_right Nat.and_le_left
      rw [mtrrValidBitsMask] at hmask
      show s.base &&& mtrrValidAddressMask physicalAddressBits < _
      omega
    · refine le_trans (Nat.mod_le _ _) ?_
      have hmask : complement 64 (s.mask &&& mtrrValidAddressMask physicalAddressBits) &&&
          mtrrValidBitsMask physicalAddressBits ≤ mtrrValidBitsMask physicalAddressBits := Nat.and_le_right
      rw [mtrrValidBitsMask] at hmask ⊢
      omega
  · exact ⟨hpow, Nat.zero_le _⟩

theorem limit_le (hal : NaturallyAligned r) : r.limit ≤ 2^physicalAddressBits := by
  obtain ⟨hbase,hlen⟩ := rawVariableRange_bounds hr
  obtain ⟨k,hk,q,hq⟩ := hal
  rw [hk] at hlen
  have hle : k ≤ physicalAddressBits := (Nat.pow_le_pow_iff_right (by decide)).mp hlen
  obtain ⟨m,hm⟩ := Nat.pow_dvd_pow 2 hle
  have hqm : q < m := by
    rw [hq, hm] at hbase
    exact Nat.lt_of_mul_lt_mul_left hbase
  have hstep : 2^k * (q+1) ≤ 2^k*m := Nat.mul_le_mul_left _ hqm
  rw [MtrrMemoryRange.limit, hk, hq, hm]
  exact hstep

end

end

theorem mtrrGetMemoryAttributeByAddressWorker_eq {physicalAddressBits address : Nat}
    {mtrrSetting : MtrrSettings} (henabled : defTypeE mtrrSetting.mtrrDefType = true)
    (hlow : 0x100000 ≤ address) :
    mtrrGetMemoryAttributeByAddressWorker physicalAddressBits mtrrSetting address = (variableType address
        (mtrrLibGetRawVariableRanges physicalAddressBits mtrrSetting.variableMtrr)
        cacheInvalid).map fun mtrrType =>
          if mtrrType = cacheInvalid then defTypeType mtrrSetting.mtrrDefType else mtrrType := by
  have hfixed : ¬ (address < 0x100000 ∧ defTypeFE mtrrSetting.mtrrDefType = true) := by omega
  simp only [mtrrGetMemoryAttributeByAddressWorker, henabled, Bool.true_eq_false, if_false, if_neg hfixed]

instance decidableUndisplaced (capacity : Nat) : (cs ranges : List MtrrMemoryRange) →
    (count : Nat) → Decidable (Undisplaced capacity cs ranges count)
  | [], _, _ => .isTrue trivial
  | r :: rest, ranges, count =>
    match hcall : mtrrLibSetMemoryType ranges capacity count r.baseAddress r.length r.type with
    | none =>
      decidable_of_iff (¬ Displaced (ranges.take count) r.baseAddress r.limit r.type) (by
        rw [Undisplaced, hcall]
        simp)
    | some w =>
      have := decidableUndisplaced capacity rest w.2.1 w.2.2
      decidable_of_iff (¬ Displaced (ranges.take count) r.baseAddress r.limit r.type ∧
        Undisplaced capacity rest w.2.1 w.2.2) (by rw [Undisplaced, hcall])

/-- The registers of an MTRR with 36 physical address bits. -/
def registers (baseAddress length type : Nat) : MtrrVariableSetting := ⟨baseAddress+type, 2^36-length + 0x800⟩

/-- Five write-back pages, and 32 KiB of write-through over two of them. -/
def overlappingMtrrs : MtrrSettings :=
  { fixed := []
    variableMtrr := [registers 0x0FFF000 0x1000 cacheWriteBack,
      registers 0x1001000 0x1000 cacheWriteBack, registers 0x1003000 0x1000 cacheWriteBack,
      registers 0x1010000 0x1000 cacheWriteBack, registers 0x1012000 0x1000 cacheWriteBack,
      registers 0x1000000 0x8000 cacheWriteThrough]
    mtrrDefType := 0xC00 }

/-- `WorkingRanges`: one range of the default type, which is uncacheable, in an array of 66. -/
def workingRanges : List MtrrMemoryRange :=
  ⟨0, mtrrValidBitsMask 36 + 1, cacheUncacheable⟩ :: replicate 65 ⟨0, 0, cacheUncacheable⟩

/-- 16 MiB of write-back with an uncacheable MiB inside. -/
def nestedMtrrs : MtrrSettings :=
  { fixed := []
    variableMtrr := [registers 0x1000000 0x1000000 cacheWriteBack,
      registers 0x1400000 0x100000 cacheUncacheable]
    mtrrDefType := 0xC00 }

end Liano.Mtrr
