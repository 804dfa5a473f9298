import Liano.Gcd.Conversion

/-! The attributes that `CoreConvertSpace` carries from entry to entry where it keeps the CPU
attributes, and the addresses of a range. -/
namespace Liano.Gcd

open List hiding lookup range

open Liano.Lib

/-- The attributes `x` are among `y`. -/
def Within (x y : BitVec 64) : Prop := x &&& y = x

instance (x y : BitVec 64) : Decidable (Within x y) := inferInstanceAs (Decidable (_ = _))

section
variable {x y z : BitVec 64}

theorem within_iff : Within x y ↔ ∀ i, x.getLsbD i = true → y.getLsbD i = true := by
  constructor
  · intro h i hx
    rw [← h, BitVec.getLsbD_and, Bool.and_eq_true] at hx
    exact hx.2
  · intro h
    refine BitVec.eq_of_getLsbD_eq fun i _ => ?_
    rw [BitVec.getLsbD_and]
    cases hx : x.getLsbD i with
    | false => rfl
    | true => rw [h i hx, Bool.and_self]

theorem within_or_left : Within (x ||| y) z ↔ Within x z ∧ Within y z := by
  simp only [within_iff, BitVec.getLsbD_or, Bool.or_eq_true]
  constructor
  · exact fun h => ⟨fun i hi => h i (.inl hi), fun i hi => h i (.inr hi)⟩
  · exact fun h i hi => hi.elim (h.1 i) (h.2 i)

theorem within_or_right (h : Within x y) : Within x (y ||| z) := by
  rw [within_iff] at h ⊢
  intro i hi
  rw [BitVec.getLsbD_or, h i hi, Bool.true_or]

theorem within_or_self : Within y (x ||| y) := by
  rw [within_iff]
  intro i hi
  rw [BitVec.getLsbD_or, hi, Bool.or_true]

theorem Within.trans (hxy : Within x y) (hyz : Within y z) : Within x z := by
  rw [within_iff] at *
  exact fun i hi => hyz i (hxy i hi)

theorem within_and_left : Within (x &&& y) x := by
  rw [within_iff]
  intro i hi
  rw [BitVec.getLsbD_and, Bool.and_eq_true] at hi
  exact hi.1

theorem or_eq_iff (h : Within x y) : y ||| z = x ||| z ↔ Within y (x ||| z) := by
  constructor
  · intro heq
    rw [← heq, within_iff]
    intro i hi
    rw [BitVec.getLsbD_or, hi, Bool.true_or]
  · intro hy
    rw [within_iff] at h hy
    refine BitVec.eq_of_getLsbD_eq fun i _ => ?_
    have hyi := hy i
    rw [BitVec.getLsbD_or] at hyi ⊢
    rw [BitVec.getLsbD_or]
    have hxi := h i
    cases hz : z.getLsbD i with
    | true => rw [Bool.or_true, Bool.or_true]
    | false =>
      rw [hz, Bool.or_false] at hyi
      rw [Bool.or_false, Bool.or_false, Bool.eq_iff_iff]
      exact ⟨hyi, hxi⟩

end

def cpuAttributes (d : GcdDescriptor) : BitVec 64 :=
  d.attributes &&& (exclusiveMemoryAttributes ||| nonexclusiveMemoryAttributes)

/-- The requested attributes, with the entry's own CPU attributes. -/
def keepCpuAttributes (attributes : BitVec 64) (d : GcdDescriptor) : GcdDescriptor :=
  { d with attributes := attributes ||| cpuAttributes d }

/-- Setting attributes that are no CPU attributes, with `Attributes` as it is then. -/
def carryAttributes (attributes : BitVec 64) (d : GcdDescriptor) : BitVec 64 × GcdDescriptor :=
  (attributes ||| cpuAttributes d, keepCpuAttributes attributes d)

section
variable {attrs s : BitVec 64} {xs : List GcdMapEntry}

theorem keepCpuAttributes_eq_iff (h : Within attrs s) (d : GcdDescriptor) :
    keepCpuAttributes s d = keepCpuAttributes attrs d ↔ Within s (attrs ||| cpuAttributes d) := by
  rw [← or_eq_iff h, keepCpuAttributes, keepCpuAttributes, GcdDescriptor.mk.injEq]
  simp only [and_self, and_true, true_and]

theorem thread_carryAttributes_iff (h : Within attrs s) : thread carryAttributes s xs =
        xs.map (fun e => { e with value := keepCpuAttributes attrs e.value }) ↔
      (∀ e ∈ xs, Within s (attrs ||| cpuAttributes e.value)) ∧ xs.Pairwise fun e f =>
        Within (cpuAttributes e.value) (attrs ||| cpuAttributes f.value) := by
  induction xs generalizing s with
  | nil => simp [thread]
  | cons e xs ih =>
    rw [thread, map_cons, cons.injEq, carryAttributes, ih (within_or_right h),
      Segment.mk.injEq, keepCpuAttributes_eq_iff h, pairwise_cons, forall_mem_cons]
    simp only [true_and, within_or_left]
    constructor
    · intro hall
      obtain ⟨he,hxs,hpairs⟩ := hall
      exact ⟨⟨he, fun f hf => (hxs f hf).1⟩, fun f hf => (hxs f hf).2, hpairs⟩
    · intro hall
      obtain ⟨⟨he,hs⟩,hcpu,hpairs⟩ := hall
      exact ⟨he, fun f hf => ⟨hs f hf, hcpu f hf⟩, hpairs⟩

end

section
variable {range : List GcdMapEntry} {baseAddress last a b : Nat}

theorem exists_address (htiles : Tiles a range b) (hle : baseAddress ≤ last) {e : GcdMapEntry}
    (he : e ∈ range) (hmeets : baseAddress ≤ e.endAddress ∧ e.baseAddress ≤ last) :
    ∃ x, (baseAddress ≤ x ∧ x ≤ last) ∧ e.Holds x := by
  have hseg := (htiles.end_of_mem he).1
  refine ⟨Nat.max baseAddress e.baseAddress, ⟨le_max_left _ _, Nat.max_le.mpr ⟨hle, hmeets.2⟩⟩,
    le_max_right _ _, Nat.max_le.mpr ⟨hmeets.1, hseg⟩⟩

variable {f : GcdDescriptor → GcdDescriptor}

theorem lookup_map_values {x : Nat} :
    lookup (range.map fun e => { e with value := f e.value }) x = (lookup range x).map f := by
  induction range with
  | nil => rfl
  | cons e range ih =>
    rw [map_cons, lookup, lookup, ih]
    by_cases hin : e.Holds x
    · rw [if_pos (by exact hin), if_pos hin]
      rfl
    · rw [if_neg (by exact hin), if_neg hin]

theorem thread_eq_map_iff {σ : Type} {change : σ → GcdDescriptor → σ × GcdDescriptor} {s : σ}
    (htiles : Tiles a range b) (hle : baseAddress ≤ last)
    (hmeets : ∀ e ∈ range, baseAddress ≤ e.endAddress ∧ e.baseAddress ≤ last) :
    (∀ x, baseAddress ≤ x ∧ x ≤ last → lookup (thread change s range) x = (lookup range x).map f) ↔
      thread change s range = range.map fun e => { e with value := f e.value } := by
  constructor
  · intro h
    induction range generalizing a s with
    | nil => rfl
    | cons e range ih =>
      rw [thread, map_cons, cons.injEq]
      obtain ⟨x,hx,hin⟩ := exists_address htiles hle mem_cons_self
        (hmeets e mem_cons_self)
      constructor
      · have hval := h x hx
        rw [thread, lookup, lookup, if_pos (by exact hin), if_pos hin, Option.map_some,
          Option.some.injEq] at hval
        rw [← hval]
      · refine ih htiles.2.2 (fun f hf => hmeets f (mem_cons_of_mem _ hf)) fun y hy => ?_
        have hval := h y hy
        rw [thread, lookup, lookup] at hval
        by_cases hiny : e.Holds y
        · have hlt : y < e.endAddress+1 := Nat.lt_succ_of_le hiny.2
          rw [lookup_eq_none_of_lt htiles.2.2 hlt, lookup_eq_none_of_lt (tiles_thread htiles.2.2) hlt]
          rfl
        · rw [if_neg (by exact hiny), if_neg hiny] at hval
          exact hval
  · intro h x _
    rw [h, lookup_map_values]

theorem pairwise_iff_addresses {r : GcdDescriptor → GcdDescriptor → Prop} (hrefl : ∀ d, r d d)
    (htiles : Tiles a range b) (hle : baseAddress ≤ last)
    (hmeets : ∀ e ∈ range, baseAddress ≤ e.endAddress ∧ e.baseAddress ≤ last) :
    (range.Pairwise fun e f => r e.value f.value) ↔
      ∀ x y, baseAddress ≤ x → x ≤ y → y ≤ last → ∀ d d', lookup range x = some d →
        lookup range y = some d' → r d d' := by
  induction range generalizing a with
  | nil =>
    refine iff_of_true List.Pairwise.nil fun x y _ _ _ d d' hd => ?_
    cases hd
  | cons e range ih =>
    have hmeets' : ∀ f ∈ range, baseAddress ≤ f.endAddress ∧ f.baseAddress ≤ last := fun f hf =>
      hmeets f (mem_cons_of_mem _ hf)
    rw [pairwise_cons, ih htiles.2.2 hmeets']
    constructor
    · intro h x y hx hxy hy d d' hd hd'
      rw [lookup] at hd hd'
      by_cases hiny : e.Holds y
      · rw [if_pos hiny, Option.some.injEq] at hd'
        by_cases hinx : e.Holds x
        · rw [if_pos hinx, Option.some.injEq] at hd
          rw [← hd, ← hd']
          exact hrefl _
        -- an address before `y` is not behind this entry
        rw [if_neg hinx, lookup_eq_none_of_lt htiles.2.2
          (Nat.lt_succ_of_le (le_trans hxy hiny.2))] at hd
        cases hd
      · rw [if_neg hiny] at hd'
        by_cases hinx : e.Holds x
        · rw [if_pos hinx, Option.some.injEq] at hd
          obtain ⟨f,hf,-,hfv⟩ := mem_of_lookup hd'
          rw [← hd, ← hfv]
          exact h.1 f hf
        · rw [if_neg hinx] at hd
          exact h.2 x y hx hxy hy d d' hd hd'
    · intro h
      constructor
      · intro f hf
        obtain ⟨x,hx,hinx⟩ := exists_address htiles hle mem_cons_self
          (hmeets e mem_cons_self)
        obtain ⟨y,hy,hiny⟩ := exists_address htiles hle (mem_cons_of_mem _ hf)
          (hmeets' f hf)
        have hbeh := htiles.2.2.le_of_mem hf
        refine h x y hx.1 ?_ hy.2 _ _ (lookup_of_mem htiles mem_cons_self hinx)
          (lookup_of_mem htiles (mem_cons_of_mem _ hf) hiny)
        have h1 := hinx.2
        have h2 := hiny.1
        omega
      · intro x y hx hxy hy d d' hd hd'
        have hbeh : ∀ z v, lookup range z = some v → ¬ e.Holds z := by
          intro z v hz hin
          rw [lookup_eq_none_of_lt htiles.2.2 (Nat.lt_succ_of_le hin.2)] at hz
          cases hz
        refine h x y hx hxy hy d d' ?_ ?_
        · rw [lookup, if_neg (hbeh x d hd), hd]
        · rw [lookup, if_neg (hbeh y d' hd'), hd']

end

end Liano.Gcd
