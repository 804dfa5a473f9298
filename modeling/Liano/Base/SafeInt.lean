import Liano.Efi
import Liano.Lib.Masks
import Mathlib.Tactic.Linarith
import Mathlib.Tactic.Ring

/-! The 64-bit sums, differences and products of BaseSafeIntLib. `Result` is the cell the caller
passes, `none` for a null pointer. An operation on signed numbers has a result only when the exact
one is an `INT64`; a function with one that overflows has none. -/
namespace Liano.SafeInt

def uint64Error : UInt64 := 0xffffffffffffffff

def int64Error : Int64 := -1

def maxInt64 : Int64 := 0x7fffffffffffffff

def minInt64 : Int64 := -9223372036854775807 - 1

def minInt64Magnitude : UInt64 := (-(minInt64+1)).toUInt64 + 1

/-- A signed operation whose exact result is `n`. -/
def signed (n : Int) : Option Int64 :=
  if minInt64.toInt ≤ n ∧ n ≤ maxInt64.toInt then some (Int64.ofInt n) else none

def safeUint64Add (augend addend : UInt64) (result : Option UInt64) : EfiStatus × Option UInt64 :=
  if result = none then (.invalidParameter, none)
  else if augend+addend ≥ augend then (.success, some (augend+addend))
  else (.bufferTooSmall, some uint64Error)

def safeUint64Mult (multiplicand multiplier : UInt64) (result : Option UInt64) :
    EfiStatus × Option UInt64 := if result = none then (.invalidParameter, none)
  else
    let dwordA := (multiplicand >>> 32).toUInt32
    let dwordC := (multiplier >>> 32).toUInt32
    let dwordB := multiplicand.toUInt32
    let dwordD := multiplier.toUInt32
    let productAD := dwordA.toUInt64*dwordD.toUInt64
    let productBC := dwordB.toUInt64*dwordC.toUInt64
    let productBD := dwordB.toUInt64*dwordD.toUInt64
    if dwordA = 0 ∧ dwordC = 0 then (.success, some productBD)
    else if (dwordA = 0 ∨ dwordC = 0) ∧ productAD &&& 0xffffffff00000000 = 0 ∧
        productBC &&& 0xffffffff00000000 = 0 then
      match safeUint64Add (productBC <<< 32) (productAD <<< 32) (some 0) with
      | (.success, some unsignedResult) =>
        match safeUint64Add unsignedResult productBD (some unsignedResult) with
        | (.success, some unsignedResult) => (.success, some unsignedResult)
        | _ => (.bufferTooSmall, some uint64Error)
      | _ => (.bufferTooSmall, some uint64Error)
    else (.bufferTooSmall, some uint64Error)

def safeInt64Add (augend addend : Int64) (result : Option Int64) : Option (EfiStatus × Option Int64) := do
  if result = none then return (.invalidParameter, none)
  if addend > 0 then
    if augend > (← signed (maxInt64.toInt-addend.toInt)) then
      return (.bufferTooSmall, some int64Error)
  if addend < 0 then
    if augend < (← signed (minInt64.toInt-addend.toInt)) then
      return (.bufferTooSmall, some int64Error)
  return (.success, some (← signed (augend.toInt+addend.toInt)))

def safeInt64Sub (minuend subtrahend : Int64) (result : Option Int64) :
    Option (EfiStatus × Option Int64) := do
  if result = none then return (.invalidParameter, none)
  if subtrahend > 0 then
    if minuend < (← signed (minInt64.toInt+subtrahend.toInt)) then
      return (.bufferTooSmall, some int64Error)
  if subtrahend < 0 then
    if minuend > (← signed (maxInt64.toInt+subtrahend.toInt)) then
      return (.bufferTooSmall, some int64Error)
  return (.success, some (← signed (minuend.toInt-subtrahend.toInt)))

def magnitude (x : Int64) : Option UInt64 := do
  if x < 0 then
    let next ← signed (x.toInt+1)
    return (← signed (-next.toInt)).toUInt64 + 1
  return x.toUInt64

def safeInt64Mult (multiplicand multiplier : Int64) (result : Option Int64) :
    Option (EfiStatus × Option Int64) := do
  if result = none then return (.invalidParameter, none)
  let unsignedMultiplicand ← magnitude multiplicand
  let unsignedMultiplier ← magnitude multiplier
  match safeUint64Mult unsignedMultiplicand unsignedMultiplier (some 0) with
  | (.success, some unsignedResult) =>
    if (multiplicand < 0) ≠ (multiplier < 0) then
      if unsignedResult > minInt64Magnitude then return (.bufferTooSmall, some int64Error)
      if unsignedResult = minInt64Magnitude then return (.success, some minInt64)
      return (.success, some (← signed (-unsignedResult.toInt64.toInt)))
    if unsignedResult > maxInt64.toUInt64 then return (.bufferTooSmall, some int64Error)
    return (.success, some unsignedResult.toInt64)
  | (status,_) => return (status, some int64Error)

/-- An outcome is exact for the result `n` of the operation: it succeeds if and only if a value of the result
type is `n`, and stores that value, or else the error value. -/
structure Exact {α : Type} (value : α → Int) (error : α) (n : Int)
    (outcome : EfiStatus × Option α) : Prop where
  success_iff : outcome.1 = .success ↔ ∃ x, value x = n
  stored : outcome.1 = .success → ∃ x, outcome.2 = some x ∧ value x = n
  failed : outcome.1 ≠ .success → outcome = (.bufferTooSmall, some error)

section Exact
variable {α : Type} {value : α → Int} {error : α} {n : Int}

theorem Exact.of_value {x : α} (h : value x = n) : Exact value error n (.success, some x) where
  success_iff := ⟨fun _ => ⟨x, h⟩, fun _ => rfl⟩
  stored := fun _ => ⟨x, rfl, h⟩
  failed := fun hne => absurd rfl hne

theorem Exact.of_not (h : ∀ x, value x ≠ n) : Exact value error n (.bufferTooSmall, some error) where
  success_iff := ⟨nofun, fun ⟨x, hx⟩ => absurd hx (h x)⟩
  stored := nofun
  failed := fun _ => rfl

end Exact

theorem safeUint64Add_some (a b r : UInt64) : safeUint64Add a b (some r) =
      if a.toNat+b.toNat < 2^64 then (.success, some (a+b))
      else (.bufferTooSmall, some uint64Error) := by
  have hb := b.toNat_lt
  have hle : a+b ≥ a ↔ a.toNat+b.toNat < 2^64 := by
    rw [ge_iff_le, UInt64.le_iff_toNat_le, UInt64.toNat_add]
    omega
  simp only [safeUint64Add, reduceCtorEq, if_false, hle]

theorem toNat_highDword (x : UInt64) : (x >>> 32).toUInt32.toNat = x.toNat / 2^32 := by
  have hx := x.toNat_lt
  have hs : (x >>> 32).toNat = x.toNat / 2^32 := by
    simp [UInt64.toNat_shiftRight, Nat.shiftRight_eq_div_pow]
  rw [UInt64.toNat_toUInt32, hs]
  omega

theorem toNat_dwordProduct (a b : UInt32) : (a.toUInt64*b.toUInt64).toNat = a.toNat*b.toNat := by
  have hlt : a.toNat*b.toNat < 2^32 * 2^32 := Nat.mul_lt_mul'' a.toNat_lt b.toNat_lt
  exact Nat.mod_eq_of_lt hlt

theorem highDword_clear (p : UInt64) : p &&& 0xffffffff00000000 = 0 ↔ p.toNat < 2^32 := by
  have hp := p.toNat_lt
  have hmask : Lib.complement 64 (2^32-1) = 0xffffffff00000000 := rfl
  have hand := Lib.and_complement (k := 32) (by decide) hp
  rw [hmask] at hand
  rw [← UInt64.toNat_inj, UInt64.toNat_and]
  change p.toNat &&& 0xffffffff00000000 = 0 ↔ _
  omega

theorem toNat_shiftDword {p : UInt64} (h : p.toNat < 2^32) : (p <<< 32).toNat = p.toNat * 2^32 := by
  change p.toNat <<< 32 % 2^64 = _
  omega

theorem toNat_mul_dwords (a b : UInt64) : a.toNat*b.toNat = a.toNat / 2^32 * (b.toNat / 2^32) * 2^64 +
        (a.toNat / 2^32 * (b.toNat % 2^32) + a.toNat % 2^32 * (b.toNat / 2^32)) * 2^32 +
        a.toNat % 2^32 * (b.toNat % 2^32) := by
  conv_lhs => rw [← Nat.div_add_mod a.toNat (2^32), ← Nat.div_add_mod b.toNat (2^32)]
  ring

theorem safeUint64Mult_some (a b r : UInt64) : safeUint64Mult a b (some r) =
      if a.toNat*b.toNat < 2^64 then (.success, some (a*b))
      else (.bufferTooSmall, some uint64Error) := by
  have hsplit := toNat_mul_dwords a b
  have hmul : (a*b).toNat = a.toNat*b.toNat % 2^64 := UInt64.toNat_mul a b
  have hbd : a.toNat % 2^32 * (b.toNat % 2^32) < 2^32 * 2^32 :=
    Nat.mul_lt_mul'' (Nat.mod_lt _ (by decide)) (Nat.mod_lt _ (by decide))
  have hBD := toNat_dwordProduct a.toUInt32 b.toUInt32
  have hAD := toNat_dwordProduct (a >>> 32).toUInt32 b.toUInt32
  have hBC := toNat_dwordProduct a.toUInt32 (b >>> 32).toUInt32
  have hA := toNat_highDword a
  have hC := toNat_highDword b
  rw [UInt64.toNat_toUInt32, UInt64.toNat_toUInt32] at hBD
  rw [hA, UInt64.toNat_toUInt32] at hAD
  rw [hC, UInt64.toNat_toUInt32] at hBC
  simp only [safeUint64Mult, reduceCtorEq, if_false, highDword_clear, ← UInt32.toNat_inj, hA, hC,
    hAD, hBC, safeUint64Add_some, UInt32.toNat_zero]
  by_cases hlow : a.toNat / 2^32 = 0 ∧ b.toNat / 2^32 = 0
  · have hprod : a.toNat*b.toNat = a.toNat % 2^32 * (b.toNat % 2^32) := by
      rw [hsplit, hlow.1, hlow.2]
      omega
    have heq : a.toUInt32.toUInt64*b.toUInt32.toUInt64 = a*b := by
      rw [← UInt64.toNat_inj]
      omega
    rw [if_pos hlow, if_pos (by omega), heq]
  · rw [if_neg hlow]
    by_cases hfit : (a.toNat / 2^32 = 0 ∨ b.toNat / 2^32 = 0) ∧
        a.toNat / 2^32 * (b.toNat % 2^32) < 2^32 ∧ a.toNat % 2^32 * (b.toNat / 2^32) < 2^32
    · obtain ⟨hzero,hADlt,hBClt⟩ := hfit
      have hAC : a.toNat / 2^32 * (b.toNat / 2^32) = 0 := Nat.mul_eq_zero.mpr hzero
      -- one of the middle products is zero, so that their sum stays below 2 ^ 32
      have hone : a.toNat / 2^32 * (b.toNat % 2^32) = 0 ∨ a.toNat % 2^32 * (b.toNat / 2^32) = 0 :=
        hzero.imp (fun h => Nat.mul_eq_zero.mpr (.inl h)) fun h => Nat.mul_eq_zero.mpr (.inr h)
      have hBCs := toNat_shiftDword (hBC ▸ hBClt)
      have hADs := toNat_shiftDword (hAD ▸ hADlt)
      have hmid : (a.toUInt32.toUInt64 * (b >>> 32).toUInt32.toUInt64) <<< 32 +
          ((a >>> 32).toUInt32.toUInt64 * b.toUInt32.toUInt64) <<< 32 +
          a.toUInt32.toUInt64*b.toUInt32.toUInt64 = a*b := by
        rw [← UInt64.toNat_inj, UInt64.toNat_add, UInt64.toNat_add, hBCs, hADs]
        omega
      rw [if_pos ⟨hzero, hADlt, hBClt⟩, hBCs, hADs, if_pos (by omega)]
      simp only [hmid, UInt64.toNat_add, hBCs, hADs, hBD]
      by_cases hprod : a.toNat*b.toNat < 2^64
      · rw [if_pos hprod, if_pos (by omega)]
      · rw [if_neg hprod, if_neg (by omega)]
    · have hprod : ¬ a.toNat * b.toNat < 2^64 := by
        rw [not_and_or, not_or, Classical.not_and_iff_not_or_not] at hfit
        rcases hfit with ⟨hA0,hC0⟩ | h | h
        · have hpos := mul_pos (Nat.pos_of_ne_zero hA0) (Nat.pos_of_ne_zero hC0)
          omega
        · omega
        · omega
      rw [if_neg hfit, if_neg hprod]

theorem signed_of {n : Int} (hlow : -2^63 ≤ n) (hhigh : n < 2^63) : ∃ x, signed n = some x ∧ x.toInt = n :=
  ⟨Int64.ofInt n, if_pos ⟨hlow, Int.le_of_lt_add_one hhigh⟩, Int64.toInt_ofInt_of_le hlow hhigh⟩

theorem toNat_toUInt64 (x : Int64) :
    (x.toUInt64.toNat : Int) = if x.toInt < 0 then x.toInt + 2^64 else x.toInt := by
  have hx := x.toUInt64.toNat_lt
  have hint : x.toInt = if 2*x.toUInt64.toNat < 2^64 then (x.toUInt64.toNat : Int)
      else (x.toUInt64.toNat : Int) - (2^64 : Nat) := BitVec.toInt_eq_toNat_cond x.toBitVec
  split at hint <;> split <;> omega

theorem toInt_ne {n : Int} (h : n < -2^63 ∨ 2^63 ≤ n) (x : Int64) : x.toInt ≠ n := by
  have hlow := x.le_toInt
  have hhigh := x.toInt_lt
  omega

/-- What is asked of a signed function: it has an outcome, and that is exact for `n`. -/
def ExactInt64 (n : Int) (outcome : Option (EfiStatus × Option Int64)) : Prop :=
  ∃ o, outcome = some o ∧ Exact Int64.toInt int64Error n o

theorem exactInt64_signed {n : Int} (hlow : -2^63 ≤ n) (hhigh : n < 2^63) :
    ExactInt64 n (signed n >>= fun x => pure (.success, some x)) := by
  obtain ⟨x,hx,hxn⟩ := signed_of hlow hhigh
  exact ⟨_, by rw [hx]; rfl, Exact.of_value hxn⟩

theorem exactInt64_error {n : Int} (h : n < -2^63 ∨ 2^63 ≤ n) :
    ExactInt64 n (pure (.bufferTooSmall, some int64Error)) := ⟨_, rfl, Exact.of_not (toInt_ne h)⟩

theorem exactInt64_guarded {n bound : Int} {exceeds : Int64 → Prop} [DecidablePred exceeds]
    (hlow : -2^63 ≤ bound) (hhigh : bound < 2^63)
    (hexceeds : ∀ x : Int64, x.toInt = bound → (exceeds x ↔ n < -2^63 ∨ 2^63 ≤ n)) :
    ExactInt64 n (signed bound >>= fun x =>
      if exceeds x then pure (.bufferTooSmall, some int64Error)
      else signed n >>= fun y => pure (.success, some y)) := by
  obtain ⟨x,hx,hxb⟩ := signed_of hlow hhigh
  have hiff := hexceeds x hxb
  rw [hx]
  change ExactInt64 n (if exceeds x then _ else _)
  by_cases hover : exceeds x
  · rw [if_pos hover]
    exact exactInt64_error (hiff.mp hover)
  · rw [if_neg hover]
    have hin := mt hiff.mpr hover
    exact exactInt64_signed (by omega) (by omega)

theorem toInt_maxInt64 : maxInt64.toInt = 2^63-1 := rfl

theorem toInt_minInt64 : minInt64.toInt = -2^63 := rfl

theorem safeInt64Add_exact (a b r : Int64) : ExactInt64 (a.toInt+b.toInt) (safeInt64Add a b (some r)) := by
  have halow := a.le_toInt
  have hahigh := a.toInt_lt
  have hblow := b.le_toInt
  have hbhigh := b.toInt_lt
  simp only [safeInt64Add, reduceCtorEq, if_false, gt_iff_lt, Int64.lt_iff_toInt_lt, Int64.toInt_zero,
    toInt_maxInt64, toInt_minInt64]
  rcases Int.lt_trichotomy b.toInt 0 with hneg | hz | hpos
  · simp only [hneg, Int.not_lt.mpr (Int.le_of_lt hneg), if_true, if_false]
    refine exactInt64_guarded (by omega) (by omega) fun x hx => ?_
    omega
  · simp only [hz, Int.lt_irrefl, if_false]
    exact exactInt64_signed (by omega) (by omega)
  · simp only [hpos, Int.not_lt.mpr (Int.le_of_lt hpos), if_true, if_false]
    refine exactInt64_guarded (by omega) (by omega) fun x hx => ?_
    omega

theorem safeInt64Sub_exact (a b r : Int64) : ExactInt64 (a.toInt-b.toInt) (safeInt64Sub a b (some r)) := by
  have halow := a.le_toInt
  have hahigh := a.toInt_lt
  have hblow := b.le_toInt
  have hbhigh := b.toInt_lt
  simp only [safeInt64Sub, reduceCtorEq, if_false, gt_iff_lt, Int64.lt_iff_toInt_lt, Int64.toInt_zero,
    toInt_maxInt64, toInt_minInt64]
  rcases Int.lt_trichotomy b.toInt 0 with hneg | hz | hpos
  · simp only [hneg, Int.not_lt.mpr (Int.le_of_lt hneg), if_true, if_false]
    refine exactInt64_guarded (by omega) (by omega) fun x hx => ?_
    omega
  · simp only [hz, Int.lt_irrefl, if_false]
    exact exactInt64_signed (by omega) (by omega)
  · simp only [hpos, Int.not_lt.mpr (Int.le_of_lt hpos), if_true, if_false]
    refine exactInt64_guarded (by omega) (by omega) fun x hx => ?_
    omega

theorem magnitude_eq (x : Int64) : ∃ u, magnitude x = some u ∧ u.toNat = x.toInt.natAbs := by
  have hlow := x.le_toInt
  have hbits := toNat_toUInt64 x
  simp only [magnitude, Int64.lt_iff_toInt_lt, Int64.toInt_zero]
  by_cases hneg : x.toInt < 0
  · obtain ⟨next,hnext,hnv⟩ := signed_of (n := x.toInt+1) (by omega) (by omega)
    obtain ⟨y,hy,hyv⟩ := signed_of (n := -next.toInt) (by omega) (by omega)
    have hybits := toNat_toUInt64 y
    refine ⟨y.toUInt64+1, ?_, ?_⟩
    · simp only [hneg, if_true, hnext, hy, Option.bind_eq_bind, Option.bind_some]
      rfl
    · rw [UInt64.toNat_add, UInt64.toNat_one]
      omega
  · rw [if_neg hneg] at hbits
    refine ⟨x.toUInt64, ?_, by omega⟩
    simp only [hneg, if_false]
    rfl

theorem mul_eq_magnitudes (a b : Int) : a*b = if (a < 0) ≠ (b < 0) then -((a.natAbs*b.natAbs : Nat) : Int)
      else ((a.natAbs*b.natAbs : Nat) : Int) := by
  rw [Nat.cast_mul]
  rcases lt_or_ge a 0 with ha | ha <;> rcases lt_or_ge b 0 with hb | hb
  · rw [if_neg (by simp [ha, hb]), Int.ofNat_natAbs_of_nonpos (Int.le_of_lt ha),
      Int.ofNat_natAbs_of_nonpos (Int.le_of_lt hb), Int.neg_mul_neg]
  · rw [if_pos (by simp [ha, Int.not_lt.mpr hb]), Int.ofNat_natAbs_of_nonpos (Int.le_of_lt ha),
      Int.natAbs_of_nonneg hb, Int.neg_mul, Int.neg_neg]
  · rw [if_pos (by simp [hb, Int.not_lt.mpr ha]), Int.ofNat_natAbs_of_nonpos (Int.le_of_lt hb),
      Int.natAbs_of_nonneg ha, Int.mul_neg, Int.neg_neg]
  · rw [if_neg (by simp [Int.not_lt.mpr ha, Int.not_lt.mpr hb]), Int.natAbs_of_nonneg ha,
      Int.natAbs_of_nonneg hb]

theorem toInt_toInt64 {u : UInt64} (h : u.toNat < 2^63) : u.toInt64.toInt = u.toNat := by
  have hbits := toNat_toUInt64 u.toInt64
  have hlow := u.toInt64.le_toInt
  rw [UInt64.toUInt64_toInt64] at hbits
  split at hbits <;> omega

theorem safeInt64Mult_exact (a b r : Int64) : ExactInt64 (a.toInt*b.toInt) (safeInt64Mult a b (some r)) := by
  obtain ⟨u,hu,hua⟩ := magnitude_eq a
  obtain ⟨v,hv,hvb⟩ := magnitude_eq b
  have hprod := mul_eq_magnitudes a.toInt b.toInt
  have huv : (u*v).toNat = u.toNat*v.toNat % 2^64 := UInt64.toNat_mul u v
  have hmagnitude : minInt64Magnitude.toNat = 2^63 := by decide
  have hlargest : maxInt64.toUInt64.toNat = 2^63-1 := by decide
  rw [← hua, ← hvb] at hprod
  simp only [safeInt64Mult, reduceCtorEq, if_false, hu, hv, safeUint64Mult_some, gt_iff_lt,
    Int64.lt_iff_toInt_lt, Int64.toInt_zero, UInt64.lt_iff_toNat_lt, ← UInt64.toNat_inj, hmagnitude, hlargest]
  by_cases hfits : u.toNat*v.toNat < 2^64
  · rw [Nat.mod_eq_of_lt hfits] at huv
    simp only [if_pos hfits, Option.bind_eq_bind, Option.bind_some, huv]
    by_cases hsigns : (a.toInt < 0) ≠ (b.toInt < 0)
    · rw [if_pos hsigns] at hprod
      rw [if_pos hsigns, hprod]
      rcases lt_trichotomy (u.toNat*v.toNat) (2^63) with hlt | heq | hgt
      · have hint := toInt_toInt64 (huv ▸ hlt)
        rw [if_neg (by omega), if_neg (by omega), hint, huv]
        exact exactInt64_signed (by omega) (by omega)
      · rw [if_neg (by omega), if_pos heq, heq]
        exact ⟨_, rfl, Exact.of_value toInt_minInt64⟩
      · rw [if_pos hgt]
        exact exactInt64_error (by omega)
    · rw [if_neg hsigns] at hprod
      rw [if_neg hsigns, hprod]
      by_cases hlt : u.toNat*v.toNat < 2^63
      · have hint := toInt_toInt64 (huv ▸ hlt)
        rw [if_neg (by omega)]
        exact ⟨_, rfl, Exact.of_value (hint.trans (by rw [huv]))⟩
      · rw [if_pos (by omega)]
        exact exactInt64_error (by omega)
  · simp only [if_neg hfits, Option.bind_eq_bind, Option.bind_some]
    refine exactInt64_error ?_
    split at hprod <;> omega

theorem safeUint64Mult_exact (a b r : UInt64) :
    Exact (fun x : UInt64 => (x.toNat : Int)) uint64Error (a.toNat*b.toNat)
      (safeUint64Mult a b (some r)) := by
  rw [safeUint64Mult_some]
  by_cases hfits : a.toNat*b.toNat < 2^64
  · rw [if_pos hfits]
    refine Exact.of_value ?_
    rw [UInt64.toNat_mul, Nat.mod_eq_of_lt hfits, Nat.cast_mul]
  rw [if_neg hfits]
  refine Exact.of_not fun x hx => ?_
  have hlt := x.toNat_lt
  omega

/-- With a cell for the result, each operation succeeds with the exact result or fails with the error
value, and no signed operation on its way overflows. -/
theorem safeArithmetic_exact : (∀ multiplicand multiplier result : UInt64,
      Exact (fun x : UInt64 => (x.toNat : Int)) uint64Error (multiplicand.toNat*multiplier.toNat)
        (safeUint64Mult multiplicand multiplier (some result))) ∧
    (∀ multiplicand multiplier result : Int64, ExactInt64 (multiplicand.toInt*multiplier.toInt)
        (safeInt64Mult multiplicand multiplier (some result))) ∧ (∀ augend addend result : Int64,
      ExactInt64 (augend.toInt+addend.toInt) (safeInt64Add augend addend (some result))) ∧
    ∀ minuend subtrahend result : Int64, ExactInt64 (minuend.toInt-subtrahend.toInt)
        (safeInt64Sub minuend subtrahend (some result)) :=
  ⟨safeUint64Mult_exact, safeInt64Mult_exact, safeInt64Add_exact, safeInt64Sub_exact⟩

end Liano.SafeInt
