import Liano.Lib.Masks
import Liano.Mtrr.LeastMtrrs

/-! The vertices and the weights that `MtrrLibCalculateMtrrs` builds, and the least paths between
them. -/
namespace Liano.Mtrr

open Function (update update_of_ne update_self)
open List hiding range

open Liano.Lib

def mtrrLibBiggestAlignment (address alignment0 : Nat) : Nat :=
  if address = 0 then alignment0 else address &&& toUint64 (complement 64 address + 1)

def getPowerOfTwo64 (operand : Nat) : Nat := if operand = 0 then 0 else 2^operand.log2

/-- The vertices of a range; `none` is the loop going on after `fuel` runs. -/
def splitRange (a0 : Nat) (type : MtrrMemoryCacheType) : Nat → Nat → Nat → Option (List MtrrLibAddress)
  | 0, _, _ => none
  | fuel+1, base, length =>
    if length = 0 then some []
    else
      let alignment := mtrrLibBiggestAlignment base a0
      let subLength := if alignment > length then getPowerOfTwo64 length else alignment
      (splitRange a0 type fuel (base+subLength) (length-subLength)).map fun vertices =>
        ⟨⟨false, 0, 0⟩, base, alignment, subLength, type⟩ :: vertices

def splitRanges (a0 fuel : Nat) : List MtrrMemoryRange → Option (List MtrrLibAddress)
  | [] => some []
  | range :: ranges =>
    (splitRange a0 range.type fuel range.baseAddress range.length).bind fun vertices =>
      (splitRanges a0 fuel ranges).map fun rest => vertices ++ rest

section
variable (base1 : Nat) (vertices : List MtrrLibAddress)

def addressAt (index : Nat) : Nat := ((vertices.map MtrrLibAddress.address ++ [base1])[index]?).getD 0

def alignmentAt (index : Nat) : Nat := (vertices[index]?.map MtrrLibAddress.alignment).getD 0

def initialWeights (vertexCount index : Nat) : Nat :=
  if index % vertexCount ≤ index / vertexCount then 0 else maxWeight

def setAdjacent (defaultType : MtrrMemoryCacheType) (weight : Nat → Nat) (index : Nat) : Nat → Nat :=
  if vertices[index]?.map MtrrLibAddress.type ≠ some defaultType then
    update (update weight (M (vertices.length+1) index (index+1)) 1)
      (O (vertices.length+1) index (index+1)) 0
  else
    update (update weight (M (vertices.length+1) index (index+1)) 0)
      (O (vertices.length+1) index (index+1)) 1

def adjacentWeights (defaultType : MtrrMemoryCacheType) : Nat → Nat :=
  (List.range vertices.length).foldl (setAdjacent vertices defaultType)
    (initialWeights (vertices.length+1))

def mtrrLibIsPowerOfTwo (operand : Nat) : Bool := (operand &&& (operand-1)) == 0

def countTypes : List MtrrMemoryRange → Nat → Nat → Nat × Nat → Nat × Nat
  | [], _, _, types => types
  | range :: ranges, baseAddress, length, types =>
    if range.baseAddress ≤ baseAddress ∧ baseAddress < toUint64 range.limit then
      let types := if types.1 &&& 1 <<< range.type = 0 then
          (toUint8 (types.1 ||| 1 <<< range.type), toUint8 (types.2+1))
        else types
      if toUint64 (baseAddress+length) > toUint64 range.limit then
        countTypes ranges (toUint64 range.limit)
          (toUint64 (length + complement 64 (toUint64 range.limit - baseAddress) + 1)) types
      else types
    else countTypes ranges baseAddress length types

def mtrrLibGetNumberOfTypes (ranges : List MtrrMemoryRange) (baseAddress length : Nat) : Nat × Nat :=
  ((countTypes ranges baseAddress length (0,0)).2, (countTypes ranges baseAddress length (0,0)).1)

/-- The pairs that the loops over `TypeCount`, `Start` and `Stop` calculate a weight for. -/
structure IsPair (ranges : List MtrrMemoryRange) (start stop : Nat) : Prop where
  apart : start+2 ≤ stop
  stop_le : stop ≤ vertices.length
  length_le : addressAt base1 vertices stop - addressAt base1 vertices start ≤ alignmentAt vertices start
  powerOfTwo : mtrrLibIsPowerOfTwo
    (addressAt base1 vertices stop - addressAt base1 vertices start) = true
  typeCount : (mtrrLibGetNumberOfTypes ranges (addressAt base1 vertices start)
    (addressAt base1 vertices stop - addressAt base1 vertices start)).1 ∈ [2, 3]

/-- The weights as the loops come to have them: those of a pair are overwritten, the mandatory one
with a byte, the optional one with 0 or 1. -/
inductive Builds (ranges : List MtrrMemoryRange) (defaultType : MtrrMemoryCacheType) : (Nat → Nat) → Prop
  | adjacent : Builds ranges defaultType (adjacentWeights vertices defaultType)
  | mandatory {weight : Nat → Nat} {start stop : Nat} (n : Nat) : Builds ranges defaultType weight →
      IsPair base1 vertices ranges start stop → n < 2^8 →
      Builds ranges defaultType (update weight (M (vertices.length+1) start stop) n)
  | optional {weight : Nat → Nat} {start stop : Nat} (n : Nat) : Builds ranges defaultType weight →
      IsPair base1 vertices ranges start stop → n ≤ 1 →
      Builds ranges defaultType (update weight (O (vertices.length+1) start stop) n)

/-- What the loops keep of the weights: between vertices that are not adjacent they are those of
aligned ranges. -/
structure Aligned (weight : Nat → Nat) : Prop where
  bytes : Bytes (vertices.length+1) weight
  dyadic : ∀ x y, x+1 < y → y ≤ vertices.length → weight (M (vertices.length+1) x y) ≠ maxWeight →
    ∃ k, addressAt base1 vertices y = addressAt base1 vertices x + 2^k ∧ 2^k ∣ addressAt base1 vertices x

end

theorem dvd_of_le_biggestAlignment {address a0 k : Nat} (haddr : address < 2^64)
    (h : 2^k ≤ mtrrLibBiggestAlignment address a0) : 2^k ∣ address := by
  by_cases hzero : address = 0
  · rw [hzero]
    exact Nat.dvd_zero _
  rw [mtrrLibBiggestAlignment, if_neg hzero] at h
  have hnegate : toUint64 (complement 64 address + 1) = complement 64 (address-1) := by
    rw [complement, complement, toUint64_of_lt (by omega)]
    omega
  rw [hnegate] at h
  by_contra hnot
  -- above the remainder the address less one has the bits of the address
  have hdiv : (address-1) / 2^k = address / 2^k := by
    have hsplit := Nat.div_add_mod address (2^k)
    refine Nat.div_eq_of_lt_le ?_ ?_
    · rw [mul_comm]
      omega
    · rw [mul_comm, Nat.mul_succ]
      omega
  refine absurd h (not_le.mpr (Nat.lt_pow_two_of_testBit _ fun i hi => ?_))
  obtain ⟨j,rfl⟩ := Nat.exists_eq_add_of_le hi
  have hbit : (address-1).testBit (k+j) = address.testBit (k+j) := by
    rw [add_comm, ← Nat.testBit_div_two_pow, ← Nat.testBit_div_two_pow, hdiv]
  rw [Nat.testBit_and, testBit_complement (by omega), hbit]
  cases address.testBit (k+j) <;> simp

/-- Vertices that follow each other from `a` up to `b`, with the alignments of their addresses. -/
def Ascends (a0 a : Nat) : List MtrrLibAddress → Nat → Prop
  | [], b => a = b
  | v :: vertices, b => v.address = a ∧ 0 < v.length ∧
      v.alignment = mtrrLibBiggestAlignment a a0 ∧ Ascends a0 (a+v.length) vertices b

section
variable {a0 a b c fuel base length : Nat} {type defaultType : MtrrMemoryCacheType}
  {vertices xs ys : List MtrrLibAddress} {ranges : List MtrrMemoryRange} {weight : Nat → Nat}

theorem Ascends.append (hxs : Ascends a0 a xs b) (hys : Ascends a0 b ys c) : Ascends a0 a (xs ++ ys) c := by
  induction xs generalizing a with
  | nil =>
    have hab : a = b := hxs
    rw [hab]
    exact hys
  | cons v xs ih => exact ⟨hxs.1, hxs.2.1, hxs.2.2.1, ih hxs.2.2.2⟩

theorem splitRange_eq_none (hal : mtrrLibBiggestAlignment base a0 = 0) (hlen : length ≠ 0) :
    splitRange a0 type fuel base length = none := by
  induction fuel with
  | zero => rfl
  | succ fuel ih =>
    rw [splitRange, if_neg hlen]
    simp only [hal, Nat.not_lt_zero, if_false, gt_iff_lt, add_zero, Nat.sub_zero]
    rw [ih]
    rfl

theorem getPowerOfTwo64_le (h : length ≠ 0) :
    0 < getPowerOfTwo64 length ∧ getPowerOfTwo64 length ≤ length := by
  rw [getPowerOfTwo64, if_neg h]
  exact ⟨Nat.two_pow_pos _, Nat.log2_self_le h⟩

theorem splitRange_ascends (h : splitRange a0 type fuel base length = some vertices) :
    Ascends a0 base vertices (base+length) := by
  induction fuel generalizing base length vertices with
  | zero => cases h
  | succ fuel ih =>
    by_cases hzero : length = 0
    · rw [splitRange, if_pos hzero] at h
      cases h
      rw [hzero]
      rfl
    have hpos : mtrrLibBiggestAlignment base a0 ≠ 0 := by
      intro hal
      rw [splitRange_eq_none hal hzero] at h
      cases h
    rw [splitRange, if_neg hzero] at h
    obtain ⟨rest,hrest,rfl⟩ := Option.map_eq_some_iff.mp h
    obtain ⟨subLength,hsub⟩ : ∃ subLength, subLength =
        if mtrrLibBiggestAlignment base a0 > length then getPowerOfTwo64 length
        else mtrrLibBiggestAlignment base a0 := ⟨_, rfl⟩
    have hpower := getPowerOfTwo64_le hzero
    have hle : 0 < subLength ∧ subLength ≤ length := by split at hsub <;> omega
    rw [← hsub] at hrest
    have hascends := ih hrest
    rw [show base+subLength + (length-subLength) = base+length by omega] at hascends
    refine ⟨rfl, ?_, rfl, ?_⟩
    · simp only [← hsub]
      exact hle.1
    · simp only [← hsub]
      exact hascends

theorem splitRanges_ascends (hrngs : Tiling a ranges b)
    (h : splitRanges a0 fuel ranges = some vertices) : Ascends a0 a vertices b := by
  induction ranges generalizing a vertices with
  | nil =>
    cases h
    exact hrngs
  | cons range ranges ih =>
    obtain ⟨hbase,-,hrest⟩ := hrngs
    obtain ⟨xs,hxs,h⟩ := Option.bind_eq_some_iff.mp h
    obtain ⟨ys,hys,rfl⟩ := Option.map_eq_some_iff.mp h
    have hfst := splitRange_ascends hxs
    rw [hbase] at hfst
    exact hfst.append (ih (by rw [← hbase]; exact hrest) hys)

theorem Ascends.le (h : Ascends a0 a vertices b) : a ≤ b := by
  induction vertices generalizing a with
  | nil => exact le_of_eq h
  | cons v vertices ih => exact le_trans (Nat.le_add_right _ _) (ih h.2.2.2)

theorem addressAt_cons {v : MtrrLibAddress} {index : Nat} :
    addressAt b (v :: vertices) (index+1) = addressAt b vertices index := rfl

theorem Ascends.address_zero (h : Ascends a0 a vertices b) : addressAt b vertices 0 = a := by
  cases vertices with
  | nil => exact (show a = b from h).symm
  | cons v vertices => exact h.1

variable {y x n start stop : Nat}

theorem Ascends.address_le (h : Ascends a0 a vertices b) (hy : y ≤ vertices.length) :
    a ≤ addressAt b vertices y ∧ addressAt b vertices y ≤ b := by
  induction vertices generalizing a y with
  | nil =>
    cases y with
    | zero => exact ⟨le_of_eq h, le_rfl⟩
    | succ y => exact absurd hy (Nat.not_succ_le_zero y)
  | cons v vertices ih =>
    cases y with
    | zero =>
      rw [h.address_zero]
      exact ⟨le_rfl, h.le⟩
    | succ y =>
      obtain ⟨hlow,hhigh⟩ := ih h.2.2.2 (Nat.le_of_succ_le_succ hy)
      exact ⟨le_trans (Nat.le_add_right _ _) hlow, hhigh⟩

theorem Ascends.address_lt (h : Ascends a0 a vertices b) (hxy : x < y)
    (hy : y ≤ vertices.length) : addressAt b vertices x < addressAt b vertices y := by
  induction vertices generalizing a x y with
  | nil =>
    have : y ≤ 0 := hy
    omega
  | cons v vertices ih =>
    cases y with
    | zero => exact absurd hxy (Nat.not_lt_zero x)
    | succ y =>
      have hy' : y ≤ vertices.length := Nat.le_of_succ_le_succ hy
      rw [addressAt_cons]
      cases x with
      | zero =>
        rw [h.address_zero]
        have := (h.2.2.2.address_le hy').1
        have := h.2.1
        omega
      | succ x => exact ih h.2.2.2 (Nat.lt_of_succ_lt_succ hxy) hy'

theorem Ascends.alignment (h : Ascends a0 a vertices b) (hx : x < vertices.length) :
    alignmentAt vertices x = mtrrLibBiggestAlignment (addressAt b vertices x) a0 := by
  induction vertices generalizing a x with
  | nil => exact absurd hx (Nat.not_lt_zero x)
  | cons v vertices ih =>
    cases x with
    | zero =>
      rw [h.address_zero]
      exact h.2.2.1
    | succ x => exact ih h.2.2.2 (Nat.lt_of_succ_lt_succ hx)

theorem M_inj {x' y' : Nat} (hy : y < n) (hy' : y' < n) (h : M n x y = M n x' y') : x = x' ∧ y = y' := by
  have hn : 0 < n := Nat.zero_lt_of_lt hy
  have hdiv : ∀ u v, v < n → M n u v / n = u := by
    intro u v hv
    rw [M, mul_comm, Nat.mul_add_div hn, Nat.div_eq_of_lt hv, add_zero]
  have hx : x = x' := by rw [← hdiv x y hy, h, hdiv x' y' hy']
  refine ⟨hx, ?_⟩
  rw [M, M, hx] at h
  exact Nat.add_left_cancel h

theorem update_M_of_ne {u v w : Nat} (hy : y < n) (hv : v < n) (hne : ¬ (x = u ∧ y = v)) :
    update weight (M n u v) w (M n x y) = weight (M n x y) := update_of_ne (fun h => hne (M_inj hy hv h)) _ _

theorem Aligned.mandatory (hascends : Ascends a0 a vertices b)
    (hb : b ≤ 2^64) (h : Aligned b vertices weight) (hpair : IsPair b vertices ranges start stop)
    (hn : n < 2^8) : Aligned b vertices (update weight (M (vertices.length+1) start stop) n) := by
  have hapart := hpair.apart
  have hstop := hpair.stop_le
  refine ⟨⟨fun i => ?_, fun x hx => ?_, fun x y hxy hy => ?_⟩, fun x y hxy hy hne => ?_⟩
  · by_cases hi : i = M (vertices.length+1) start stop
    · rw [hi, update_self]
      exact Nat.le_of_lt_succ hn
    · rw [update_of_ne hi]
      exact h.bytes.byte i
  · rw [update_M_of_ne hx (by omega) (by omega)]
    exact h.bytes.self x hx
  · rw [O, ← M, update_M_of_ne (by omega) (by omega) (by omega)]
    exact h.bytes.optional x y hxy hy
  · by_cases heq : x = start ∧ y = stop
    · obtain ⟨rfl,rfl⟩ := heq
      have hlt := hascends.address_lt (by omega : x < y) hy
      have hle := (hascends.address_le hy).2
      obtain ⟨k,hk⟩ := (Nat.and_sub_one_eq_zero_iff_isPowerOfTwo (by omega)).mp
        (beq_iff_eq.mp hpair.powerOfTwo)
      refine ⟨k, by omega, @dvd_of_le_biggestAlignment _ a0 _ (by omega) ?_⟩
      rw [← hascends.alignment (by omega), ← hk]
      exact hpair.length_le
    · rw [update_M_of_ne (by omega) (by omega) heq] at hne
      exact h.dyadic x y hxy hy hne

theorem Aligned.optional (h : Aligned b vertices weight)
    (hpair : IsPair b vertices ranges start stop) (hn : n ≤ 1) :
    Aligned b vertices (update weight (O (vertices.length+1) start stop) n) := by
  have hapart := hpair.apart
  have hstop := hpair.stop_le
  rw [O, ← M]
  refine ⟨⟨fun i => ?_, fun x hx => ?_, fun x y hxy hy => ?_⟩, fun x y hxy hy hne => ?_⟩
  · by_cases hi : i = M (vertices.length+1) stop start
    · rw [hi, update_self]
      exact le_trans hn (by decide)
    · rw [update_of_ne hi]
      exact h.bytes.byte i
  · rw [update_M_of_ne hx (by omega) (by omega)]
    exact h.bytes.self x hx
  · rw [O, ← M]
    by_cases heq : y = stop ∧ x = start
    · rw [heq.1, heq.2, update_self]
      exact hn
    · rw [update_M_of_ne (by omega) (by omega) heq]
      exact h.bytes.optional x y hxy hy
  · rw [update_M_of_ne (by omega) (by omega) (by omega)] at hne
    exact h.dyadic x y hxy hy hne

theorem initialWeights_M (hy : y < n) : initialWeights n (M n x y) = if y ≤ x then 0 else maxWeight := by
  have hn : 0 < n := Nat.zero_lt_of_lt hy
  have hdiv : M n x y / n = x := by
    rw [M, mul_comm, Nat.mul_add_div hn, Nat.div_eq_of_lt hy, add_zero]
  have hmod : M n x y % n = y := by rw [M, mul_comm, Nat.mul_add_mod, Nat.mod_eq_of_lt hy]
  rw [initialWeights, hdiv, hmod]

theorem setAdjacent_le (h : ∀ i, weight i ≤ maxWeight) (index i : Nat) :
    setAdjacent vertices defaultType weight index i ≤ maxWeight := by
  rw [setAdjacent]
  split <;>
  · rw [Function.update_apply, Function.update_apply]
    split
    · decide
    · split
      · decide
      · exact h i

theorem setAdjacent_M {index : Nat} (hidx : index < vertices.length) (hy : y ≤ vertices.length) :
    setAdjacent vertices defaultType weight index (M (vertices.length+1) x y) =
      if x = index ∧ y = index+1 then
        if vertices[index]?.map MtrrLibAddress.type ≠ some defaultType then 1 else 0
      else if x = index+1 ∧ y = index then
        if vertices[index]?.map MtrrLibAddress.type ≠ some defaultType then 0 else 1
      else weight (M (vertices.length+1) x y) := by
  have hback : ∀ w : Nat → Nat, ∀ n, update w (O (vertices.length+1) index (index+1)) n
      (M (vertices.length+1) x y) = if x = index+1 ∧ y = index then n else w (M (vertices.length+1) x y) := by
    intro w n
    rw [O, ← M]
    by_cases heq : x = index+1 ∧ y = index
    · rw [if_pos heq, heq.1, heq.2, update_self]
    · rw [if_neg heq, update_M_of_ne (by omega) (by omega) heq]
  have hforth : ∀ n, update weight (M (vertices.length+1) index (index+1)) n
      (M (vertices.length+1) x y) =
        if x = index ∧ y = index+1 then n else weight (M (vertices.length+1) x y) := by
    intro n
    by_cases heq : x = index ∧ y = index+1
    · rw [if_pos heq, heq.1, heq.2, update_self]
    · rw [if_neg heq, update_M_of_ne (by omega) (by omega) heq]
  rw [setAdjacent]
  by_cases hdiffers : vertices[index]?.map MtrrLibAddress.type ≠ some defaultType
  · rw [if_pos hdiffers, if_pos hdiffers, if_pos hdiffers, hback, hforth]
    split
    · rw [if_neg (by omega)]
    · rfl
  rw [if_neg hdiffers, if_neg hdiffers, if_neg hdiffers, hback, hforth]
  split
  · rw [if_neg (by omega)]
  · rfl

theorem foldl_setAdjacent (hn : n ≤ vertices.length) :
    (∀ i, (List.range n).foldl (setAdjacent vertices defaultType)
      (initialWeights (vertices.length+1)) i ≤ maxWeight) ∧ ∀ x y, y ≤ vertices.length →
      (List.range n).foldl (setAdjacent vertices defaultType)
          (initialWeights (vertices.length+1)) (M (vertices.length+1) x y) = if y = x+1 ∧ x < n then
          if vertices[x]?.map MtrrLibAddress.type ≠ some defaultType then 1 else 0
        else if x = y+1 ∧ y < n then
          if vertices[y]?.map MtrrLibAddress.type ≠ some defaultType then 0 else 1
        else if y ≤ x then 0 else maxWeight := by
  induction n with
  | zero =>
    refine ⟨fun i => ?_, fun x y hy => ?_⟩
    · rw [range_zero, foldl_nil, initialWeights]
      split <;> decide
    · have h1 : ¬ (y = x+1 ∧ x < 0) := fun h => Nat.not_lt_zero x h.2
      have h2 : ¬ (x = y+1 ∧ y < 0) := fun h => Nat.not_lt_zero y h.2
      rw [range_zero, foldl_nil, initialWeights_M (Nat.lt_succ_of_le hy), if_neg h1, if_neg h2]
  | succ n ih =>
    obtain ⟨hbyte,hspec⟩ := ih (Nat.le_of_succ_le hn)
    rw [range_succ, foldl_append, foldl_cons, foldl_nil]
    refine ⟨fun i => setAdjacent_le hbyte n i, fun x y hy => ?_⟩
    rw [setAdjacent_M hn hy, hspec x y hy]
    by_cases hforth : x = n ∧ y = n+1
    · have h1 : y = x+1 ∧ x < n+1 := by omega
      rw [if_pos hforth, if_pos h1, hforth.1]
    rw [if_neg hforth]
    by_cases hback : x = n+1 ∧ y = n
    · have h1 : ¬ (y = x+1 ∧ x < n+1) := by omega
      have h2 : x = y+1 ∧ y < n+1 := by omega
      rw [if_pos hback, if_neg h1, if_pos h2, hback.2]
    rw [if_neg hback]
    have h1 : (y = x+1 ∧ x < n) = (y = x+1 ∧ x < n+1) := propext (by omega)
    have h2 : (x = y+1 ∧ y < n) = (x = y+1 ∧ y < n+1) := propext (by omega)
    simp only [h1, h2]

theorem adjacentWeights_M (hx : x ≤ vertices.length) (hy : y ≤ vertices.length) :
    adjacentWeights vertices defaultType (M (vertices.length+1) x y) = if y = x+1 then
        if vertices[x]?.map MtrrLibAddress.type ≠ some defaultType then 1 else 0
      else if x = y+1 then
        if vertices[y]?.map MtrrLibAddress.type ≠ some defaultType then 0 else 1
      else if y ≤ x then 0 else maxWeight := by
  rw [adjacentWeights, (foldl_setAdjacent le_rfl).2 x y hy]
  have h1 : (y = x+1 ∧ x < vertices.length) = (y = x+1) := propext (by omega)
  have h2 : (x = y+1 ∧ y < vertices.length) = (x = y+1) := propext (by omega)
  simp only [h1, h2]

theorem aligned_adjacentWeights : Aligned b vertices (adjacentWeights vertices defaultType) := by
  refine ⟨⟨(foldl_setAdjacent le_rfl).1, fun x hx => ?_, fun x y hxy hy => ?_⟩,
    fun x y hxy hy hne => ?_⟩
  · rw [adjacentWeights_M (by omega) (by omega), if_neg (by omega), if_neg (by omega), if_pos le_rfl]
  · rw [O, ← M, adjacentWeights_M (by omega) (by omega), if_neg (by omega)]
    split
    · split <;> omega
    · rw [if_pos (by omega)]
      exact Nat.zero_le _
  · rw [adjacentWeights_M (by omega) hy, if_neg (by omega), if_neg (by omega), if_neg (by omega)] at hne
    exact absurd rfl hne

theorem Builds.aligned (hascends : Ascends a0 a vertices b) (hb : b ≤ 2^64)
    (h : Builds b vertices ranges defaultType weight) : Aligned b vertices weight := by
  induction h with
  | adjacent => exact aligned_adjacentWeights
  | mandatory n h hpair hn ih => exact ih.mandatory hascends hb hpair hn
  | optional n h hpair hn ih => exact ih.optional hpair hn

theorem aligned_nested {k l : Nat} (hx : 2^k ∣ x) (hy : 2^l ∣ y) (hlt : x < y)
    (hin : y < x + 2^k) : y + 2^l ≤ x + 2^k := by
  rcases Nat.le_total l k with hle | hle
  · have hlk : 2^l ∣ x + 2^k := Nat.dvd_add (Nat.dvd_trans (Nat.pow_dvd_pow 2 hle) hx) (Nat.pow_dvd_pow 2 hle)
    obtain ⟨m,rfl⟩ := hy
    obtain ⟨n,hn⟩ := hlk
    rw [hn] at hin ⊢
    exact Nat.mul_le_mul_left _ (Nat.lt_of_mul_lt_mul_left hin)
  obtain ⟨m,rfl⟩ := hx
  obtain ⟨n,rfl⟩ := Nat.dvd_trans (Nat.pow_dvd_pow 2 hle) hy
  have hlow := Nat.lt_of_mul_lt_mul_left hlt
  rw [← Nat.mul_succ] at hin
  have hhigh := Nat.lt_of_mul_lt_mul_left hin
  omega

theorem nested_edgeOf {includeOptional : Bool}
    (hascends : Ascends a0 a vertices b) (h : Aligned b vertices weight) :
    Nested (edgeOf ⟨vertices.length+1, weight, start, stop, includeOptional⟩) := by
  have hedge : ∀ x y n, edgeOf ⟨vertices.length+1, weight, start, stop, includeOptional⟩ x y =
      some n → y ≤ vertices.length ∧ weight (M (vertices.length+1) x y) ≠ maxWeight := by
    intro x y n hn
    rw [edgeOf] at hn
    split at hn
    · rename_i hin
      exact ⟨Nat.le_of_lt_succ hin.2.1, hin.2.2⟩
    · cases hn
  intro x y u v m n hxy huv hxu huy hltuv
  obtain ⟨hy,hwxy⟩ := hedge x y m hxy
  obtain ⟨hv,hwuv⟩ := hedge u v n huv
  by_cases hadj : v = u+1
  · omega
  obtain ⟨k,hk,hkdvd⟩ := h.dyadic x y (by omega) hy hwxy
  obtain ⟨l,hl,hldvd⟩ := h.dyadic u v (by omega) hv hwuv
  have hlow := hascends.address_lt hxu (by omega)
  have hhigh := hascends.address_lt huy hy
  rw [hk] at hhigh
  have hle := aligned_nested hkdvd hldvd hlow hhigh
  by_contra hlt
  have := hascends.address_lt (Nat.lt_of_not_le hlt) hv
  omega

/-- Between two vertices of a list that `MtrrLibCalculateMtrrs` builds, the search for the least
MTRRs is right exactly if a path weighs less than the maximum. -/
theorem mtrrLibCalculateLeastMtrrs_iff {start stop : Nat} {includeOptional : Bool}
    (initial : Vertices) (hranges : Tiling a ranges b) (hb : b ≤ 2^64)
    (hvertices : splitRanges a0 fuel ranges = some vertices)
    (hbuilds : Builds b vertices ranges defaultType weight)
    (hcount : (stop+1) * (vertices.length+1) ≤ 2^31)
    (hlt : start < stop) (hstop : stop ≤ vertices.length) :
    FindsLeast ⟨vertices.length+1, weight, start, stop, includeOptional⟩ initial ↔ ∃ n, n < maxWeight ∧
        n ∈ pathWeights ⟨vertices.length+1, weight, start, stop, includeOptional⟩ := by
  have hascends := splitRanges_ascends hranges hvertices
  have hal := hbuilds.aligned hascends hb
  exact @findsLeast_iff_path ⟨vertices.length+1, weight, start, stop, includeOptional⟩ initial
    hcount hal.bytes (nested_edgeOf hascends hal) (Nat.lt_succ_of_le hstop) hlt

end

def threePages : List MtrrLibAddress := [⟨⟨false, 0, 0⟩, 0x1000, 0x1000, 0x1000, cacheWriteBack⟩,
    ⟨⟨false, 0, 0⟩, 0x2000, 0x2000, 0x2000, cacheWriteBack⟩]

theorem threePages_findsLeast : FindsLeast ⟨3, adjacentWeights threePages cacheUncacheable, 0, 2, false⟩
      fun _ => ⟨⟨false, 0, 0⟩, 0, 0, 0, 0⟩ := by
  have hrngs : Tiling 0x1000 [⟨0x1000, 0x3000, cacheWriteBack⟩] 0x4000 := ⟨rfl, by decide, rfl⟩
  have hsplit : splitRanges (2^36) 3 [⟨0x1000, 0x3000, cacheWriteBack⟩] = some threePages := by decide
  refine (mtrrLibCalculateLeastMtrrs_iff _ hrngs (by decide) hsplit .adjacent
    (by decide) (by decide) (by decide)).mpr ⟨2, by decide, ?_⟩
  have h1 : edgeOf ⟨3, adjacentWeights threePages cacheUncacheable, 0, 2, false⟩ 0 1 = some 1 := by
    decide
  have h2 : edgeOf ⟨3, adjacentWeights threePages cacheUncacheable, 0, 2, false⟩ 1 2 = some 1 := by
    decide
  have hpath := PathTo.step (PathTo.step PathTo.start (by decide) h1) (by decide) h2
  exact hpath

section
variable {t : MtrrMemoryCacheType} {ranges : List MtrrMemoryRange}

theorem countTypes_of_type (h : ∀ r ∈ ranges, r.type = cacheWriteBack) {types : Nat × Nat}
    (htypes : types = (0,0) ∨ types = (1 <<< cacheWriteBack, 1)) (base length : Nat) :
    countTypes ranges base length types = (0,0) ∨
      countTypes ranges base length types = (1 <<< cacheWriteBack, 1) := by
  induction ranges generalizing types base length with
  | nil => exact htypes
  | cons r ranges ih =>
    have hrest : ∀ r ∈ ranges, r.type = cacheWriteBack := fun r hr => h r (mem_cons_of_mem _ hr)
    have hnext : (if types.1 &&& 1 <<< r.type = 0 then
        (toUint8 (types.1 ||| 1 <<< r.type), toUint8 (types.2+1)) else types) =
          (1 <<< cacheWriteBack, 1) := by
      rw [h r mem_cons_self]
      rcases htypes with rfl | rfl <;> decide
    rw [countTypes, hnext]
    split
    · dsimp only
      split
      · exact ih hrest (.inr rfl) _ _
      · exact .inr rfl
    · exact ih hrest htypes _ _

theorem Builds.eq_adjacentWeights {vertices : List MtrrLibAddress} {b : Nat}
    {defaultType : MtrrMemoryCacheType} {weight : Nat → Nat}
    (htype : ∀ r ∈ ranges, r.type = cacheWriteBack) (h : Builds b vertices ranges defaultType weight) :
    weight = adjacentWeights vertices defaultType := by
  have hnone : ∀ start stop, ¬ IsPair b vertices ranges start stop := by
    intro start stop hpair
    have hcnt := hpair.typeCount
    rw [mtrrLibGetNumberOfTypes] at hcnt
    rcases countTypes_of_type htype (.inl rfl) (addressAt b vertices start)
      (addressAt b vertices stop - addressAt b vertices start) with heq | heq <;>
    · rw [heq] at hcnt
      exact absurd hcnt (by decide)
  cases h with
  | adjacent => rfl
  | mandatory n h hpair hn => exact absurd hpair (hnone _ _)
  | optional n h hpair hn => exact absurd hpair (hnone _ _)

end

theorem adjacentWeights_path {vertices : List MtrrLibAddress} {defaultType : MtrrMemoryCacheType}
    {stop v n : Nat} (htype : ∀ a ∈ vertices, a.type ≠ defaultType)
    (h : PathTo (edgeOf ⟨vertices.length+1, adjacentWeights vertices defaultType, 0, stop, false⟩)
      0 v n) : v ≤ n := by
  induction h with
  | start => exact le_rfl
  | @step u v n c h hlt hedge ih =>
    rw [edgeOf] at hedge
    split at hedge
    · rename_i hin
      obtain ⟨hu,hv,hweight⟩ := hin
      simp only at hu hv hweight hedge
      rw [adjacentWeights_M (by omega) (by omega)] at hweight hedge
      by_cases hadj : v = u+1
      · have hget : vertices[u]? = some vertices[u] := getElem?_eq_getElem (by omega)
        have hdiffers : vertices[u]?.map MtrrLibAddress.type ≠ some defaultType := by
          rw [hget, Option.map_some]
          exact fun heq => htype _ (getElem_mem _) (Option.some.inj heq)
        rw [if_pos hadj, if_pos hdiffers] at hedge
        cases hedge
        omega
      · rw [if_neg hadj, if_neg (by omega), if_neg (by omega)] at hweight
        exact absurd rfl hweight
    · cases hedge

def writeBackPages (a : Nat) : Nat → List MtrrMemoryRange
  | 0 => []
  | n+1 => ⟨a, 0x1000, cacheWriteBack⟩ :: writeBackPages (a+0x1000) n

theorem tiling_writeBackPages (a n : Nat) : Tiling a (writeBackPages a n) (a + n*0x1000) := by
  induction n generalizing a with
  | zero => exact (add_zero a).symm
  | succ n ih =>
    refine ⟨rfl, Nat.zero_lt_succ _, ?_⟩
    have heq : a + (n+1) * 0x1000 = a+0x1000 + n*0x1000 := by omega
    rw [heq]
    exact ih (a+0x1000)

theorem type_writeBackPages (a n : Nat) : ∀ r ∈ writeBackPages a n, r.type = cacheWriteBack := by
  induction n generalizing a with
  | zero => exact fun r hr => absurd hr not_mem_nil
  | succ n ih =>
    intro r hr
    rcases mem_cons.mp hr with rfl | hr
    · rfl
    · exact ih _ r hr

/-- 256 pages of write-back memory need 256 MTRRs, and the search does not end. -/
theorem writeBackPages_not_findsLeast :
    ∃ vertices, splitRanges (2^36) 2 (writeBackPages 0x100000 256) = some vertices ∧ vertices.length = 256 ∧
      ∀ weight, Builds 0x200000 vertices (writeBackPages 0x100000 256) cacheUncacheable weight →
        ∀ fuel initial, mtrrLibCalculateLeastMtrrs ⟨257, weight, 0, 256, false⟩ initial fuel = none := by
  have hsplit : (splitRanges (2^36) 2 (writeBackPages 0x100000 256)).map (fun vertices =>
      (vertices.length, vertices.all fun a => a.type == cacheWriteBack)) = some (256,true) := by
    decide +kernel
  obtain ⟨vertices,hvertices,heq⟩ := Option.map_eq_some_iff.mp hsplit
  obtain ⟨hlen,htype⟩ := Prod.mk.inj heq
  refine ⟨vertices, hvertices, hlen, fun weight hbuilds fuel initial => ?_⟩
  have hascends := splitRanges_ascends (tiling_writeBackPages 0x100000 256) hvertices
  have hal := hbuilds.aligned hascends (by decide)
  have hweight := hbuilds.eq_adjacentWeights (type_writeBackPages _ _)
  have hnested := @nested_edgeOf _ _ _ _ _ 0 256 false hascends hal
  have hbs := hal.bytes
  rw [hlen] at hnested hbs
  by_contra hsome
  obtain ⟨vertices',hrun⟩ := Option.ne_none_iff_exists'.mp hsome
  have hcnt : (256+1) * (256+1) ≤ 2^31 := by decide
  have hstop : 256 < 256+1 := by decide
  have hstart : 0 < 256 := by decide
  obtain ⟨hbnd,-,hleast⟩ := mtrrLibCalculateLeastMtrrs_found hcnt hbs hnested hstop hstart hrun
  have hdiffers : ∀ a ∈ vertices, a.type ≠ cacheUncacheable := by
    intro a ha
    rw [beq_iff_eq.mp (all_eq_true.mp htype a ha)]
    decide
  have hpath : PathTo (edgeOf ⟨256+1, weight, 0, 256, false⟩) 0 256 (vertices' 256).weight := hleast.1
  rw [hweight, ← hlen] at hpath
  have hle := adjacentWeights_path hdiffers hpath
  rw [hlen] at hle
  exact absurd (lt_of_le_of_lt hle hbnd) (by decide)

end Liano.Mtrr
