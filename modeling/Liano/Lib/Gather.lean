import Mathlib

/-! Values that come in parts under keys, and the places of the values when they are put one behind the other
in the order of their keys. -/
namespace Liano.Lib.Gather

open List

variable {κ α : Type*} [DecidableEq κ]

def gather (parts : List (κ × List α)) (k : κ) : List α :=
  parts.flatMap fun p => if p.1 = k then p.2 else []

variable {parts parts' : List (κ × List α)} {p : κ × List α} {k : κ}

@[simp] theorem gather_nil : gather ([] : List (κ × List α)) k = [] := rfl

theorem gather_cons : gather (p :: parts) k = (if p.1 = k then p.2 else []) ++ gather parts k := by
  simp [gather]

@[simp] theorem gather_append : gather (parts ++ parts') k = gather parts k ++ gather parts' k := by
  simp [gather]

theorem gather_single : gather [p] k = if p.1 = k then p.2 else [] := by simp [gather]

theorem gather_eq_nil_of_not_mem (h : ∀ p ∈ parts, p.1 ≠ k) : gather parts k = [] := by
  rw [gather, flatMap_eq_nil_iff]
  intro p hp
  rw [if_neg (h p hp)]

theorem gather_eq_nil_of_nil (h : ∀ p ∈ parts, p.2 = []) : gather parts k = [] := by
  rw [gather, flatMap_eq_nil_iff]
  intro p hp
  rw [h p hp, ite_self]

theorem sum_length_gather {parts : List (Nat × List α)} {n : Nat} (h : ∀ p ∈ parts, p.1 < n) :
    ∑ k ∈ Finset.range n, (gather parts k).length = (parts.map fun p => p.2.length).sum := by
  induction parts with
  | nil => simp
  | cons p parts ih =>
    have hp : p.1 < n := h p mem_cons_self
    have hrest := ih fun q hq => h q (mem_cons_of_mem p hq)
    have hsum : ∑ k ∈ Finset.range n, (if p.1 = k then p.2 else []).length = p.2.length := by
      rw [Finset.sum_eq_single_of_mem p.1 (Finset.mem_range.mpr hp)]
      · rw [if_pos rfl]
      · intro k _ hne
        rw [if_neg hne.symm, length_nil]
    simp only [gather_cons, length_append, Finset.sum_add_distrib, hsum, hrest, map_cons, sum_cons]

/-- Where the value of `k` starts when values of these lengths are put one behind the other. -/
def place (len : Nat → Nat) (k : Nat) : Nat := ∑ i ∈ Finset.range k, len i

variable {len : Nat → Nat} {i j n : Nat}

theorem place_succ : place len (n+1) = place len n + len n := Finset.sum_range_succ len n

theorem place_mono (h : i ≤ j) : place len i ≤ place len j :=
  Finset.sum_le_sum_of_subset (Finset.range_mono h)

theorem place_add_le (h : i < j) : place len i + len i ≤ place len j := by
  rw [← place_succ]
  exact place_mono h

/-- How many values come before that of `k` and are not empty. -/
def rank (len : Nat → Nat) (k : Nat) : Nat := ((range k).filter fun i => len i ≠ 0).length

theorem rank_succ : rank len (n+1) = rank len n + if len n ≠ 0 then 1 else 0 := by
  rw [rank, range_succ, filter_append, length_append, rank]
  by_cases h : len n = 0 <;> simp [h]

theorem rank_le : rank len n ≤ n := by
  induction n with
  | zero => exact le_rfl
  | succ n ih =>
    rw [rank_succ]
    split <;> omega

theorem rank_mono (h : i ≤ j) : rank len i ≤ rank len j := by
  obtain ⟨k,rfl⟩ := Nat.exists_eq_add_of_le h
  induction k with
  | zero => exact le_rfl
  | succ k ih =>
    rw [← add_assoc, rank_succ]
    omega

theorem rank_lt (h : i < j) (hne : len i ≠ 0) : rank len i < rank len j := by
  have hle : rank len (i+1) ≤ rank len j := rank_mono (Nat.succ_le_of_lt h)
  rw [rank_succ, if_pos hne] at hle
  omega

theorem rank_inj (hi : len i ≠ 0) (hj : len j ≠ 0) (h : rank len i = rank len j) : i = j := by
  rcases lt_trichotomy i j with hlt | heq | hgt
  · exact absurd h (ne_of_lt (rank_lt hlt hi))
  · exact heq
  · exact absurd h (ne_of_gt (rank_lt hgt hj))

theorem map_rank : ((range n).filter fun i => len i ≠ 0).map (rank len) = range (rank len n) := by
  induction n with
  | zero => rfl
  | succ n ih =>
    rw [range_succ, filter_append, map_append, ih, rank_succ]
    by_cases h : len n = 0
    · simp [h]
    · simp [h, range_succ]

end Liano.Lib.Gather
