import Mathlib.Algebra.Ring.Nat
import Mathlib.Order.Basic

/-! Bit masks of words: the complement of a word, and what masks of low bits do to a number. -/
namespace Liano.Lib

/-- The complement of a word of `w` bits. -/
def complement (w n : Nat) : Nat := 2^w-1-n

section
variable {w k n m : Nat}

theorem testBit_complement (hn : n < 2^w) (i : Nat) :
    (complement w n).testBit i = (decide (i < w) && !n.testBit i) := by
  rw [complement, Nat.sub_sub, add_comm 1, Nat.testBit_two_pow_sub_succ hn]

theorem and_complement (hk : k ≤ w) (hn : n < 2^w) :
    n &&& complement w (2^k-1) = n / 2^k * 2^k := by
  have hmask : 2^k-1 < 2^w := lt_of_lt_of_le (Nat.sub_lt (Nat.two_pow_pos k) Nat.one_pos)
      (Nat.pow_le_pow_right (by decide) hk)
  have hhigh : ∀ i, w ≤ i → n.testBit i = false := fun i hi =>
    Nat.testBit_lt_two_pow (lt_of_lt_of_le hn (Nat.pow_le_pow_right (by decide) hi))
  refine Nat.eq_of_testBit_eq fun i => ?_
  simp only [Nat.testBit_and, testBit_complement hmask, Nat.testBit_two_pow_sub_one,
    Nat.testBit_mul_two_pow, Nat.testBit_div_two_pow]
  rcases lt_or_ge i k with hlow | hlow
  · simp [hlow, not_le.mpr hlow]
  · rcases lt_or_ge i w with hin | hout
    · simp [hlow, hin, not_lt.mpr hlow]
    · simp [hlow, hhigh i hout]

theorem or_low_mask (q k : Nat) : q * 2^k ||| (2^k-1) = q * 2^k + (2^k-1) := by
  rw [mul_comm, Nat.two_pow_add_eq_or_of_lt (Nat.sub_lt (Nat.two_pow_pos k) Nat.one_pos)]

end

end Liano.Lib
