import Liano.Lib.Bytes

/-! Flat memory: every address holds a byte, a region is an address and a length, and a copy moves
one region over another. The lemmas say how a region is cut in two and which regions a copy leaves
alone. -/
namespace Liano

abbrev Memory := Nat → UInt8

namespace Memory

/-- The `n` bytes from address `a` on. -/
def bytesAt (m : Memory) : Nat → Nat → Bytes
  | _, 0 => []
  | a, n+1 => m a :: bytesAt m (a+1) n

/-- `n` bytes copied from `src` to `dst`, all read before the first is written. -/
def copyMem (m : Memory) (dst src n : Nat) : Memory := fun a =>
  if dst ≤ a ∧ a < dst+n then m (src + (a-dst)) else m a

variable {m m' : Memory} {a b n k : Nat}

@[simp] theorem bytesAt_zero (m : Memory) (a : Nat) : bytesAt m a 0 = [] := by
  unfold bytesAt
  rfl

@[simp] theorem length_bytesAt (m : Memory) (a n : Nat) : (bytesAt m a n).length = n := by
  induction n generalizing a with
  | zero => simp
  | succ n ih => simp [bytesAt, ih]

theorem bytesAt_add (m : Memory) (a n k : Nat) :
    bytesAt m a (n+k) = bytesAt m a n ++ bytesAt m (a+n) k := by
  induction n generalizing a with
  | zero => simp
  | succ n ih =>
    have hn : n+1+k = n+k+1 := by omega
    have ha : a + (n+1) = a+1+n := by omega
    rw [hn, bytesAt, bytesAt, ih, ha, List.cons_append]

theorem take_bytesAt (m : Memory) (a : Nat) (h : k ≤ n) : (bytesAt m a n).take k = bytesAt m a k := by
  obtain ⟨j,rfl⟩ := Nat.exists_eq_add_of_le h
  rw [bytesAt_add, List.take_left' (length_bytesAt m a k)]

theorem drop_bytesAt (m : Memory) (a : Nat) (h : k ≤ n) :
    (bytesAt m a n).drop k = bytesAt m (a+k) (n-k) := by
  obtain ⟨j,rfl⟩ := Nat.exists_eq_add_of_le h
  rw [bytesAt_add, List.drop_left' (length_bytesAt m a k), Nat.add_sub_cancel_left]

theorem bytesAt_congr (h : ∀ i < n, m (a+i) = m' (b+i)) : bytesAt m a n = bytesAt m' b n := by
  induction n generalizing a b with
  | zero => simp
  | succ n ih =>
    have hhead : m a = m' b := h 0 (Nat.succ_pos n)
    have htail : bytesAt m (a+1) n = bytesAt m' (b+1) n := by
      apply ih
      intro i hi
      have hi' := h (i+1) (by omega)
      rw [add_assoc, add_assoc, add_comm 1 i]
      exact hi'
    rw [bytesAt, bytesAt, hhead, htail]

theorem bytesAt_copyMem (m : Memory) (dst src n : Nat) :
    bytesAt (copyMem m dst src n) dst n = bytesAt m src n := by
  apply bytesAt_congr
  intro i hi
  unfold copyMem
  rw [if_pos ⟨by omega, by omega⟩, Nat.add_sub_cancel_left]

theorem bytesAt_copyMem_of_disjoint {dst src len : Nat} (h : a+n ≤ dst ∨ dst+len ≤ a) :
    bytesAt (copyMem m dst src len) a n = bytesAt m a n := by
  apply bytesAt_congr
  intro i hi
  unfold copyMem
  rw [if_neg (by omega)]

end Memory

end Liano
