import Mathlib.Algebra.Ring.Nat
import Mathlib.Data.List.Basic
import Mathlib.Data.List.TakeDrop

/-! Byte arrays as lists: reading a range, overwriting a range, and what each does
to the length and to the bytes inside and outside the range. -/
namespace Liano

open List

abbrev Bytes := List UInt8

namespace Bytes

/-- The `len` bytes at `off`; shorter where the array ends. -/
def slice (b : Bytes) (off len : Nat) : Bytes := (b.drop off).take len

/-- Overwrite the bytes at `off` with `p`. -/
def patch (b : Bytes) (off : Nat) (p : Bytes) : Bytes := b.take off ++ p ++ b.drop (off+p.length)

variable {b : Bytes} {off : Nat}
variable {len : Nat} {p e : Bytes}

theorem length_slice (h : off+len ≤ b.length) : (slice b off len).length = len := by
  simp only [slice, length_take, length_drop]
  omega

@[simp] theorem length_patch (h : off+p.length ≤ b.length) : (patch b off p).length = b.length := by
  simp only [patch, length_append, length_take, length_drop]
  omega

theorem getElem?_slice (b : Bytes) (off len i : Nat) :
    (slice b off len)[i]? = if i < len then b[off+i]? else none := by
  simp only [slice, getElem?_take, getElem?_drop]

theorem getElem?_patch (h : off+p.length ≤ b.length) (i : Nat) :
    (patch b off p)[i]? = if off ≤ i ∧ i < off+p.length then p[i-off]? else b[i]? := by
  have ht : (b.take off).length = off := by
    rw [length_take]
    omega
  by_cases hlo : i < off
  · have hne : ¬ (off ≤ i ∧ i < off+p.length) := by omega
    rw [patch, append_assoc, getElem?_append_left (by omega), getElem?_take, if_pos hlo, if_neg hne]
  by_cases hhi : i < off+p.length
  · rw [patch, append_assoc, getElem?_append_right (by omega), ht,
      getElem?_append_left (by omega), if_pos ⟨by omega, hhi⟩]
  have hne : ¬ (off ≤ i ∧ i < off+p.length) := by omega
  rw [patch, append_assoc, getElem?_append_right (by omega), ht,
    getElem?_append_right (by omega), getElem?_drop, if_neg hne]
  congr 1
  omega

theorem getElem?_patch_slice {src : Bytes} (hb : off+len ≤ b.length)
    (hs : off+len ≤ src.length) (i : Nat) : (patch b off (slice src off len))[i]? =
      if off ≤ i ∧ i < off+len then src[i]? else b[i]? := by
  have hl : (slice src off len).length = len := length_slice hs
  rw [getElem?_patch (by omega), hl]
  split
  · rename_i hi
    rw [getElem?_slice, if_pos (by omega)]
    congr 1
    omega
  · rfl

theorem slice_slice {off' len' : Nat} (h : off'+len' ≤ len) :
    slice (slice b off len) off' len' = slice b (off+off') len' := by
  apply ext_getElem?
  intro i
  rw [getElem?_slice, getElem?_slice, getElem?_slice]
  split
  · rw [if_pos (by omega), add_assoc]
  · rfl

theorem slice_patch_of_disjoint {q : Nat} (h : off+p.length ≤ b.length)
    (hd : q+len ≤ off ∨ off+p.length ≤ q) : slice (patch b off p) q len = slice b q len := by
  apply ext_getElem?
  intro i
  rw [getElem?_slice, getElem?_slice]
  split
  · rw [getElem?_patch h, if_neg (by omega)]
  · rfl

theorem slice_patch_self (h : off+p.length ≤ b.length) : slice (patch b off p) off p.length = p := by
  apply ext_getElem?
  intro i
  rw [getElem?_slice]
  split
  · rw [getElem?_patch h, if_pos (by omega), Nat.add_sub_cancel_left]
  · exact (getElem?_eq_none (by omega)).symm

theorem patch_twice {q : Bytes} (h : off+p.length ≤ b.length) (hlen : q.length = p.length) :
    patch (patch b off q) off p = patch b off p := by
  apply ext_getElem?
  intro i
  rw [getElem?_patch (by rw [length_patch (by omega)]; exact h), getElem?_patch h, getElem?_patch (by omega), hlen]
  split
  · rfl
  · rfl

theorem slice_patch_behind (h : off+len+p.length ≤ b.length) :
    slice (patch b (off+len) p) off (len+p.length) = slice b off len ++ p := by
  have hlen : (slice b off len).length = len := length_slice (by omega)
  apply ext_getElem?
  intro i
  rw [getElem?_slice, getElem?_patch (by omega)]
  by_cases hlo : i < len
  · rw [if_pos (by omega), if_neg (by omega), getElem?_append_left (by omega), getElem?_slice,
      if_pos hlo]
  rw [getElem?_append_right (by omega), hlen]
  by_cases hhi : i < len+p.length
  · rw [if_pos hhi, if_pos (by omega)]
    congr 1
    omega
  · rw [if_neg hhi, getElem?_eq_none (by omega)]

theorem slice_append_left {r : Bytes} (s : Bytes) (h : off+len ≤ r.length) :
    slice (r ++ s) off len = slice r off len := by
  simp only [slice]
  rw [drop_append_of_le_length (by omega), take_append_of_le_length]
  rw [length_drop]
  omega

theorem slice_append_right (r s : Bytes) (off len : Nat) :
    slice (r ++ s) (r.length+off) len = slice s off len := by
  simp only [slice, drop_append, drop_eq_nil_of_le (Nat.le_add_right _ _),
    nil_append, Nat.add_sub_cancel_left]

theorem slice_length (r s : Bytes) : slice (r ++ s) 0 r.length = r := by simp [slice]

theorem slice_middle (r e s : Bytes) : slice (r ++ e ++ s) r.length e.length = e := by
  rw [slice, append_assoc, drop_left, take_left]

theorem patch_append (r old s p : Bytes) (h : p.length = old.length) :
    patch (r ++ old ++ s) r.length p = r ++ p ++ s := by
  rw [patch, append_assoc r old s, take_left, drop_append,
    drop_eq_nil_of_le (Nat.le_add_right _ _), nil_append, Nat.add_sub_cancel_left, h, drop_left]

@[simp] theorem patch_nil (b : Bytes) (off : Nat) : patch b off [] = b := by simp [patch]

theorem patch_append_right {x y : Bytes} (h : off+x.length+y.length ≤ b.length) :
    patch (patch b off x) (off+x.length) y = patch b off (x ++ y) := by
  apply ext_getElem?
  intro i
  have hx : off+x.length ≤ b.length := by omega
  rw [getElem?_patch (by rw [length_patch hx]; exact h), getElem?_patch hx,
    getElem?_patch (by rw [length_append]; omega), length_append]
  by_cases h1 : off+x.length ≤ i ∧ i < off+x.length+y.length
  · rw [if_pos h1, if_pos (by omega), getElem?_append_right (by omega)]
    congr 1
    omega
  rw [if_neg h1]
  by_cases h2 : off ≤ i ∧ i < off+x.length
  · rw [if_pos h2, if_pos (by omega), getElem?_append_left (by omega)]
  · rw [if_neg h2, if_neg (by omega)]

theorem patch_append_part (r e s p : Bytes) (h : off+p.length ≤ e.length) :
    patch (r ++ e ++ s) (r.length+off) p = r ++ patch e off p ++ s := by
  have htake : (e.take off).length = off := by
    rw [length_take]
    omega
  have hmid : ((e.drop off).take p.length).length = p.length := by
    rw [length_take, length_drop]
    omega
  have he : e = e.take off ++ (e.drop off).take p.length ++ e.drop (off+p.length) := by
    rw [append_assoc, ← drop_drop, take_append_drop, take_append_drop]
  have hwhole : r ++ e ++ s = (r ++ e.take off) ++ (e.drop off).take p.length ++
      (e.drop (off+p.length) ++ s) := by
    conv_lhs => rw [he]
    simp only [append_assoc]
  have hoff : r.length+off = (r ++ e.take off).length := by rw [length_append, htake]
  rw [hwhole, hoff, patch_append _ _ _ _ hmid.symm, patch]
  simp only [append_assoc]

/-- The bytes `e` lie at `p` in `b`. -/
def HoldsAt (b : Bytes) (p : Nat) (e : Bytes) : Prop := ∃ r s, b = r ++ e ++ s ∧ r.length = p

theorem holdsAt_self (e : Bytes) : HoldsAt e 0 e := ⟨[], [], by simp, rfl⟩

section
variable {p : Nat} (h : HoldsAt b p e)
include h

theorem HoldsAt.slice_eq (hle : off+len ≤ e.length) : slice b (p+off) len = slice e off len := by
  obtain ⟨r,s,rfl,rfl⟩ := h
  rw [append_assoc, slice_append_right, slice_append_left s hle]

theorem HoldsAt.getD_eq (hlt : off < e.length) (d : UInt8) : b.getD (p+off) d = e.getD off d := by
  obtain ⟨r,s,rfl,rfl⟩ := h
  rw [getD_eq_getElem?_getD, append_assoc,
    getElem?_append_right (Nat.le_add_right _ _), Nat.add_sub_cancel_left,
    getElem?_append_left hlt, getD_eq_getElem?_getD]

theorem HoldsAt.drop_eq (hle : off ≤ e.length) : ∃ s, b.drop (p+off) = e.drop off ++ s := by
  obtain ⟨r,s,rfl,rfl⟩ := h
  refine ⟨s, ?_⟩
  rw [append_assoc, ← drop_drop, drop_left, drop_append_of_le_length hle]

theorem HoldsAt.length_le : p+e.length ≤ b.length := by
  obtain ⟨r,s,rfl,rfl⟩ := h
  simp only [length_append]
  omega

end

theorem HoldsAt.patch {d : Bytes} {p : Nat} (h : HoldsAt b p e)
    (hle : off+d.length ≤ e.length) : HoldsAt (patch b (p+off) d) p (patch e off d) := by
  obtain ⟨r,s,rfl,rfl⟩ := h
  exact ⟨r, s, patch_append_part r e s d hle, rfl⟩

def leValue : Bytes → Nat
  | [] => 0
  | b :: bs => b.toNat + 256 * leValue bs

/-- The `k` low bytes of `n`. -/
def leBytes : Nat → Nat → Bytes
  | 0, _ => []
  | k+1, n => UInt8.ofNat n :: leBytes k (n / 256)

@[simp] theorem length_leBytes (k n : Nat) : (leBytes k n).length = k := by
  induction k generalizing n with
  | zero => rfl
  | succ k ih => simp [leBytes, ih]

theorem leValue_lt (b : Bytes) : leValue b < 256^b.length := by
  induction b with
  | nil => exact Nat.one_pos
  | cons x b ih =>
    have hx := x.toNat_lt
    rw [leValue, length_cons, pow_succ]
    omega

theorem leValue_slice_lt (b : Bytes) (off len : Nat) : leValue (slice b off len) < 256^len := by
  refine lt_of_lt_of_le (leValue_lt _) (Nat.pow_le_pow_right (by decide) ?_)
  rw [slice, length_take]
  exact min_le_left _ _

theorem leValue_leBytes (k n : Nat) : leValue (leBytes k n) = n % 256^k := by
  induction k generalizing n with
  | zero => simp [leBytes, leValue, Nat.mod_one]
  | succ k ih =>
    have hb : (UInt8.ofNat n).toNat = n % 256 := by simp
    rw [leBytes, leValue, ih, hb, pow_succ, mul_comm (256^k), Nat.mod_mul]

theorem leBytes_leValue (b : Bytes) : leBytes b.length (leValue b) = b := by
  induction b with
  | nil => rfl
  | cons x b ih =>
    have hx := x.toNat_lt
    have hdiv : (x.toNat + 256 * leValue b) / 256 = leValue b := by omega
    have hhead : UInt8.ofNat (x.toNat + 256 * leValue b) = x := by
      apply UInt8.toNat_inj.mp
      rw [UInt8.toNat_ofNat']
      omega
    rw [leValue, length_cons, leBytes, hdiv, ih, hhead]

theorem slice_append_drop (b : Bytes) (off len : Nat) : slice b off len ++ b.drop (off+len) = b.drop off := by
  rw [slice, ← drop_drop, take_append_drop]

end Bytes
end Liano
