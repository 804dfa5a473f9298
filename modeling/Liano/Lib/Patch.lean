import Mathlib.Logic.Function.Basic

/-! A range of a function on the naturals that is replaced, as a copy into an array replaces it. -/
namespace Liano.Lib

variable {α : Type} {f b : Nat → α} {offset size q : Nat}

def patch (f : Nat → α) (offset size : Nat) (buffer : Nat → α) : Nat → α := fun i =>
  if offset ≤ i ∧ i < offset+size then buffer (i-offset) else f i

theorem patch_inside (h : offset ≤ q) (h' : q < offset+size) :
    patch f offset size b q = b (q-offset) := if_pos ⟨h, h'⟩

theorem patch_outside (h : ¬(offset ≤ q ∧ q < offset+size)) : patch f offset size b q = f q := if_neg h

theorem patch_patch (f b : Nat → α) (pos n m : Nat) :
    patch (patch f pos n b) (pos+n) m (fun i => b (n+i)) = patch f pos (n+m) b := by
  funext q
  by_cases hfirst : pos ≤ q ∧ q < pos+n
  · rw [patch_outside (by omega), patch_inside hfirst.1 hfirst.2, patch_inside hfirst.1 (by omega)]
  by_cases hsecond : pos+n ≤ q ∧ q < pos+n+m
  · rw [patch_inside hsecond.1 hsecond.2, patch_inside (by omega) (by omega)]
    congr 1
    omega
  · rw [patch_outside hsecond, patch_outside hfirst, patch_outside (by omega)]

end Liano.Lib
