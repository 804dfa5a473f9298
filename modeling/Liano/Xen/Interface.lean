import Liano.Lib.Bytes
import Liano.Lib.Ring

/-! The memory that a guest shares with the XenStore service, and the regions of its rings that are free or
filled (OvmfPkg/XenBusDxe/XenStore.c). -/
namespace Liano.Xen
open Lib

def xenstoreRingSize : Nat := 1024

/-- The width of XENSTORE_RING_IDX. -/
def idxWidth : Nat := 2^32

/-- struct xenstore_domain_interface -/
structure DomainInterface where
  req : Nat → UInt8
  rsp : Nat → UInt8
  reqCons : Nat
  reqProd : Nat
  rspCons : Nat
  rspProd : Nat

def maskXenstoreIdx (idx : Nat) : Nat := idx &&& (xenstoreRingSize-1)

/-- `Prod - Cons` in XENSTORE_RING_IDX. -/
def idxSub (prod cons : Nat) : Nat := Ring.distance idxWidth prod cons

def idxAdd (idx n : Nat) : Nat := (idx+n) % idxWidth

def xenStoreCheckIndexes (cons prod : Nat) : Bool := decide (idxSub prod cons ≤ xenstoreRingSize)

def xenStoreGetOutputChunk (cons prod : Nat) : Nat × Nat :=
  if xenstoreRingSize - idxSub prod cons < xenstoreRingSize - maskXenstoreIdx prod then
    (maskXenstoreIdx prod, xenstoreRingSize - idxSub prod cons)
  else (maskXenstoreIdx prod, xenstoreRingSize - maskXenstoreIdx prod)

def xenStoreGetInputChunk (cons prod : Nat) : Nat × Nat :=
  if idxSub prod cons < xenstoreRingSize - maskXenstoreIdx cons then
    (maskXenstoreIdx cons, idxSub prod cons)
  else (maskXenstoreIdx cons, xenstoreRingSize - maskXenstoreIdx cons)

variable {a b n : Nat}

theorem maskXenstoreIdx_eq (idx : Nat) : maskXenstoreIdx idx = idx % xenstoreRingSize :=
  Nat.and_two_pow_sub_one_eq_mod idx 10

theorem ringSize_dvd : xenstoreRingSize ∣ idxWidth := ⟨2^22, by decide⟩

theorem maskXenstoreIdx_register (a : Nat) : maskXenstoreIdx (a % idxWidth) = a % xenstoreRingSize := by
  rw [maskXenstoreIdx_eq, Ring.slot_register ringSize_dvd]

theorem distance_register (width a b : Nat) :
    Ring.distance width (a % width) (b % width) = Ring.distance width a b := by
  simp only [Ring.distance, Nat.mod_mod]

theorem idxSub_register (hle : b ≤ a) (h : a < b+idxWidth) :
    idxSub (a % idxWidth) (b % idxWidth) = a-b := by
  rw [idxSub, distance_register, Ring.distance_eq hle h]

section
variable (hle : b ≤ a) (h : a ≤ b+xenstoreRingSize)
include hle h

theorem idxSub_ring : idxSub (a % idxWidth) (b % idxWidth) = a-b :=
  idxSub_register hle (lt_of_le_of_lt h (Nat.add_lt_add_left (by decide) b))

/-- The free region starts at the slot of the producer, does not leave the ring and is free. -/
theorem outputChunk_spec :
    (xenStoreGetOutputChunk (b % idxWidth) (a % idxWidth)).1 = a % xenstoreRingSize ∧
      a % xenstoreRingSize + (xenStoreGetOutputChunk (b % idxWidth) (a % idxWidth)).2 ≤ xenstoreRingSize ∧
      a + (xenStoreGetOutputChunk (b % idxWidth) (a % idxWidth)).2 ≤ b+xenstoreRingSize ∧
      (a < b+xenstoreRingSize → 0 < (xenStoreGetOutputChunk (b % idxWidth) (a % idxWidth)).2) := by
  have hslot : a % xenstoreRingSize < xenstoreRingSize := Nat.mod_lt _ (by decide)
  simp only [xenStoreGetOutputChunk, idxSub_ring hle h, maskXenstoreIdx_register]
  split
  · refine ⟨rfl, ?_, ?_, ?_⟩
    all_goals omega
  · refine ⟨rfl, ?_, ?_, ?_⟩
    all_goals omega

/-- The data start at the slot of the consumer, do not leave the ring and have been produced. -/
theorem inputChunk_spec :
    (xenStoreGetInputChunk (b % idxWidth) (a % idxWidth)).1 = b % xenstoreRingSize ∧
      b % xenstoreRingSize + (xenStoreGetInputChunk (b % idxWidth) (a % idxWidth)).2 ≤ xenstoreRingSize ∧
      b + (xenStoreGetInputChunk (b % idxWidth) (a % idxWidth)).2 ≤ a ∧
      (b < a → 0 < (xenStoreGetInputChunk (b % idxWidth) (a % idxWidth)).2) := by
  have hslot : b % xenstoreRingSize < xenstoreRingSize := Nat.mod_lt _ (by decide)
  simp only [xenStoreGetInputChunk, idxSub_ring hle h, maskXenstoreIdx_register]
  split
  · refine ⟨rfl, ?_, ?_, ?_⟩
    all_goals omega
  · refine ⟨rfl, ?_, ?_, ?_⟩
    all_goals omega

end

end Liano.Xen
