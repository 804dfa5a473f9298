import Liano.Efi
import Mathlib.Logic.Function.Basic

/-! A virtio ring and the functions that drive it (VirtioLib.c): a descriptor table, the available ring that
the guest writes and the used ring that the host writes. The indices of the two rings are 16 bits wide and
run freely; the slots are their values modulo the queue size. -/
namespace Liano.Virtio

open List

structure VringDesc where
  addr : UInt64
  len : UInt32
  flags : UInt16
  next : Nat
deriving DecidableEq, Repr

structure VringUsedElem where
  id : Nat
  len : UInt32
deriving DecidableEq, Repr

/-- VRING, with the arrays its pointers lead to. -/
structure Vring where
  desc : Nat → VringDesc
  availFlags : UInt16
  availIdx : Nat
  availRing : Nat → Nat
  usedIdx : Nat
  usedElem : Nat → VringUsedElem
  queueSize : Nat

structure DescIndices where
  headDescIdx : Nat
  nextDescIdx : Nat
deriving DecidableEq, Repr

def vringDescFNext : UInt16 := 1

def vringAvailFNoInterrupt : UInt16 := 1

/-- `VirtioRingInit`: the pages are filled with zeros. -/
def virtioRingInit (queueSize : Nat) : Vring where
  desc := fun _ => ⟨0, 0, 0, 0⟩
  availFlags := 0
  availIdx := 0
  availRing := fun _ => 0
  usedIdx := 0
  usedElem := fun _ => ⟨0, 0⟩
  queueSize := queueSize

def virtioPrepare (ring : Vring) : Vring × DescIndices :=
  ({ ring with availFlags := vringAvailFNoInterrupt }, ⟨0, 0⟩)

structure Buffer where
  addr : UInt64
  len : UInt32
  flags : UInt16
deriving DecidableEq, Repr

def virtioAppendDesc (ring : Vring) (buffer : Buffer) (indices : DescIndices) : Vring × DescIndices :=
  ({ ring with
      desc := Function.update ring.desc (indices.nextDescIdx % ring.queueSize)
        ⟨buffer.addr, buffer.len, buffer.flags, toUint16 (indices.nextDescIdx+1) % ring.queueSize⟩ },
    { indices with nextDescIdx := toUint16 (indices.nextDescIdx+1) })

/-- `VirtioFlush` up to the notification: the head of the chain goes into the available ring. -/
def makeAvailable (ring : Vring) (indices : DescIndices) : Vring := { ring with
    availRing := Function.update ring.availRing (ring.availIdx % ring.queueSize)
      (indices.headDescIdx % ring.queueSize)
    availIdx := toUint16 (ring.availIdx+1) }

/-- The locals of `VirtioFlush` in its polling loop. -/
structure Polling where
  nextAvailIdx : Nat
  lastUsedIdx : Nat
deriving DecidableEq, Repr

/-- The loop ends when `*Ring->Used.Idx == NextAvailIdx`. -/
def isDone (ring : Vring) (polling : Polling) : Bool := ring.usedIdx == polling.nextAvailIdx

def usedElemOf (ring : Vring) (polling : Polling) : VringUsedElem :=
  ring.usedElem (polling.lastUsedIdx % ring.queueSize)

def Buffer.hasNext (buffer : Buffer) : Bool := buffer.flags &&& vringDescFNext != 0

def VringDesc.buffer (desc : VringDesc) : Buffer := ⟨desc.addr, desc.len, desc.flags⟩

/-- The chain of descriptors that starts at an index; the host follows Next where NEXT is set. -/
def chainFrom (ring : Vring) : Nat → Nat → List Buffer
  | 0, _ => []
  | fuel+1, i =>
    (ring.desc i).buffer ::
      if (ring.desc i).buffer.hasNext then chainFrom ring fuel (ring.desc i).next else []

def publish (ring : Vring) (id : Nat) (len : UInt32) : Vring := { ring with
    usedElem := Function.update ring.usedElem (ring.usedIdx % ring.queueSize) ⟨id, len⟩
    usedIdx := toUint16 (ring.usedIdx+1) }

end Liano.Virtio
