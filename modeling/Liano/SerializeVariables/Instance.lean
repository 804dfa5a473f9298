import Liano.Lib.Fallible
import Liano.SerializeVariables.Format

/-! Serialization instances: variables added one by one, the buffer written out and read in, and the
iteration that calls back for every record. -/
namespace Liano.SerializeVariables

open List

open Bytes
open Lib (Fallible)
open Lib.Fallible

/-- The pool allocator, which answers each request in its turn, and what the callbacks work on. -/
structure World (γ : Type) where
  pool : Nat → Bool
  calls : Nat
  user : γ

variable {γ : Type}

abbrev Service (γ α : Type) := Fallible Stop (World γ) α

def fail {α : Type} (s : EfiStatus) : Service γ α := throw (.status s)

/-- `AllocatePool (..) != NULL`. -/
def allocatePool : Service γ Bool := lift fun w => (w.pool w.calls, { w with calls := w.calls + 1 })

def ofExcept {α : Type} : Except Stop α → Service γ α
  | .ok a => pure a
  | .error e => throw e

structure Entry where
  name : Bytes
  guid : Bytes
  attributes : UInt32
  data : Bytes
deriving DecidableEq, Repr

abbrev Callback (γ : Type) := Entry → Service γ Unit

def statusOf (x : Service γ Unit) : Service γ EfiStatus := ExceptT.mk fun w =>
  match exec x w with
  | (.ok _, w') => (.ok .success, w')
  | (.error (.status s), w') => (.ok s, w')
  | (.error .outside, w') => (.error .outside, w')

/-- The aligned copy of a name. `AlignedNameMaxSize` stays zero, so every name that is not empty gets a
buffer of its own; an empty one finds the copy before it. -/
def alignName (aligned : Option Bytes) (name : Bytes) : Service γ Bytes := if name.length > 0 then do
    if ← allocatePool then pure name else fail .outOfResources
  else match aligned with
    | some block => pure block
    | none => fail .outOfResources

/-- The loop of `IterateVariablesInBuffer` over what is left of the buffer, and the size check behind it.
Every record is longer than a byte, so the length of the buffer is enough fuel. -/
def iterateFrom (callback : Callback γ) : Nat → Option Bytes → Bytes → Service γ Unit
  | 0, _, _ => pure ()
  | fuel+1, aligned, rest =>
    if rest = [] then pure ()
    else do
      let u ← ofExcept (unpackVariableFromBuffer rest)
      let block ← alignName aligned u.name
      let status ← statusOf (callback ⟨block, u.guid, u.attributes, u.data⟩)
      if status.isError then
        if rest.drop u.sizeUsed = [] then pure () else fail .invalidParameter
      else iterateFrom callback fuel (some block) (rest.drop u.sizeUsed)

def iterateVariablesInBuffer (callback : Callback γ) (buffer : Bytes) : Service γ Unit :=
  iterateFrom callback buffer.length none buffer

/-- `SV_INSTANCE`: the bytes that are used, and `BufferSize`. -/
structure Instance where
  data : Bytes
  bufferSize : Nat
deriving DecidableEq, Repr

/-- `StrSize`: the characters up to the terminator, which must lie in the copy. -/
def strSize : Bytes → Except Stop Nat
  | low :: high :: rest =>
    if low = 0 ∧ high = 0 then .ok 2
    else match strSize rest with
      | .ok n => .ok (n+2)
      | .error e => .error e
  | _ => .error .outside

def instanceOf : Service Instance Instance := lift fun w => (w.user,w)

def setInstance (inst : Instance) : Service Instance Unit := lift fun w => ((), { w with user := inst })

def ensureExtraBufferSpace (size : Nat) : Service Instance Unit := do
  let inst ← instanceOf
  if inst.data.length+size ≤ inst.bufferSize then pure ()
  else if ← allocatePool then setInstance { inst with bufferSize := 2 * (inst.data.length+size) }
  else fail .outOfResources

def appendToBuffer (bytes : Bytes) : Service Instance Unit := do
  let inst ← instanceOf
  if inst.data.length+bytes.length ≤ inst.bufferSize then
    setInstance { inst with data := inst.data ++ bytes }
  else throw .outside

def serializeVariablesAddVariable (e : Entry) : Service Instance Unit := do
  let size ← ofExcept (strSize e.name)
  let serializedNameSize := size % 2^32
  ensureExtraBufferSpace (4+serializedNameSize+16+4+4+e.data.length)
  appendToBuffer (leBytes 4 serializedNameSize)
  appendToBuffer (e.name.take serializedNameSize)
  appendToBuffer e.guid
  appendToBuffer (leBytes 4 e.attributes.toNat)
  appendToBuffer (leBytes 4 (e.data.length % 2^32))
  appendToBuffer e.data

def iterateVariablesCallbackNop (_ : Entry) : Service γ Unit := pure ()

def serializeVariablesNewInstance : Service Instance Unit := do
  if ← allocatePool then setInstance ⟨[], 0⟩ else fail .outOfResources

def serializeVariablesNewInstanceFromBuffer (buffer : Bytes) : Service Instance Unit := do
  serializeVariablesNewInstance
  iterateVariablesInBuffer iterateVariablesCallbackNop buffer
  iterateVariablesInBuffer serializeVariablesAddVariable buffer

/-- The bytes that are written, for the caller's `Size` and whether its `Buffer` is set. -/
def serializeVariablesToBuffer (inst : Instance) (hasBuffer : Bool) : Option Nat → Except EfiStatus Bytes
  | none => .error .invalidParameter
  | some size =>
    if size < inst.data.length then .error .bufferTooSmall
    else if hasBuffer then .ok inst.data else .error .invalidParameter

def serializeVariablesIterateInstanceVariables (callback : Callback γ) (inst : Instance) : Service γ Unit :=
  if inst.data = [] then pure () else iterateVariablesInBuffer callback inst.data

def EFI_VARIABLE_AUTHENTICATED_WRITE_ACCESS : UInt32 := 0x10
def EFI_VARIABLE_TIME_BASED_AUTHENTICATED_WRITE_ACCESS : UInt32 := 0x20

/-- `gRT->SetVariable` on the platform's variables. -/
abbrev SetVariable (γ : Type) := Entry → γ → EfiStatus × γ

def iterateVariablesCallbackSetSystemVariable (setVariable : SetVariable γ) (e : Entry) : Service γ Unit := do
  let status ← lift fun w => ((setVariable e w.user).1, { w with user := (setVariable e w.user).2 })
  if status = .securityViolation ∧ e.attributes &&& (EFI_VARIABLE_AUTHENTICATED_WRITE_ACCESS |||
        EFI_VARIABLE_TIME_BASED_AUTHENTICATED_WRITE_ACCESS) ≠ 0 then pure ()
  else if status = .writeProtected then pure ()
  else if status.isError then fail status
  else pure ()

def serializeVariablesSetSerializedVariables (setVariable : SetVariable γ) (inst : Instance) :
    Service γ Unit :=
  serializeVariablesIterateInstanceVariables (iterateVariablesCallbackSetSystemVariable setVariable) inst

/-- A variable: its name has no terminator in it, and the sizes of the serialized name and of the data are
below 4 GiB. -/
structure Variable where
  name : List UInt16
  guid : Bytes
  attributes : UInt32
  data : Bytes
  noNul : 0 ∉ name
  guid_length : guid.length = 16
  name_lt : 2 * (name.length+1) < 2^32
  data_lt : data.length < 2^32

def ucs2 (name : List UInt16) : Bytes := name.flatMap (fun c => leBytes 2 c.toNat) ++ [0, 0]

def Variable.entry (v : Variable) : Entry := ⟨ucs2 v.name, v.guid, v.attributes, v.data⟩

theorem length_ucs2 (name : List UInt16) : (ucs2 name).length = 2 * (name.length+1) := by
  induction name with
  | nil => rfl
  | cons c name ih =>
    simp only [ucs2, flatMap_cons, append_assoc, length_append, length_leBytes, length_cons] at ih ⊢
    omega

def Variable.record (v : Variable) : Record where
  name := ucs2 v.name
  guid := v.guid
  attributes := v.attributes
  data := v.data
  guid_length := v.guid_length
  name_lt := by
    rw [length_ucs2]
    exact v.name_lt
  data_lt := v.data_lt

def serialized (vs : List Variable) : Bytes := encodeAll (vs.map Variable.record)

theorem strSize_ucs2 {name : List UInt16} (h : 0 ∉ name) : strSize (ucs2 name) = .ok (ucs2 name).length := by
  induction name with
  | nil => rfl
  | cons c name ih =>
    simp only [mem_cons, not_or] at h
    have hc : ¬(UInt8.ofNat c.toNat = 0 ∧ UInt8.ofNat (c.toNat / 256) = 0) := by
      rintro ⟨hlow,hhigh⟩
      have hlow' : c.toNat % 256 = 0 := by simpa using congrArg UInt8.toNat hlow
      have hhigh' : c.toNat / 256 % 256 = 0 := by simpa using congrArg UInt8.toNat hhigh
      have hlt := c.toNat_lt
      refine h.1 (UInt16.toNat_inj.mp ?_).symm
      rw [UInt16.toNat_zero]
      omega
    have hcons : ucs2 (c :: name) = UInt8.ofNat c.toNat :: UInt8.ofNat (c.toNat / 256) :: ucs2 name := rfl
    rw [hcons, strSize, if_neg hc, ih h.2]
    rfl

end Liano.SerializeVariables
