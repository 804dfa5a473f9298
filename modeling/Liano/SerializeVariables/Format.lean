import Liano.Efi
import Liano.Lib.Bytes

/-! The serialized form of variables: packed records with two lengths in them, and the reader that checks
the lengths against the end of the buffer. -/
namespace Liano.SerializeVariables

open List

open Bytes

/-- How a computation stops before its end: with an error status, or by reading behind the end of what it
was given. -/
inductive Stop
  | status (s : EfiStatus)
  | outside
deriving DecidableEq, Repr

structure Record where
  name : Bytes
  guid : Bytes
  attributes : UInt32
  data : Bytes
  guid_length : guid.length = 16
  name_lt : name.length < 2^32
  data_lt : data.length < 2^32

def Record.encode (r : Record) : Bytes :=
  leBytes 4 r.name.length ++ r.name ++ r.guid ++ leBytes 4 r.attributes.toNat ++ leBytes 4 r.data.length ++ r.data

def encodeAll (rs : List Record) : Bytes := rs.flatMap Record.encode

/-- What `UnpackVariableFromBuffer` hands back, with the bytes in place of the addresses. -/
structure Unpacked where
  name : Bytes
  guid : Bytes
  attributes : UInt32
  data : Bytes
  sizeUsed : Nat
deriving DecidableEq

/-- `*(UINT32*) (BytePtr + Offset)`. -/
def read32 (buffer : Bytes) (offset : Nat) : Except Stop Nat :=
  if offset+4 ≤ buffer.length then .ok (leValue (slice buffer offset 4)) else .error .outside

/-- `if (Offset > MaxSize) return EFI_INVALID_PARAMETER`. -/
def within (buffer : Bytes) (offset : Nat) : Except Stop Unit :=
  if offset > buffer.length then .error (.status .invalidParameter) else .ok ()

/-- The length of the buffer is `MaxSize`. Each field is read before the check behind it. -/
def unpackVariableFromBuffer (buffer : Bytes) : Except Stop Unpacked := do
  let nameSize ← read32 buffer 0
  within buffer 4
  within buffer (4+nameSize)
  within buffer (4+nameSize+16)
  let attributes ← read32 buffer (4+nameSize+16)
  within buffer (4+nameSize+16+4)
  let dataSize ← read32 buffer (4+nameSize+16+4)
  within buffer (4+nameSize+16+4+4)
  within buffer (4+nameSize+16+4+4+dataSize)
  pure {
    name := slice buffer 4 nameSize
    guid := slice buffer (4+nameSize) 16
    attributes := UInt32.ofNat attributes
    data := slice buffer (4+nameSize+16+4+4) dataSize
    sizeUsed := 4+nameSize+16+4+4 + dataSize }

def nameSizeOf (buffer : Bytes) : Nat := leValue (slice buffer 0 4)

def dataSizeOf (buffer : Bytes) : Nat := leValue (slice buffer (4 + nameSizeOf buffer + 16 + 4) 4)

def unpackedOf (buffer : Bytes) : Unpacked where
  name := slice buffer 4 (nameSizeOf buffer)
  guid := slice buffer (4 + nameSizeOf buffer) 16
  attributes := UInt32.ofNat (leValue (slice buffer (4 + nameSizeOf buffer + 16) 4))
  data := slice buffer (4 + nameSizeOf buffer + 16 + 4 + 4) (dataSizeOf buffer)
  sizeUsed := 4 + nameSizeOf buffer + 16 + 4 + 4 + dataSizeOf buffer

section Reader

variable {buffer : Bytes} {offset : Nat}

theorem read32_inside (h : offset+4 ≤ buffer.length) :
    read32 buffer offset = .ok (leValue (slice buffer offset 4)) := if_pos h

theorem read32_outside (h : buffer.length < offset+4) : read32 buffer offset = .error .outside :=
  if_neg (not_le.mpr h)

theorem within_inside (h : offset ≤ buffer.length) : within buffer offset = .ok () := if_neg (not_lt.mpr h)

theorem within_outside (h : buffer.length < offset) :
    within buffer offset = .error (.status .invalidParameter) := if_pos h

theorem ok_bind {ε α β : Type} (a : α) (f : α → Except ε β) : (Except.ok a >>= f) = f a := rfl

theorem error_bind {ε α β : Type} (e : ε) (f : α → Except ε β) : (Except.error e >>= f) = Except.error e := rfl

end Reader

theorem unpack_cases (buffer : Bytes) : unpackVariableFromBuffer buffer =
    if buffer.length < 4 then .error .outside
    else if buffer.length < 4 + nameSizeOf buffer + 16 then .error (.status .invalidParameter)
    else if buffer.length < 4 + nameSizeOf buffer + 16 + 4 + 4 then .error .outside
    else if buffer.length < 4 + nameSizeOf buffer + 16 + 4 + 4 + dataSizeOf buffer then
      .error (.status .invalidParameter) else .ok (unpackedOf buffer) := by
  unfold unpackVariableFromBuffer
  split
  · rename_i h
    rw [read32_outside (by omega), error_bind]
  rename_i h4
  rw [read32_inside (by omega), ok_bind, within_inside (by omega), ok_bind]
  change (within buffer (4 + nameSizeOf buffer) >>= _) = _
  split
  · rename_i h
    by_cases hname : buffer.length < 4 + nameSizeOf buffer
    · rw [within_outside hname, error_bind]
    · rw [within_inside (by omega), ok_bind]
      change (within buffer (4 + nameSizeOf buffer + 16) >>= _) = _
      rw [within_outside h, error_bind]
  rename_i h16
  rw [within_inside (by omega), ok_bind]
  change (within buffer (4 + nameSizeOf buffer + 16) >>= _) = _
  rw [within_inside (by omega), ok_bind]
  change (read32 buffer (4 + nameSizeOf buffer + 16) >>= _) = _
  split
  · rename_i h
    by_cases hattr : buffer.length < 4 + nameSizeOf buffer + 16 + 4
    · rw [read32_outside hattr, error_bind]
    rw [read32_inside (by omega), ok_bind]
    change (within buffer (4 + nameSizeOf buffer + 16 + 4) >>= _) = _
    rw [within_inside (by omega), ok_bind]
    change (read32 buffer (4 + nameSizeOf buffer + 16 + 4) >>= _) = _
    rw [read32_outside h, error_bind]
  rename_i h8
  rw [read32_inside (by omega), ok_bind]
  change (within buffer (4 + nameSizeOf buffer + 16 + 4) >>= _) = _
  rw [within_inside (by omega), ok_bind]
  change (read32 buffer (4 + nameSizeOf buffer + 16 + 4) >>= _) = _
  rw [read32_inside (by omega), ok_bind]
  change (within buffer (4 + nameSizeOf buffer + 16 + 4 + 4) >>= _) = _
  rw [within_inside (by omega), ok_bind]
  change (within buffer (4 + nameSizeOf buffer + 16 + 4 + 4 + dataSizeOf buffer) >>= _) = _
  split
  · rename_i h
    rw [within_outside h, error_bind]
  · rename_i h
    rw [within_inside (by omega), ok_bind]
    rfl

theorem Record.length_encode (r : Record) : r.encode.length = 4+r.name.length+16+4+4+r.data.length := by
  simp only [Record.encode, length_append, length_leBytes, r.guid_length]

theorem encodeAll_cons (r : Record) (rs : List Record) : encodeAll (r :: rs) = r.encode ++ encodeAll rs := rfl

theorem slice_field {b p e s : Bytes} {off len : Nat} (hb : b = p ++ e ++ s) (hp : p.length = off)
    (he : e.length = len) : slice b off len = e := by rw [hb, ← hp, ← he, slice_middle]

variable (r : Record) (t : Bytes)

theorem nameSizeOf_encode : nameSizeOf (r.encode ++ t) = r.name.length := by
  have hfld : slice (r.encode ++ t) 0 4 = leBytes 4 r.name.length :=
    slice_field (p := []) (by simp [Record.encode]; rfl) rfl (length_leBytes 4 _)
  rw [nameSizeOf, hfld, leValue_leBytes]
  exact Nat.mod_eq_of_lt r.name_lt

theorem dataSizeOf_encode : dataSizeOf (r.encode ++ t) = r.data.length := by
  have hfld : slice (r.encode ++ t) (4+r.name.length+16+4) 4 = leBytes 4 r.data.length :=
    slice_field (p := leBytes 4 r.name.length ++ r.name ++ r.guid ++ leBytes 4 r.attributes.toNat)
      (by simp [Record.encode]; rfl)
      (by simp only [length_append, length_leBytes, r.guid_length]) (length_leBytes 4 _)
  rw [dataSizeOf, nameSizeOf_encode, hfld, leValue_leBytes]
  exact Nat.mod_eq_of_lt r.data_lt

theorem unpackedOf_encode : unpackedOf (r.encode ++ t) =
    ⟨r.name, r.guid, r.attributes, r.data, r.encode.length⟩ := by
  have hguid := r.guid_length
  have hname : slice (r.encode ++ t) 4 r.name.length = r.name :=
    slice_field (p := leBytes 4 r.name.length) (by simp [Record.encode]; rfl) (length_leBytes 4 _) rfl
  have hguidFld : slice (r.encode ++ t) (4+r.name.length) 16 = r.guid :=
    slice_field (p := leBytes 4 r.name.length ++ r.name) (by simp [Record.encode]; rfl)
      (by simp only [length_append, length_leBytes]) hguid
  have hattr : slice (r.encode ++ t) (4+r.name.length+16) 4 = leBytes 4 r.attributes.toNat :=
    slice_field (p := leBytes 4 r.name.length ++ r.name ++ r.guid) (by simp [Record.encode]; rfl)
      (by simp only [length_append, length_leBytes, hguid]) (length_leBytes 4 _)
  have hdata : slice (r.encode ++ t) (4+r.name.length+16+4+4) r.data.length = r.data :=
    slice_field (p := leBytes 4 r.name.length ++ r.name ++ r.guid ++ leBytes 4 r.attributes.toNat ++
        leBytes 4 r.data.length) (by simp [Record.encode]; rfl)
      (by simp only [length_append, length_leBytes, hguid]) rfl
  have hval : leValue (leBytes 4 r.attributes.toNat) = r.attributes.toNat := by
    rw [leValue_leBytes]
    exact Nat.mod_eq_of_lt r.attributes.toNat_lt
  rw [unpackedOf, nameSizeOf_encode, dataSizeOf_encode, hname, hguidFld, hattr, hdata, hval,
    r.length_encode, UInt32.ofNat_toNat]

theorem unpack_encode : unpackVariableFromBuffer (r.encode ++ t) =
    .ok ⟨r.name, r.guid, r.attributes, r.data, r.encode.length⟩ := by
  have hlen : (r.encode ++ t).length = 4+r.name.length+16+4+4+r.data.length+t.length := by
    rw [length_append, r.length_encode]
  rw [unpack_cases, nameSizeOf_encode, dataSizeOf_encode, hlen, if_neg (by omega), if_neg (by omega),
    if_neg (by omega), if_neg (by omega), unpackedOf_encode]

theorem unpack_ok {b : Bytes} {u : Unpacked} (h : unpackVariableFromBuffer b = .ok u) :
    ∃ (r : Record) (t : Bytes), b = r.encode ++ t := by
  rw [unpack_cases] at h
  have hlen : 4 + nameSizeOf b + 16 + 4 + 4 + dataSizeOf b ≤ b.length := by
    split at h
    · cases h
    split at h
    · cases h
    split at h
    · cases h
    split at h
    · cases h
    omega
  have hsize (off len : Nat) (hle : off+len ≤ b.length) : (slice b off len).length = len := length_slice hle
  have hname : (slice b 4 (nameSizeOf b)).length = nameSizeOf b := hsize _ _ (by omega)
  have hdata : (slice b (4 + nameSizeOf b + 16 + 4 + 4) (dataSizeOf b)).length = dataSizeOf b :=
    hsize _ _ (by omega)
  -- The four-byte fields are the bytes of the numbers that are read from them.
  have hfld (off : Nat) (hle : off+4 ≤ b.length) : leBytes 4 (leValue (slice b off 4)) = slice b off 4 := by
    have hback := leBytes_leValue (slice b off 4)
    rwa [hsize _ _ hle] at hback
  refine ⟨⟨slice b 4 (nameSizeOf b), slice b (4 + nameSizeOf b) 16,
    UInt32.ofNat (leValue (slice b (4 + nameSizeOf b + 16) 4)),
    slice b (4 + nameSizeOf b + 16 + 4 + 4) (dataSizeOf b), hsize _ _ (by omega), ?_, ?_⟩,
    b.drop (4 + nameSizeOf b + 16 + 4 + 4 + dataSizeOf b), ?_⟩
  · rw [hname]
    exact leValue_slice_lt b 0 4
  · rw [hdata]
    exact leValue_slice_lt b _ 4
  · have hattr : (UInt32.ofNat (leValue (slice b (4 + nameSizeOf b + 16) 4))).toNat =
        leValue (slice b (4 + nameSizeOf b + 16) 4) := by
      rw [UInt32.toNat_ofNat']
      exact Nat.mod_eq_of_lt (leValue_slice_lt b _ 4)
    simp only [Record.encode, hname, hdata, hattr]
    rw [hfld _ (by omega), show leBytes 4 (nameSizeOf b) = slice b 0 4 from hfld 0 (by omega),
      show leBytes 4 (dataSizeOf b) = slice b (4 + nameSizeOf b + 16 + 4) 4 from hfld _ (by omega)]
    simp only [append_assoc, slice_append_drop]
    have hfst := slice_append_drop b 0 4
    rw [drop_zero] at hfst
    exact hfst.symm

end Liano.SerializeVariables
