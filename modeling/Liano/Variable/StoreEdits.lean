import Liano.Variable.Lookup

/-! What the driver does to a store, on its entries: a change of one entry's state, and an entry
written behind the last one. -/
namespace Liano.Variable

open List hiding append replace

open Bytes (slice patch leBytes HoldsAt)

def setState (e : Bytes) (s : UInt8) : Bytes := patch e offsetOfState [s]

section
variable {auth : Bool} {e : Bytes} {s : UInt8}

section
variable (he : IsEntry auth e)
include he

theorem length_setState : (setState e s).length = e.length := Bytes.length_patch (he.header_lt (by decide))

theorem slice_setState {off len : Nat} (h : off+len ≤ 2 ∨ 3 ≤ off) :
    slice (setState e s) off len = slice e off len :=
  Bytes.slice_patch_of_disjoint (he.header_lt (by decide)) h

theorem uintAt_setState {off len : Nat}
    (h : off+len ≤ 2 ∨ 3 ≤ off) : uintAt (setState e s) off len = uintAt e off len := by
  rw [uintAt, uintAt, slice_setState he h]

theorem state_setState : state (setState e s) 0 = s := by
  have hlt := he.header_lt (by decide : 2 < 32)
  rw [state, setState, getD_eq_getElem?_getD, Bytes.getElem?_patch hlt, offsetOfState,
    if_pos ⟨by decide, by simp⟩]
  rfl

theorem startId_setState : startId (setState e s) 0 = startId e 0 := uintAt_setState he (.inl (by decide))

theorem attributes_setState : attributes (setState e s) 0 = attributes e 0 := by
  rw [attributes, attributes, uintAt_setState he (.inr (by decide))]

end

theorem layout_fields_ge : 3 ≤ (headerLayout auth).nameSize ∧
    3 ≤ (headerLayout auth).dataSize ∧ 3 ≤ (headerLayout auth).vendorGuid ∧
      3 ≤ (headerLayout auth).size := by cases auth <;> decide

section
variable (he : IsEntry auth e)
include he

theorem vendorGuidOf_setState : vendorGuidOf auth (setState e s) 0 = vendorGuidOf auth e 0 := by
  have hf := @layout_fields_ge auth
  rw [vendorGuidOf, vendorGuidOf, slice_setState he (.inr (by omega))]

section
variable (h : state e 0 ≠ 0xff)
include h

section
variable (hs : s ≠ 0xff)
include hs

theorem sizesErased_setState : sizesErased auth (setState e s) 0 = sizesErased auth e 0 := by
  have hf := @layout_fields_ge auth
  rw [sizesErased, sizesErased, state_setState he, attributes_setState he,
    uintAt_setState he (.inr (by omega)), uintAt_setState he (.inr (by omega)),
    beq_eq_false_iff_ne.mpr h, beq_eq_false_iff_ne.mpr hs]

theorem nameSize_setState :
    nameSizeOfVariable auth (setState e s) 0 = nameSizeOfVariable auth e 0 := by
  have hf := @layout_fields_ge auth
  rw [nameSizeOfVariable, nameSizeOfVariable, sizesErased_setState he h hs,
    uintAt_setState he (.inr (by omega))]

theorem dataSize_setState :
    dataSizeOfVariable auth (setState e s) 0 = dataSizeOfVariable auth e 0 := by
  have hf := @layout_fields_ge auth
  rw [dataSizeOfVariable, dataSizeOfVariable, sizesErased_setState he h hs,
    uintAt_setState he (.inr (by omega))]

theorem keyOf_setState : keyOf auth (setState e s) = keyOf auth e := by
  have hf := @layout_fields_ge auth
  rw [keyOf, keyOf, keyAt, keyAt, vendorGuidOf_setState he, nameOf, nameOf,
    nameSize_setState he h hs, getVariableNamePtr, getVariableHeaderSize,
    slice_setState he (.inr (by omega))]

theorem dataOf_setState : dataOf auth (setState e s) 0 = dataOf auth e 0 := by
  have hf := @layout_fields_ge auth
  rw [dataOf, dataOf, dataSize_setState he h hs, getVariableDataPtr, getVariableDataPtr,
    nameSize_setState he h hs, getVariableNamePtr, getVariableHeaderSize,
    slice_setState he (.inr (by omega))]

theorem isEntry_setState : IsEntry auth (setState e s) where
  header := by rw [length_setState he]; exact he.header
  startId := by rw [startId_setState he, he.startId]
  next := by
    rw [length_setState he, ← he.next, getNextVariablePtr, getNextVariablePtr, getVariableDataPtr,
      getVariableDataPtr, nameSize_setState he h hs, dataSize_setState he h hs]

end

end

theorem isAccessible_setState (rt ign : Bool) : isAccessible rt ign (setState e s) 0 =
      ((s == varAdded || s == varInDeletedTransition &&& varAdded) &&
        (ign || !rt || attributes e 0 &&& efiVariableRuntimeAccess != 0)) := by
  rw [isAccessible, isAdded, isInDeletedTransition, state_setState he, attributes_setState he]

end

end

namespace StoreImage
variable {authFormat : Bool} (m : StoreImage authFormat)

def replace (pre : List Bytes) (e e' : Bytes) (post : List Bytes)
    (h : m.entries = pre ++ e :: post) (hlen : e'.length = e.length)
    (he' : IsEntry authFormat e') : StoreImage authFormat where
  header := m.header
  entries := pre ++ e' :: post
  tail := m.tail
  length_header := m.length_header
  isEntry := by
    intro d hd
    rcases mem_append.mp hd with hd | hd
    · exact m.isEntry d (by rw [h]; exact mem_append_left _ hd)
    · rcases mem_cons.mp hd with rfl | hd
      · exact he'
      · exact m.isEntry d (by rw [h]; exact mem_append_right _ (mem_cons_of_mem _ hd))
  startId_tail := m.startId_tail
  storeSize_header := by
    rw [m.storeSize_header, h]
    simp only [flatten_append, flatten_cons, length_append, hlen]
  dvd_storeSize := m.dvd_storeSize

theorem bytes_replace_patch {pre post : List Bytes} {e p : Bytes} {off : Nat}
    (h : m.entries = pre ++ e :: post) (hle : off+p.length ≤ e.length)
    (he' : IsEntry authFormat (patch e off p)) :
    (m.replace pre e (patch e off p) post h (Bytes.length_patch hle) he').bytes =
      patch m.bytes (getStartPointer+pre.flatten.length+off) p := by
  have hbytes : m.bytes = (m.header ++ pre.flatten) ++ e ++ (post.flatten ++ m.tail) := by
    simp only [bytes, h, flatten_append, flatten_cons, append_assoc]
  have hoff : getStartPointer+pre.flatten.length = (m.header ++ pre.flatten).length := by
    rw [length_append, m.start_eq]
  rw [hbytes, hoff, Bytes.patch_append_part _ _ _ _ hle]
  simp only [bytes, replace, flatten_append, flatten_cons, append_assoc]

def append (e t : Bytes) (he : IsEntry authFormat e) (ht : startId t 0 ≠ variableData)
    (hlen : e.length+t.length = m.tail.length) : StoreImage authFormat where
  header := m.header
  entries := m.entries ++ [e]
  tail := t
  length_header := m.length_header
  isEntry := by
    intro d hd
    rcases mem_append.mp hd with hd | hd
    · exact m.isEntry d hd
    · rw [mem_singleton.mp hd]
      exact he
  startId_tail := ht
  storeSize_header := by
    rw [m.storeSize_header]
    simp only [flatten_append, flatten_cons, flatten_nil, append_nil, length_append]
    omega
  dvd_storeSize := m.dvd_storeSize

def withTail (t : Bytes) (ht : startId t 0 ≠ variableData) (hlen : t.length = m.tail.length) :
    StoreImage authFormat where
  header := m.header
  entries := m.entries
  tail := t
  length_header := m.length_header
  isEntry := m.isEntry
  startId_tail := ht
  storeSize_header := by rw [m.storeSize_header, hlen]
  dvd_storeSize := m.dvd_storeSize

end StoreImage

end Liano.Variable
