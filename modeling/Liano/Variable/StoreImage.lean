import Mathlib.Data.List.Nodup
import Liano.Variable.Parsing

/-! Well-formed stores as lists of entries: what the accessors read at a header is a function of
its entry alone, and every walk over the store visits the entries in order. -/
namespace Liano.Variable

open List

open Bytes (slice HoldsAt)

structure IsEntry (authFormat : Bool) (e : Bytes) : Prop where
  header : getVariableHeaderSize authFormat ≤ e.length
  startId : startId e 0 = variableData
  next : getNextVariablePtr authFormat e 0 = e.length

section
variable {auth : Bool} {b e : Bytes} {p : Nat}

section
variable (he : IsEntry auth e)
include he

theorem IsEntry.dvd_length : 4 ∣ e.length := he.next ▸ dvd_headerAlign _

theorem IsEntry.header_lt {k : Nat} (hk : k < 32) : k < e.length := by
  have h := he.header
  have hs : 32 ≤ getVariableHeaderSize auth := by cases auth <;> decide
  omega

theorem IsEntry.data_le :
    getVariableDataPtr auth e 0 + dataSizeOfVariable auth e 0 ≤ e.length := by
  rw [← he.next]
  exact le_headerAlign _

theorem IsEntry.name_le : getVariableNamePtr auth 0 + nameSizeOfVariable auth e 0 ≤ e.length := by
  have h := he.data_le
  simp only [getVariableDataPtr, getPadSize] at h
  omega

end

theorem uintAt_of_holdsAt (h : HoldsAt b p e) {off len : Nat} (hle : off+len ≤ e.length) :
    uintAt b (p+off) len = uintAt e (0+off) len := by rw [uintAt, uintAt, h.slice_eq hle, zero_add]

section
variable (he : IsEntry auth e)
include he

theorem startId_of_holdsAt (h : HoldsAt b p e) : startId b p = startId e 0 := by
  have hle : 0+2 ≤ e.length := he.header_lt (by decide : 1 < 32)
  exact uintAt_of_holdsAt h hle

theorem state_of_holdsAt (h : HoldsAt b p e) : state b p = state e 0 := by
  rw [state, state, h.getD_eq (he.header_lt (by decide)), zero_add]

theorem attributes_of_holdsAt (h : HoldsAt b p e) : attributes b p = attributes e 0 := by
  rw [attributes, attributes, uintAt_of_holdsAt h (he.header_lt (by decide : 7 < 32))]

theorem IsEntry.fields_le : (headerLayout auth).nameSize + 4 ≤ e.length ∧
      (headerLayout auth).dataSize + 4 ≤ e.length ∧
      (headerLayout auth).vendorGuid + 16 ≤ e.length := by
  have h := he.header
  cases auth <;> simp [getVariableHeaderSize, headerLayout] at h ⊢ <;> omega

section
variable (h : HoldsAt b p e)
include h

theorem sizesErased_of_holdsAt : sizesErased auth b p = sizesErased auth e 0 := by
  rw [sizesErased, sizesErased, state_of_holdsAt he h, attributes_of_holdsAt he h,
    uintAt_of_holdsAt h he.fields_le.1, uintAt_of_holdsAt h he.fields_le.2.1]

theorem nameSize_of_holdsAt : nameSizeOfVariable auth b p = nameSizeOfVariable auth e 0 := by
  rw [nameSizeOfVariable, nameSizeOfVariable, sizesErased_of_holdsAt he h, uintAt_of_holdsAt h he.fields_le.1]

theorem dataSize_of_holdsAt : dataSizeOfVariable auth b p = dataSizeOfVariable auth e 0 := by
  rw [dataSizeOfVariable, dataSizeOfVariable, sizesErased_of_holdsAt he h,
    uintAt_of_holdsAt h he.fields_le.2.1]

theorem vendorGuid_of_holdsAt : vendorGuidOf auth b p = vendorGuidOf auth e 0 := by
  rw [vendorGuidOf, vendorGuidOf, h.slice_eq he.fields_le.2.2, zero_add]

theorem nameOf_of_holdsAt : nameOf auth b p = nameOf auth e 0 := by
  have hle := he.name_le
  rw [getVariableNamePtr, zero_add] at hle
  rw [nameOf, nameOf, nameSize_of_holdsAt he h, getVariableNamePtr, h.slice_eq hle,
    getVariableNamePtr, zero_add]

theorem dataOf_of_holdsAt : dataOf auth b p = dataOf auth e 0 := by
  have hle := he.data_le
  simp only [getVariableDataPtr, getVariableNamePtr, getPadSize, zero_add, add_zero] at hle
  simp only [dataOf, getVariableDataPtr, getVariableNamePtr, getPadSize, nameSize_of_holdsAt he h,
    dataSize_of_holdsAt he h, add_assoc p, h.slice_eq hle, zero_add, add_zero]

theorem next_of_holdsAt (hp : 4 ∣ p) : getNextVariablePtr auth b p = p+e.length := by
  rw [← he.next]
  simp only [getNextVariablePtr, getVariableDataPtr, getVariableNamePtr, getPadSize,
    nameSize_of_holdsAt he h, dataSize_of_holdsAt he h, zero_add, add_zero]
  rw [add_assoc p, add_assoc p, headerAlign_add _ hp]

theorem accessible_of_holdsAt
    (atRuntime ign : Bool) :
    isAccessible atRuntime ign b p = isAccessible atRuntime ign e 0 := by
  simp only [isAccessible, isAdded, isInDeletedTransition, state_of_holdsAt he h, attributes_of_holdsAt he h]

theorem nameMatches_of_holdsAt
    (variableName vendorGuid : Bytes) : nameMatches auth variableName vendorGuid b p =
      nameMatches auth variableName vendorGuid e 0 := by
  simp only [nameMatches, vendorGuid_of_holdsAt he h, nameSize_of_holdsAt he h, nameOf_of_holdsAt he h]

end

end

end

/-- The entries with their offsets, the first one at `p`. -/
def located : Nat → List Bytes → List (Nat × Bytes)
  | _, [] => []
  | p, e :: es => (p,e) :: located (p+e.length) es

variable {es : List Bytes}

@[simp] theorem located_append (p : Nat) (es es' : List Bytes) :
    located p (es ++ es') = located p es ++ located (p+es.flatten.length) es' := by
  induction es generalizing p with
  | nil => rfl
  | cons e es ih => simp only [cons_append, located, ih, flatten_cons, length_append, add_assoc]

@[simp] theorem located_map_snd (p : Nat) (es : List Bytes) : (located p es).map (·.2) = es := by
  induction es generalizing p with
  | nil => rfl
  | cons e es ih => simp only [located, map_cons, ih]

theorem mem_located {p q : Nat} {e : Bytes} :
    (q,e) ∈ located p es ↔ ∃ pre post, es = pre ++ e :: post ∧ q = p+pre.flatten.length := by
  induction es generalizing p with
  | nil => simp [located]
  | cons d es ih =>
    rw [located, mem_cons, ih]
    constructor
    · rintro (h | ⟨pre,post,rfl,rfl⟩)
      · obtain ⟨rfl,rfl⟩ := Prod.mk.inj h
        exact ⟨[], es, rfl, rfl⟩
      · exact ⟨d :: pre, post, rfl, by simp only [flatten_cons, length_append]; omega⟩
    · rintro ⟨pre,post,hes,rfl⟩
      cases pre with
      | nil =>
        obtain ⟨rfl,rfl⟩ := cons.inj hes
        exact .inl rfl
      | cons d' pre =>
        obtain ⟨rfl,rfl⟩ := cons.inj hes
        refine .inr ⟨pre, post, rfl, ?_⟩
        simp only [flatten_cons, length_append]
        omega

theorem located_sorted {p : Nat} (h : ∀ e ∈ es, 0 < e.length) : (located p es).Pairwise (·.1 < ·.1) := by
  induction es generalizing p with
  | nil => exact .nil
  | cons e es ih =>
    refine pairwise_cons.mpr ⟨?_, ih fun d hd => h d (mem_cons_of_mem _ hd)⟩
    rintro ⟨q,d⟩ hq
    obtain ⟨pre,post,-,rfl⟩ := mem_located.mp hq
    have := h e mem_cons_self
    omega

theorem dvd_length_flatten {k : Nat} (h : ∀ e ∈ es, k ∣ e.length) : k ∣ es.flatten.length := by
  induction es with
  | nil => exact Nat.dvd_zero k
  | cons e es ih =>
    rw [flatten_cons, length_append]
    exact Nat.dvd_add (h e mem_cons_self)
      (ih fun d hd => h d (mem_cons_of_mem _ hd))

theorem holdsAt_of_mem_located {r s : Bytes} {q : Nat} {e : Bytes}
    (h : (q,e) ∈ located r.length es) : HoldsAt (r ++ es.flatten ++ s) q e := by
  obtain ⟨pre,post,rfl,rfl⟩ := mem_located.mp h
  refine ⟨r ++ pre.flatten, post.flatten ++ s, ?_, by rw [length_append]⟩
  simp only [flatten_append, flatten_cons, append_assoc]

section
variable {auth : Bool}

theorem isValid_of_holdsAt {b e : Bytes} {p endPtr : Nat} (he : IsEntry auth e)
    (h : HoldsAt b p e) (hend : p < endPtr) : isValidVariableHeader b p endPtr = true := by
  simp [isValidVariableHeader, hend, startId_of_holdsAt he h, he.startId]

/-- A walk over memory that has entries one after the other and no valid header behind them. -/
theorem walk_entries {r s : Bytes} {es : List Bytes} {endPtr fuel : Nat}
    (hes : ∀ e ∈ es, IsEntry auth e) (hr : 4 ∣ r.length)
    (hend : r.length+es.flatten.length ≤ endPtr) (hfuel : es.flatten.length ≤ fuel)
    (hstop : isValidVariableHeader (r ++ es.flatten ++ s) (r.length+es.flatten.length) endPtr =
      false) : headersFrom auth (r ++ es.flatten ++ s) endPtr fuel r.length =
        (located r.length es).map (·.1) ∧ walkEndFrom auth (r ++ es.flatten ++ s) endPtr fuel r.length =
        r.length+es.flatten.length := by
  induction es generalizing r fuel with
  | nil =>
    simp only [flatten_nil, length_nil, add_zero] at hstop ⊢
    cases fuel with
    | zero => exact ⟨rfl, rfl⟩
    | succ fuel =>
      simp only [headersFrom, walkEndFrom, hstop, located, map_nil, Bool.false_eq_true, if_false, and_self]
  | cons e es ih =>
    have he := hes e mem_cons_self
    have hpos := he.header_lt (by decide : 0 < 32)
    simp only [flatten_cons, length_append] at hend hfuel hstop ⊢
    cases fuel with
    | zero => omega
    | succ fuel =>
      have hmem : r ++ (e ++ es.flatten) ++ s = (r ++ e) ++ es.flatten ++ s := by
        simp only [append_assoc]
      have hat : HoldsAt ((r ++ e) ++ es.flatten ++ s) r.length e :=
        ⟨r, es.flatten ++ s, by simp only [append_assoc], rfl⟩
      have hlen : r.length+e.length = (r ++ e).length := length_append.symm
      rw [hmem] at hstop ⊢
      have hval := isValid_of_holdsAt he hat (by omega : r.length < endPtr)
      have hrest := ih (r := r ++ e) (fun d hd => hes d (mem_cons_of_mem _ hd))
        (hlen ▸ Nat.dvd_add hr he.dvd_length) (by omega)
        (by omega : es.flatten.length ≤ fuel)
        (by rw [← hlen, add_assoc]; exact hstop)
      simp only [headersFrom, walkEndFrom, hval, if_true, next_of_holdsAt he hat hr, hlen,
        hrest, located, map_cons, true_and]
      omega

end

structure StoreImage (authFormat : Bool) where
  header : Bytes
  entries : List Bytes
  tail : Bytes
  length_header : header.length = variableStoreHeaderSize
  isEntry : ∀ e ∈ entries, IsEntry authFormat e
  startId_tail : startId tail 0 ≠ variableData
  storeSize_header : storeSize header = header.length+entries.flatten.length+tail.length
  dvd_storeSize : 4 ∣ storeSize header

namespace StoreImage
variable {auth : Bool} (m : StoreImage auth)

def bytes : Bytes := m.header ++ m.entries.flatten ++ m.tail

def locatedEntries : List (Nat × Bytes) := located getStartPointer m.entries

theorem length_bytes : m.bytes.length = storeSize m.header := by
  rw [bytes, length_append, length_append, m.storeSize_header]

theorem storeSize_bytes : storeSize m.bytes = storeSize m.header := by
  have h : variableStoreHeaderSize = 28 := rfl
  rw [storeSize, storeSize, uintAt, uintAt, bytes, append_assoc,
    Bytes.slice_append_left _ (by rw [m.length_header, h]; omega)]

theorem getEndPointer_bytes : getEndPointer m.bytes = m.bytes.length := by
  rw [getEndPointer, m.storeSize_bytes, headerAlign_of_dvd m.dvd_storeSize, m.length_bytes]

theorem start_eq : m.header.length = getStartPointer := by
  rw [m.length_header]
  rfl

theorem not_isValid_tail : isValidVariableHeader m.bytes
    (m.header.length+m.entries.flatten.length) (getEndPointer m.bytes) = false := by
  have hp : m.header.length+m.entries.flatten.length =
      (m.header ++ m.entries.flatten).length + 0 := by rw [length_append, add_zero]
  have h : startId m.bytes (m.header.length+m.entries.flatten.length) = startId m.tail 0 := by
    rw [startId, startId, uintAt, uintAt, hp, bytes, Bytes.slice_append_right]
  rw [isValidVariableHeader, h, Bool.and_eq_false_iff]
  exact .inr (beq_eq_false_iff_ne.mpr m.startId_tail)

theorem walk_suffix (pre post : List Bytes) (h : m.entries = pre ++ post) :
    headersFrom auth m.bytes (getEndPointer m.bytes) m.bytes.length
        (getStartPointer+pre.flatten.length) = (located (getStartPointer+pre.flatten.length) post).map (·.1) ∧
      walkEndFrom auth m.bytes (getEndPointer m.bytes) m.bytes.length
        (getStartPointer+pre.flatten.length) = getStartPointer+m.entries.flatten.length := by
  have hlen : getStartPointer+pre.flatten.length = (m.header ++ pre.flatten).length := by
    rw [length_append, m.start_eq]
  have hall : (m.header ++ pre.flatten).length + post.flatten.length =
      m.header.length+m.entries.flatten.length := by
    simp only [h, length_append, flatten_append]
    omega
  have hbs : m.bytes = (m.header ++ pre.flatten) ++ post.flatten ++ m.tail := by
    simp only [bytes, h, flatten_append, append_assoc]
  have hdvd : 4 ∣ (m.header ++ pre.flatten).length := by
    rw [length_append, m.length_header]
    refine Nat.dvd_add (by decide) (dvd_length_flatten fun e he => ?_)
    exact (m.isEntry e (by rw [h]; exact mem_append_left _ he)).dvd_length
  have hle : (m.header ++ pre.flatten).length + post.flatten.length ≤ m.bytes.length := by
    simp only [hbs, length_append]
    omega
  have hwalk := @walk_entries auth (m.header ++ pre.flatten) m.tail post
    (getEndPointer m.bytes) m.bytes.length
    (fun e he => m.isEntry e (by rw [h]; exact mem_append_right _ he)) hdvd
    (by rw [m.getEndPointer_bytes]; exact hle) (by omega)
    (by rw [← hbs, hall]; exact m.not_isValid_tail)
  rw [← hbs, ← hlen] at hwalk
  refine ⟨hwalk.1, hwalk.2.trans ?_⟩
  rw [hlen, hall, m.start_eq]

theorem walk_bytes : headers auth m.bytes = m.locatedEntries.map (·.1) ∧
      walkEnd auth m.bytes = getStartPointer+m.entries.flatten.length := m.walk_suffix [] m.entries rfl

theorem headers_bytes : headers auth m.bytes = m.locatedEntries.map (·.1) := m.walk_bytes.1

variable {m}
variable {x : Nat × Bytes}

theorem holdsAt (h : x ∈ m.locatedEntries) : HoldsAt m.bytes x.1 x.2 := by
  rw [locatedEntries, ← m.start_eq] at h
  exact holdsAt_of_mem_located h

theorem locatedEntries_sorted : m.locatedEntries.Pairwise (·.1 < ·.1) :=
  located_sorted fun e he => (m.isEntry e he).header_lt (by decide)

theorem eq_of_offset {y : Nat × Bytes} (hx : x ∈ m.locatedEntries) (hy : y ∈ m.locatedEntries)
    (h : x.1 = y.1) : x = y := by
  refine inj_on_of_nodup_map ?_ hx hy h
  rw [List.Nodup, pairwise_map]
  exact m.locatedEntries_sorted.imp ne_of_lt

theorem mem_entries (h : x ∈ m.locatedEntries) : x.2 ∈ m.entries := by
  have := mem_map_of_mem (f := (·.2)) h
  rwa [locatedEntries, located_map_snd] at this

theorem isEntry_of_mem (h : x ∈ m.locatedEntries) : IsEntry auth x.2 := m.isEntry _ (mem_entries h)

end StoreImage

end Liano.Variable
