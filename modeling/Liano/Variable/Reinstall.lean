import Liano.Variable.Contents
import Liano.Variable.Reclaim

/-! The buffer that `Reclaim` builds: the store header, the ADDED entries, the promoted
IN_DELETED_TRANSITION entries, and 0xFF up to the end. -/
namespace Liano.Variable

open List

open Bytes (slice patch HoldsAt)

/-- `((VARIABLE_HEADER *) CurrPtr)->State = VAR_ADDED` in the copy of an entry. -/
def promote (e : Bytes) : Bytes := setState e varAdded

def hasAddedTwin (authFormat : Bool) (es : List Bytes) (e : Bytes) : Bool :=
  es.any fun d => isAdded d 0 && keyOf authFormat d == keyOf authFormat e

/-- The entries that are promoted: those in transition without an ADDED twin. -/
def promotedEntries (authFormat : Bool) (es : List Bytes) : List Bytes :=
  (es.filter fun e => isInDeletedTransition e 0 && !hasAddedTwin authFormat es e).map promote

def reclaimedEntries (authFormat : Bool) (es : List Bytes) : List Bytes :=
  es.filter (fun e => isAdded e 0) ++ promotedEntries authFormat es

/-- Neither of the pointers of `UpdatingPtrTrack` points to the offset. -/
def spares (updating : VariablePointerTrack) (p : Nat) : Bool :=
  updating.currPtr != some p && updating.inDeletedTransitionPtr != some p

def StoreImage.sparedEntries {authFormat : Bool} (m : StoreImage authFormat)
    (updating : VariablePointerTrack) : List Bytes :=
  (m.locatedEntries.filter fun x => spares updating x.1).map (·.2)

section
variable (c : VariableConfig) (st : VariableState) (isVolatile : Bool)

def countEntry (r : ReclaimBuffer) (e : Bytes) : ReclaimBuffer := if isVolatile then r
  else r.count (isHardwareErrorRecord (attributes e 0)) (isUserVariable c st e 0) e.length

def totalsOf (es : List Bytes) : ReclaimBuffer := es.foldl (countEntry c st isVolatile) ⟨[], 0, 0, 0, 0⟩

/-- A buffer with space for `cap` bytes of entries that holds `es`. -/
def bufferOf (header : Bytes) (cap : Nat) (es : List Bytes) : ReclaimBuffer :=
  { totalsOf c st isVolatile es with
    validBuffer := header ++ es.flatten ++ replicate (cap-es.flatten.length) 0xff
    currPtr := header.length + es.flatten.length }

end

section
variable {c : VariableConfig} {st : VariableState} {isVolatile : Bool} {b e : Bytes} {p : Nat}

theorem drop_setState {s : UInt8} {k : Nat} (he : IsEntry c.authFormat e) (hk : 3 ≤ k) :
    (setState e s).drop k = e.drop k := by
  have hlt : offsetOfState + [s].length ≤ e.length := he.header_lt (by decide : 2 < 32)
  apply ext_getElem?
  intro i
  rw [getElem?_drop, getElem?_drop, setState, Bytes.getElem?_patch hlt,
    if_neg (by rw [offsetOfState, length_singleton]; omega)]

theorem isUserVariable_setState {s : UInt8} (he : IsEntry c.authFormat e) :
    isUserVariable c st (setState e s) 0 = isUserVariable c st e 0 := by
  have hf := @layout_fields_ge c.authFormat
  rw [isUserVariable, isUserVariable, vendorGuidOf_setState he,
    drop_setState he (by rw [getVariableNamePtr, getVariableHeaderSize]; omega)]

theorem isUserVariable_eq (he : IsEntry c.authFormat e) (hat : HoldsAt b p e)
    (hn : IsVariableName (keyOf c.authFormat e).name) : isUserVariable c st b p =
      (st.endOfDxe && c.commonMaxUserVariableSpace != c.commonVariableSpace &&
        !c.variablePropertyGet (keyOf c.authFormat e).name (keyOf c.authFormat e).vendorGuid) := by
  obtain ⟨s,hs⟩ := hat.drop_eq he.header
  have hsplit : e.drop (getVariableHeaderSize c.authFormat) = (keyOf c.authFormat e).name ++
        e.drop (getVariableHeaderSize c.authFormat + nameSizeOfVariable c.authFormat e 0) := by
    rw [keyOf, keyAt, nameOf, getVariableNamePtr, zero_add, slice, ← drop_drop, take_append_drop]
  rw [isUserVariable, vendorGuid_of_holdsAt he hat, getVariableNamePtr, hs, hsplit,
    append_assoc, strSize_append hn.terminated, take_left]
  rfl

theorem countVariable_eq (r : ReclaimBuffer) (he : IsEntry c.authFormat e) (hat : HoldsAt b p e)
    (hp : 4 ∣ p) (hn : IsVariableName (keyOf c.authFormat e).name) :
    r.countVariable c st isVolatile b p = countEntry c st isVolatile r e := by
  rw [ReclaimBuffer.countVariable, countEntry, attributes_of_holdsAt he hat,
    next_of_holdsAt he hat hp, Nat.add_sub_cancel_left, isUserVariable_eq he hat hn,
    isUserVariable_eq he (Bytes.holdsAt_self e) hn]

theorem variableAt_eq (he : IsEntry c.authFormat e) (hat : HoldsAt b p e) (hp : 4 ∣ p) :
    variableAt c b p = e := by
  rw [variableAt, next_of_holdsAt he hat hp, Nat.add_sub_cancel_left]
  have h : slice b (p+0) e.length = slice e 0 e.length := hat.slice_eq (by omega)
  rw [← add_zero p, h, slice, drop_zero, take_length]

theorem countEntry_promote (r : ReclaimBuffer) (he : IsEntry c.authFormat e) :
    countEntry c st isVolatile r (promote e) = countEntry c st isVolatile r e := by
  rw [countEntry, countEntry, promote, attributes_setState he, isUserVariable_setState he, length_setState he]

theorem count_copy (r : ReclaimBuffer) (hwErr user : Bool) (size : Nat) (data : Bytes) :
    (r.copy data).count hwErr user size = (r.count hwErr user size).copy data := by cases hwErr <;> rfl

theorem countEntry_copy (r : ReclaimBuffer) (data : Bytes) :
    countEntry c st isVolatile (r.copy data) e = (countEntry c st isVolatile r e).copy data := by
  cases isVolatile with
  | true => rfl
  | false => exact count_copy ..

theorem countEntry_with (r : ReclaimBuffer) (v : Bytes) (q : Nat) :
    countEntry c st isVolatile { r with validBuffer := v, currPtr := q } e =
      { countEntry c st isVolatile r e with validBuffer := v, currPtr := q } := by
  cases isVolatile with
  | true => rfl
  | false => cases h : isHardwareErrorRecord (attributes e 0) <;> simp [countEntry, ReclaimBuffer.count, h]

theorem patch_erased {h : Bytes} {n : Nat} (e : Bytes) (hle : e.length ≤ n) :
    patch (h ++ replicate n 0xff) h.length e = h ++ e ++ replicate (n-e.length) 0xff := by
  have hsplit : replicate n (0xff : UInt8) =
      replicate e.length 0xff ++ replicate (n-e.length) 0xff := by
    rw [replicate_append_replicate]
    congr 1
    omega
  rw [hsplit, ← append_assoc, Bytes.patch_append _ _ _ _ (by rw [length_replicate])]

theorem bufferOf_copy {header : Bytes} {cap : Nat} {es : List Bytes}
    (hle : (es ++ [e]).flatten.length ≤ cap) :
    (countEntry c st isVolatile (bufferOf c st isVolatile header cap es) e).copy e =
      bufferOf c st isVolatile header cap (es ++ [e]) := by
  have hlen : (es ++ [e]).flatten.length = es.flatten.length+e.length := by
    rw [flatten_append, flatten_singleton, length_append]
  have hpatch : patch (header ++ es.flatten ++ replicate (cap-es.flatten.length) 0xff)
      (header.length+es.flatten.length) e =
        header ++ (es ++ [e]).flatten ++ replicate (cap - (es ++ [e]).flatten.length) 0xff := by
    rw [← length_append, patch_erased e (by omega), hlen, flatten_append, flatten_singleton, Nat.sub_sub]
    simp only [append_assoc]
  rw [bufferOf, countEntry_with, ReclaimBuffer.copy, bufferOf]
  simp only [hpatch, hlen, totalsOf, foldl_append, foldl_cons, foldl_nil, add_assoc]

theorem StoreImage.dvd_offset {auth : Bool} {m : StoreImage auth} {x : Nat × Bytes}
    (hx : x ∈ m.locatedEntries) : 4 ∣ x.1 := by
  obtain ⟨pre,post,hes,hq⟩ := mem_located.mp hx
  rw [hq]
  refine Nat.dvd_add (by decide) (dvd_length_flatten fun d hd => ?_)
  exact (m.isEntry d (by rw [hes]; exact mem_append_left _ hd)).dvd_length

section
variable (m : StoreImage c.authFormat) {updating : VariablePointerTrack} {cap : Nat}
  {l : List (Nat × Bytes)} {done : List Bytes}

theorem copy_countVariable {x : Nat × Bytes} {data : Bytes}
    (hn : NamedEntries c.authFormat m.entries) (hx : x ∈ m.locatedEntries)
    (hu : inUse x.2 = true) (hcap : (done ++ [data]).flatten.length ≤ cap)
    (hdata : ∀ r, countEntry c st isVolatile r data = countEntry c st isVolatile r x.2) :
    ((bufferOf c st isVolatile m.header cap done).copy data).countVariable c st isVolatile
        m.bytes x.1 = bufferOf c st isVolatile m.header cap (done ++ [data]) := by
  rw [countVariable_eq _ (StoreImage.isEntry_of_mem hx) (StoreImage.holdsAt hx)
    (StoreImage.dvd_offset hx) (hn _ (StoreImage.mem_entries hx) hu), ← hdata, countEntry_copy,
    bufferOf_copy hcap]

theorem inUse_of_added (h : isAdded e 0 = true) : inUse e = true := by rw [inUse, h, Bool.true_or]

theorem inUse_of_transition (h : isInDeletedTransition e 0 = true) : inUse e = true := by
  rw [inUse, h, Bool.or_true]

theorem foldl_reinstallAdded (hn : NamedEntries c.authFormat m.entries)
    (hl : ∀ x ∈ l, x ∈ m.locatedEntries)
    (hcap : (done ++ (l.filter fun x => updating.currPtr != some x.1 &&
      isAdded x.2 0).map (·.2)).flatten.length ≤ cap) :
    (l.map (·.1)).foldl (reinstallAdded c st isVolatile m.bytes updating)
        (bufferOf c st isVolatile m.header cap done) =
      bufferOf c st isVolatile m.header cap (done ++ (l.filter fun x =>
        updating.currPtr != some x.1 && isAdded x.2 0).map (·.2)) := by
  induction l generalizing done with
  | nil => simp only [filter_nil, map_nil, append_nil, foldl_nil]
  | cons x l ih =>
    have hx := hl x mem_cons_self
    have hl' : ∀ y ∈ l, y ∈ m.locatedEntries := fun y hy => hl y (mem_cons_of_mem _ hy)
    rw [map_cons, foldl_cons, reinstallAdded, StoreImage.isAdded_bytes hx]
    by_cases h : updating.currPtr ≠ some x.1 ∧ isAdded x.2 0 = true
    · have hfilter : (x :: l).filter (fun x => updating.currPtr != some x.1 && isAdded x.2 0) =
          x :: l.filter fun x => updating.currPtr != some x.1 && isAdded x.2 0 :=
        filter_cons_of_pos (by simp [h.1, h.2])
      rw [hfilter, map_cons] at hcap ⊢
      have hsplit : done ++ x.2 :: (l.filter fun x => updating.currPtr != some x.1 &&
          isAdded x.2 0).map (·.2) = (done ++ [x.2]) ++ (l.filter fun x =>
            updating.currPtr != some x.1 && isAdded x.2 0).map (·.2) := by
        rw [append_assoc, singleton_append]
      rw [hsplit] at hcap ⊢
      rw [if_pos h, variableAt_eq (StoreImage.isEntry_of_mem hx) (StoreImage.holdsAt hx)
        (StoreImage.dvd_offset hx), copy_countVariable m hn hx (inUse_of_added h.2) ?_ fun _ => rfl]
      · exact ih hl' hcap
      · rw [flatten_append, length_append] at hcap
        omega
    · have hfilter : (x :: l).filter (fun x => updating.currPtr != some x.1 && isAdded x.2 0) =
          l.filter fun x => updating.currPtr != some x.1 && isAdded x.2 0 :=
        filter_cons_of_neg (by simpa using h)
      rw [hfilter] at hcap ⊢
      rw [if_neg h]
      exact ih hl' hcap

theorem startId_erased (a : Bytes) (n : Nat) :
    startId (a ++ replicate n 0xff) a.length ≠ variableData := by
  have h : startId (a ++ replicate n 0xff) (a.length+0) =
      Bytes.leValue ((replicate n (0xff : UInt8)).take 2) := by
    rw [startId, uintAt, Bytes.slice_append_right, slice, drop_zero]
  rw [add_zero] at h
  rw [h]
  rcases n with _ | _ | n
  · decide
  · decide
  · exact (by decide : Bytes.leValue [0xff, 0xff] ≠ variableData)

theorem walk_buffer (hdone : ∀ d ∈ done, IsEntry c.authFormat d) (n : Nat)
    (hfits : m.header.length+done.flatten.length ≤ storeSize m.header) :
    headers c.authFormat (m.header ++ done.flatten ++ replicate n 0xff) =
      (located m.header.length done).map (·.1) := by
  have h28 : variableStoreHeaderSize = 28 := rfl
  have hsize : storeSize (m.header ++ done.flatten ++ replicate n 0xff) = storeSize m.header := by
    rw [storeSize, storeSize, uintAt, uintAt, append_assoc,
      Bytes.slice_append_left _ (by rw [m.length_header, h28]; omega)]
  have hstop : isValidVariableHeader (m.header ++ done.flatten ++ replicate n 0xff)
      (m.header.length+done.flatten.length)
      (getEndPointer (m.header ++ done.flatten ++ replicate n 0xff)) = false := by
    rw [isValidVariableHeader, Bool.and_eq_false_iff, ← length_append]
    exact .inr (beq_eq_false_iff_ne.mpr (startId_erased _ n))
  rw [headers, ← m.start_eq]
  refine (walk_entries hdone (by rw [m.length_header]; decide) ?_ ?_ hstop).1
  · rw [getEndPointer, hsize]
    exact hfits.trans (le_headerAlign _)
  · simp only [length_append]
    omega

theorem any_congr_of_mem {α : Type} {xs : List α} {f g : α → Bool} (h : ∀ x ∈ xs, f x = g x) :
    xs.any f = xs.any g := by
  induction xs with
  | nil => rfl
  | cons x xs ih => rw [any_cons, any_cons, h x mem_cons_self, ih fun y hy => h y (mem_cons_of_mem _ hy)]

theorem foundAdded_eq {x : Nat × Bytes} (hx : x ∈ m.locatedEntries)
    (hdone : ∀ d ∈ done, IsEntry c.authFormat d) (n : Nat)
    (hfits : m.header.length+done.flatten.length ≤ storeSize m.header) :
    foundAdded c m.bytes (m.header ++ done.flatten ++ replicate n 0xff) x.1 =
      done.any fun d => keyOf c.authFormat d == keyOf c.authFormat x.2 := by
  have hex := StoreImage.isEntry_of_mem hx
  have hatx := StoreImage.holdsAt hx
  rw [foundAdded, walk_buffer m hdone n hfits]
  conv_rhs => rw [← located_map_snd m.header.length done]
  rw [any_map, any_map]
  refine any_congr_of_mem fun y hy => ?_
  have hy' : y.2 ∈ done := by
    have := mem_map_of_mem (f := (·.2)) hy
    rwa [located_map_snd] at this
  have hey := hdone _ hy'
  have haty : HoldsAt (m.header ++ done.flatten ++ replicate n 0xff) y.1 y.2 := holdsAt_of_mem_located hy
  simp only [Function.comp, vendorGuid_of_holdsAt hey haty, vendorGuid_of_holdsAt hex hatx,
    nameSize_of_holdsAt hey haty, nameSize_of_holdsAt hex hatx, nameOf_of_holdsAt hey haty]
  rw [Bool.eq_iff_iff]
  simp only [Bool.and_eq_true, beq_iff_eq, keyOf, keyAt, VariableKey.mk.injEq]
  constructor
  · rintro ⟨⟨hg,hs⟩,hnm⟩
    refine ⟨?_, hg⟩
    rw [hnm, hs, ← nameSize_of_holdsAt hex hatx, ← nameOf_of_holdsAt hex hatx, nameOf]
  · rintro ⟨hnm,hg⟩
    have hs : nameSizeOfVariable c.authFormat y.2 0 = nameSizeOfVariable c.authFormat x.2 0 := by
      rw [← length_nameOf hey, ← length_nameOf hex, hnm]
    refine ⟨⟨hg, hs⟩, ?_⟩
    rw [hnm, hs, ← nameSize_of_holdsAt hex hatx, ← nameOf_of_holdsAt hex hatx, nameOf]

def promoteStep (authFormat : Bool) (updating : VariablePointerTrack) (done : List Bytes)
    (x : Nat × Bytes) : List Bytes := if spares updating x.1 && isInDeletedTransition x.2 0 &&
      !done.any (fun d => keyOf authFormat d == keyOf authFormat x.2) then done ++ [promote x.2]
  else done

theorem prefix_promoteStep (auth : Bool) (x : Nat × Bytes) :
    done <+: promoteStep auth updating done x := by
  rw [promoteStep]
  split
  · exact prefix_append _ _
  · exact prefix_refl _

theorem prefix_foldl_promoteStep (auth : Bool) :
    done <+: l.foldl (promoteStep auth updating) done := by
  induction l generalizing done with
  | nil => exact prefix_refl _
  | cons x l ih => exact (prefix_promoteStep auth x).trans ih

theorem length_flatten_le_of_prefix {es es' : List Bytes} (h : es <+: es') :
    es.flatten.length ≤ es'.flatten.length := by
  obtain ⟨s,rfl⟩ := h
  rw [flatten_append, length_append]
  omega

theorem varAdded_ne : varAdded ≠ 0xff := by decide

theorem state_ne_of_inUse (h : inUse e = true) : state e 0 ≠ 0xff := by
  simp only [inUse, isAdded, isInDeletedTransition, Bool.or_eq_true, beq_iff_eq] at h
  rcases h with h | h <;> rw [h] <;> decide

section
variable {auth : Bool} (he : IsEntry auth e) (hu : inUse e = true)
include he hu

theorem isEntry_promote : IsEntry auth (promote e) :=
  isEntry_setState he (state_ne_of_inUse hu) varAdded_ne

theorem keyOf_promote : keyOf auth (promote e) = keyOf auth e :=
  keyOf_setState he (state_ne_of_inUse hu) varAdded_ne

end

theorem foldl_reinstallTransition (hn : NamedEntries c.authFormat m.entries)
    (hl : ∀ x ∈ l, x ∈ m.locatedEntries) (hdone : ∀ d ∈ done, IsEntry c.authFormat d)
    (hcap : (l.foldl (promoteStep c.authFormat updating) done).flatten.length ≤ cap)
    (hfits : m.header.length + (l.foldl (promoteStep c.authFormat updating) done).flatten.length ≤
      storeSize m.header) : (l.map (·.1)).foldl (reinstallTransition c st isVolatile m.bytes updating)
        (bufferOf c st isVolatile m.header cap done) = bufferOf c st isVolatile m.header cap
        (l.foldl (promoteStep c.authFormat updating) done) := by
  induction l generalizing done with
  | nil => rfl
  | cons x l ih =>
    have hx := hl x mem_cons_self
    have hex := StoreImage.isEntry_of_mem hx
    have hl' : ∀ y ∈ l, y ∈ m.locatedEntries := fun y hy => hl y (mem_cons_of_mem _ hy)
    have hle := length_flatten_le_of_prefix (@prefix_foldl_promoteStep updating (x :: l) done c.authFormat)
    rw [foldl_cons] at hcap hfits ⊢
    rw [map_cons, foldl_cons]
    have hstep : reinstallTransition c st isVolatile m.bytes updating
        (bufferOf c st isVolatile m.header cap done) x.1 = bufferOf c st isVolatile m.header cap
            (promoteStep c.authFormat updating done x) := by
      have hfound : foundAdded c m.bytes (bufferOf c st isVolatile m.header cap done).validBuffer
          x.1 = done.any fun d => keyOf c.authFormat d == keyOf c.authFormat x.2 := by
        refine foundAdded_eq m hx hdone _ ?_
        rw [foldl_cons] at hle
        omega
      rw [reinstallTransition, hfound, StoreImage.isInDeletedTransition_bytes hx]
      rw [promoteStep] at hcap ⊢
      by_cases h : (spares updating x.1 && isInDeletedTransition x.2 0 &&
          !done.any (fun d => keyOf c.authFormat d == keyOf c.authFormat x.2)) = true
      · have hle' := length_flatten_le_of_prefix (@prefix_foldl_promoteStep updating l
          (done ++ [promote x.2]) c.authFormat)
        rw [if_pos h] at hcap ⊢
        simp only [spares, Bool.and_eq_true, bne_iff_ne, Bool.not_eq_true'] at h
        rw [if_pos ⟨h.1.1.1, h.1.1.2, h.1.2, h.2⟩, variableAt_eq hex (StoreImage.holdsAt hx)
          (StoreImage.dvd_offset hx)]
        exact copy_countVariable m hn hx (inUse_of_transition h.1.2) (hle'.trans hcap)
          fun r => countEntry_promote r hex
      · rw [if_neg h]
        simp only [spares, Bool.and_eq_true, bne_iff_ne, Bool.not_eq_true'] at h
        rw [if_neg fun h' => h ⟨⟨⟨h'.1, h'.2.1⟩, h'.2.2.1⟩, h'.2.2.2⟩]
    rw [hstep]
    refine ih hl' ?_ hcap hfits
    rw [promoteStep]
    split
    · rename_i h
      simp only [Bool.and_eq_true] at h
      intro d hd
      rcases mem_append.mp hd with hd | hd
      · exact hdone d hd
      · rw [mem_singleton.mp hd]
        exact isEntry_promote hex (inUse_of_transition h.1.2)
    · exact hdone

end
end

end Liano.Variable
