import Liano.Variable.NewEntry

/-! The four writes that create a variable in flash behind the last entry. Wherever they are cut
off, the store has its old entries, and behind them at most one that no lookup sees. -/
namespace Liano.Variable

open List

open Bytes (slice patch)

section
variable {auth : Bool} (m : StoreImage auth) {t d : Bytes} {off : Nat}

def StoreImage.bytesWith (t : Bytes) : Bytes := m.header ++ m.entries.flatten ++ t

theorem StoreImage.length_front :
    (m.header ++ m.entries.flatten).length = getStartPointer+m.entries.flatten.length := by
  rw [length_append, m.start_eq]

theorem StoreImage.patch_bytesWith (h : off+d.length ≤ t.length) :
    patch (m.bytesWith t) (getStartPointer+m.entries.flatten.length+off) d = m.bytesWith (patch t off d) := by
  have hpart := Bytes.patch_append_part (m.header ++ m.entries.flatten) t [] d h
  rwa [append_nil, append_nil, m.length_front] at hpart

theorem StoreImage.slice_bytesWith (off len : Nat) :
    slice (m.bytesWith t) (getStartPointer+m.entries.flatten.length+off) len = slice t off len := by
  rw [← m.length_front]
  exact Bytes.slice_append_right _ _ _ _

theorem StoreImage.length_bytesWith :
    (m.bytesWith t).length = getStartPointer+m.entries.flatten.length+t.length := by
  rw [bytesWith, length_append, m.length_front]

end

variable {c : VariableConfig} {st : VariableState} {m : StoreImage c.authFormat}

theorem updateVariableStore_tail (hc : FlashVolume c) {t d : Bytes} {off : Nat}
    (hst : InFlash c st (m.bytesWith t)) (hoff : off+d.length ≤ t.length)
    (hclears : Clears (slice t off d.length) d) (hd : d ≠ []) {ptr : Nat}
    (hptr : ptr = getStartPointer+m.entries.flatten.length+off) :
    OnlyFlash st (updateVariableStore c st false ptr d).1 ∧ ∃ n ≤ d.length,
      InFlash c (updateVariableStore c st false ptr d).1
        (m.bytesWith (patch t off (d.take n))) ∧
      ((updateVariableStore c st false ptr d).2.isError = false ↔ n = d.length) := by
  rw [hptr]
  have hbnd : getStartPointer+m.entries.flatten.length+off+d.length ≤ (m.bytesWith t).length := by
    rw [m.length_bytesWith]
    omega
  obtain ⟨honly,n,hn,hflash,hok⟩ := updateVariableStore_nv hc hst hbnd
    (by rw [m.slice_bytesWith]; exact hclears) hd
  have hlen : (d.take n).length ≤ d.length := by
    rw [length_take]
    omega
  rw [m.patch_bytesWith (by omega)] at hflash
  exact ⟨honly, n, hn, hflash, hok⟩

theorem updateVariableStore_tailState (hc : FlashVolume c) {v : Bytes} {size n : Nat} {s s' : UInt8}
    (hst : InFlash c st (m.bytesWith (tailBytes v size n s))) (hsize : offsetOfState < size)
    (hs : s &&& s' = s') {ptr : Nat}
    (hptr : ptr = getStartPointer+m.entries.flatten.length+offsetOfState) :
    OnlyFlash st (updateVariableStore c st false ptr [s']).1 ∧
      ((updateVariableStore c st false ptr [s']).2.isError = true ∧
          InFlash c (updateVariableStore c st false ptr [s']).1 (m.bytesWith (tailBytes v size n s)) ∨
        (updateVariableStore c st false ptr [s']).2.isError = false ∧
          InFlash c (updateVariableStore c st false ptr [s']).1 (m.bytesWith (tailBytes v size n s'))) := by
  have hget : (m.bytesWith (tailBytes v size n s)).getD ptr 0 = s := by
    have hlt : (m.header ++ m.entries.flatten).length ≤ ptr := by
      rw [hptr, m.length_front]
      omega
    have hsub : ptr - (m.header ++ m.entries.flatten).length = offsetOfState := by
      rw [hptr, m.length_front]
      omega
    rw [StoreImage.bytesWith, getD_eq_getElem?_getD, getElem?_append_right hlt, hsub,
      ← getD_eq_getElem?_getD, getD_tailBytes_state hsize]
  have hbnd : ptr < (m.bytesWith (tailBytes v size n s)).length := by
    rw [m.length_bytesWith, length_tailBytes]
    omega
  obtain ⟨honly,hcases⟩ := updateVariableStore_byte hc hst hbnd
    (show _ &&& s' = s' by rw [hget]; exact hs)
  refine ⟨honly, hcases.imp id ?_⟩
  rintro ⟨hok,hflash⟩
  refine ⟨hok, ?_⟩
  have hpatch : patch (m.bytesWith (tailBytes v size n s)) ptr [s'] =
      m.bytesWith (tailBytes v size n s') := by
    rw [hptr, m.patch_bytesWith (by rw [length_tailBytes, length_singleton]; omega),
      patch_tailBytes_state hsize]
  rwa [hpatch] at hflash

variable {r : VariableState × EfiStatus} {next : VariableState → VariableState × EfiStatus}

theorem andThen_of_error (h : r.2.isError = true) : andThen r next = r := by rw [andThen, if_pos h]

theorem andThen_of_success (h : r.2.isError = false) : andThen r next = next r.1 := by
  rw [andThen, h, if_ff]

/-- How many bytes of `v` are written, and its state, when the writes are cut off: a first part of
the header with the state erased, or the header and a first part of the rest. -/
inductive Unfinished (c : VariableConfig) (v : Bytes) : Nat → UInt8 → Prop
  | header {n : Nat} : n ≤ getVariableHeaderSize c.authFormat → Unfinished c v n 0xff
  | rest {n : Nat} : getVariableHeaderSize c.authFormat ≤ n → n ≤ v.length →
      Unfinished c v n varHeaderValidOnly

def CreationOutcome (c : VariableConfig) (st : VariableState) (m : StoreImage c.authFormat)
    (v : Bytes) (size : Nat) (r : VariableState × EfiStatus) : Prop :=
  (r.2.isError = true ∧ OnlyFlash st r.1 ∧
      ∃ n s, Unfinished c v n s ∧ InFlash c r.1 (m.bytesWith (tailBytes v size n s))) ∨
    (r.2.isError = false ∧ ∃ st', OnlyFlash st st' ∧
      InFlash c st' (m.bytesWith (tailBytes v size v.length varAdded)) ∧
      r.1 = st'.setStore .nv (patch st'.memory.nvVariableCache st.nonVolatileLastVariableOffset
        (patch v offsetOfState [varAdded])))

theorem writeInSteps_nv (hc : FlashVolume c) {v : Bytes} {size : Nat}
    (hst : InFlash c st (m.bytesWith (replicate size 0xff)))
    (hlast : st.nonVolatileLastVariableOffset = getStartPointer+m.entries.flatten.length)
    (hstate : v.getD offsetOfState 0xff = 0xff)
    (hlong : getVariableHeaderSize c.authFormat < v.length) (hfit : v.length ≤ size) :
    CreationOutcome c st m v size (writeInSteps c v st) := by
  have h32 := headerSize_pos c.authFormat
  have htwo : offsetOfState = 2 := rfl
  rw [← tailBytes_zero v] at hst
  unfold writeInSteps
  rw [hlast]
  dsimp only
  generalize hw : getVariableHeaderSize c.authFormat = w at h32 hlong ⊢
  -- the header
  have hlenHead : (v.take w).length = w := by
    rw [length_take]
    omega
  have hcleared : Clears (slice (tailBytes v size 0 0xff) 0 (v.take w).length) (v.take w) := by
    rw [tailBytes_zero, slice, drop_zero, take_replicate, min_eq_left (by omega)]
    exact clears_erased _
  have hne : v.take w ≠ [] := ne_nil_of_length_pos (by omega)
  obtain ⟨honly,n,hn,hflash,hok⟩ := updateVariableStore_tail hc hst
    (by rw [length_tailBytes]; omega) hcleared hne (add_zero _).symm
  rw [patch_tailBytes_header (by omega) (by omega) (by omega) hstate] at hflash
  generalize updateVariableStore c st false
    (getStartPointer+m.entries.flatten.length) (v.take w) = r at honly hflash hok ⊢
  cases herr : r.2.isError with
  | true =>
    rw [andThen_of_error herr]
    exact .inl ⟨herr, honly, n, 0xff, .header (by omega), hflash⟩
  | false =>
  rw [andThen_of_success herr]
  have hnw : n = w := (hok.mp herr).trans hlenHead
  rw [hnw] at hflash
  -- the state VAR_HEADER_VALID_ONLY
  obtain ⟨honly',hstep⟩ := updateVariableStore_tailState hc hflash (by omega)
    (show _ &&& varHeaderValidOnly = _ by decide) rfl
  generalize updateVariableStore c r.1 false
    (getStartPointer+m.entries.flatten.length+offsetOfState) [varHeaderValidOnly] = r'
    at honly' hstep ⊢
  rcases hstep with ⟨herr',hflash'⟩ | ⟨herr',hflash'⟩
  · rw [andThen_of_error herr']
    exact .inl ⟨herr', honly.trans honly', w, 0xff, .header (le_of_eq hw.symm), hflash'⟩
  rw [andThen_of_success herr']
  -- the name and the data
  have hlenRest : (v.drop w).length = v.length-w := length_drop
  have hrest : Clears (slice (tailBytes v size w varHeaderValidOnly) w (v.drop w).length)
      (v.drop w) := by
    rw [slice_tailBytes_erased le_rfl (by omega) (by omega)]
    exact clears_erased _
  obtain ⟨honly'',n'',hn'',hflash'',hok''⟩ := updateVariableStore_tail hc hflash'
    (by rw [length_tailBytes]; omega) hrest (ne_nil_of_length_pos (by omega)) rfl
  rw [patch_tailBytes_rest (by omega) (by omega) hfit] at hflash''
  generalize updateVariableStore c r'.1 false
    (getStartPointer+m.entries.flatten.length+w) (v.drop w) = r'' at honly'' hflash'' hok'' ⊢
  cases herr'' : r''.2.isError with
  | true =>
    rw [andThen_of_error herr'']
    exact .inl ⟨herr'', (honly.trans honly').trans honly'', w+n'', _, .rest (by omega) (by omega), hflash''⟩
  | false =>
  rw [andThen_of_success herr'']
  rw [hok''.mp herr'', hlenRest, Nat.add_sub_cancel' (le_of_lt hlong)] at hflash''
  -- the state VAR_ADDED
  obtain ⟨hlast',hstep'⟩ := updateVariableStore_tailState hc hflash'' (by omega)
    (show _ &&& varAdded = _ by decide) rfl
  generalize updateVariableStore c r''.1 false
    (getStartPointer+m.entries.flatten.length+offsetOfState) [varAdded] = r₃
    at hlast' hstep' ⊢
  have hall : OnlyFlash st r₃.1 := ((honly.trans honly').trans honly'').trans hlast'
  rcases hstep' with ⟨herr₃,hflash₃⟩ | ⟨herr₃,hflash₃⟩
  · rw [andThen_of_error herr₃]
    exact .inl ⟨herr₃, hall, v.length, _, .rest (by omega) le_rfl, hflash₃⟩
  · rw [andThen_of_success herr₃]
    exact .inr ⟨rfl, r₃.1, hall, hflash₃, by rw [hlast]⟩

section
variable {req : UpdateRequest} {k : VariableKey} {data v : Bytes} {n : Nat} {s : UInt8}

theorem StoreImage.length_tail_lt (m : StoreImage c.authFormat) : m.tail.length < 2^32-1 := by
  have hlt : storeSize m.header < 256^4 := by exact Bytes.leValue_slice_lt _ _ _
  have hsum := m.storeSize_header
  have hstart := m.length_header
  have h28 : variableStoreHeaderSize = 28 := rfl
  omega

section
variable (m : StoreImage c.authFormat) (hv : IsNewVariable c req k data v)
  (hsize : headerAlign v.length ≤ m.tail.length)
include hv hsize

theorem exists_unfinished (hu : Unfinished c v n s) :
    ∃ m' : StoreImage c.authFormat, m'.bytes = m.bytesWith (tailBytes v m.tail.length n s) ∧
      ∃ extra, m'.entries = m.entries ++ extra ∧ ∀ e ∈ extra, inUse e = false := by
  have h32 := headerSize_pos c.authFormat
  have htwo : offsetOfState = 2 := rfl
  have hal := le_headerAlign v.length
  have hlong := hv.length
  cases hu with
  | header hn =>
    by_cases hstart : startId (tailBytes v m.tail.length n 0xff) 0 = variableData
    · have hlen : ((tailBytes v m.tail.length n 0xff).take
          (getVariableHeaderSize c.authFormat)).length = getVariableHeaderSize c.authFormat := by
        rw [length_take, length_tailBytes]
        omega
      have hst : state ((tailBytes v m.tail.length n 0xff).take
          (getVariableHeaderSize c.authFormat)) 0 = 0xff := by
        rw [state_take (by omega), getD_tailBytes_state (by omega)]
      have hid : startId ((tailBytes v m.tail.length n 0xff).take
          (getVariableHeaderSize c.authFormat)) 0 = variableData := by
        rw [← hstart, startId, startId, uintAt, uintAt, slice_take (by omega)]
      have hrest : startId ((tailBytes v m.tail.length n 0xff).drop
          (getVariableHeaderSize c.authFormat)) 0 ≠ variableData := by
        rw [drop_tailBytes hn (by omega)]
        exact startId_erased [] _
      refine ⟨m.append _ _ (isEntry_header hlen hid hst) hrest ?_, ?_, _, rfl, ?_⟩
      · rw [hlen, length_drop, length_tailBytes]
        omega
      · simp only [StoreImage.bytes, StoreImage.append, StoreImage.bytesWith,
          flatten_append, flatten_cons, flatten_nil, append_nil, append_assoc, take_append_drop]
      · intro e he
        rw [mem_singleton.mp he, inUse, isAdded, isInDeletedTransition, hst]
        decide
    · exact ⟨m.withTail _ hstart (length_tailBytes _ _ _ _), rfl, [], (append_nil _).symm, by simp⟩
  | rest hn hn' =>
    have hflds := @entryFields c req k data v m.tail.length n varHeaderValidOnly hv hn hn'
      hsize m.length_tail_lt (by decide)
    have hrest : startId ((tailBytes v m.tail.length n varHeaderValidOnly).drop
        (headerAlign v.length)) 0 ≠ variableData := by
      rw [drop_tailBytes (by omega) (by omega)]
      exact startId_erased [] _
    refine ⟨m.append _ _ hflds.isEntry hrest ?_, ?_, _, rfl, ?_⟩
    · rw [length_take, length_drop, length_tailBytes]
      omega
    · simp only [StoreImage.bytes, StoreImage.append, StoreImage.bytesWith,
        flatten_append, flatten_cons, flatten_nil, append_nil, append_assoc, take_append_drop]
    · intro e he
      rw [mem_singleton.mp he, inUse, isAdded, isInDeletedTransition, hflds.state]
      decide

theorem exists_finished : ∃ (m' : StoreImage c.authFormat) (e : Bytes),
      m'.bytes = m.bytesWith (tailBytes v m.tail.length v.length varAdded) ∧
      m'.entries = m.entries ++ [e] ∧ isAdded e 0 = true ∧ keyOf c.authFormat e = k ∧
      valueOf c.authFormat e = (req.attributes &&& ~~~efiVariableAppendWrite, data) ∧
      e.length = headerAlign v.length ∧ dataSizeOfVariable c.authFormat e 0 = data.length ∧
      m'.header = m.header ∧ m'.tail = replicate (m.tail.length - headerAlign v.length) 0xff := by
  have h32 := headerSize_pos c.authFormat
  have htwo : offsetOfState = 2 := rfl
  have hal := le_headerAlign v.length
  have hlong := hv.length
  have hflds := @entryFields c req k data v m.tail.length v.length varAdded hv (by omega)
    le_rfl hsize m.length_tail_lt (by decide)
  obtain ⟨hkey,hval⟩ := @keyOf_written c req k data v m.tail.length varAdded hv hsize
    m.length_tail_lt (by decide)
  have hrest : startId ((tailBytes v m.tail.length v.length varAdded).drop
      (headerAlign v.length)) 0 ≠ variableData := by
    rw [drop_tailBytes (by omega) (by omega)]
    exact startId_erased [] _
  refine ⟨m.append _ _ hflds.isEntry hrest ?_, _, ?_, rfl, ?_, hkey, hval, ?_, hflds.dataSize, rfl, ?_⟩
  · rw [length_take, length_drop, length_tailBytes]
    omega
  · simp only [StoreImage.bytes, StoreImage.append, StoreImage.bytesWith,
      flatten_append, flatten_cons, flatten_nil, append_nil, append_assoc, take_append_drop]
  · rw [isAdded, hflds.state]
    rfl
  · rw [length_take, length_tailBytes, min_eq_left hsize]
  · exact drop_tailBytes (by omega) (by omega)

end

theorem patch_tailBytes_added {size : Nat} (hfit : v.length ≤ size)
    (hlong : offsetOfState < v.length) (s : UInt8) :
    patch (replicate size 0xff) 0 (patch v offsetOfState [s]) = tailBytes v size v.length s := by
  have hlen : (patch v offsetOfState [s]).length = v.length :=
    Bytes.length_patch (by rw [length_singleton]; omega)
  apply ext_getElem?
  intro i
  rw [Bytes.getElem?_patch (by rw [hlen, length_replicate]; omega), hlen,
    getElem?_tailBytes, getElem?_replicate, Nat.sub_zero]
  by_cases hi : i < v.length
  · rw [if_pos (by omega), if_pos (by omega), if_pos hi,
      Bytes.getElem?_patch (by rw [length_singleton]; omega), length_singleton]
    by_cases htwo : i = offsetOfState
    · rw [if_pos (by omega), if_pos htwo, htwo, Nat.sub_self, getElem?_cons_zero]
    · rw [if_neg (by omega), if_neg htwo, getD_of_lt hi]
  · have htwo : i ≠ offsetOfState := by omega
    rw [if_neg (by omega), if_neg hi, if_neg htwo]

end

end Liano.Variable
