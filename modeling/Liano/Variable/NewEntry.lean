import Liano.Variable.NvWrites
import Liano.Variable.Reinstall

/-! The bytes of a new variable while they are written behind the last entry of a store. As long as
the state byte is erased the sizes count as 0 and the entry is its header; from then on it is the
whole variable, and only with the state ADDED a lookup sees it. -/
namespace Liano.Variable

open List

open Bytes (slice patch leBytes leValue HoldsAt)

/-- The request names the variable `k`. -/
structure Requests (req : UpdateRequest) (k : VariableKey) : Prop where
  name : ∃ s, req.variableName = k.name ++ s
  isName : IsVariableName k.name
  vendorGuid : req.vendorGuid = k.vendorGuid
  length_guid : k.vendorGuid.length = 16
  length_timeStamp : ∀ ts, req.timeStamp = some ts → ts.length = 16

theorem uintAt_field (w n : Nat) (x z : Bytes) {off : Nat} (hx : x.length = off) :
    uintAt (x ++ leBytes w n ++ z) off w = n % 256^w := by
  have hlen : (leBytes w n).length = w := Bytes.length_leBytes w n
  have h := Bytes.slice_middle x (leBytes w n) z
  rw [hx, hlen] at h
  rw [uintAt, h, Bytes.leValue_leBytes]

variable {c : VariableConfig} {req : UpdateRequest} {k : VariableKey} {existing : Option Bytes}
  {data : Bytes}

theorem Requests.strSize_eq (h : Requests req k) : strSize req.variableName = k.name.length := by
  obtain ⟨s,hs⟩ := h.name
  rw [hs, strSize_append h.isName.terminated]

theorem Requests.take_name (h : Requests req k) :
    req.variableName.take (strSize req.variableName) = k.name := by
  obtain ⟨s,hs⟩ := h.name
  rw [h.strSize_eq, hs, take_left]

theorem length_newTimeStamp (h : Requests req k) (hold : ∀ old, existing = some old → old.length = 16) :
    (newTimeStamp req existing).length = 16 := by
  unfold newTimeStamp
  cases hts : req.timeStamp with
  | none => simp
  | some ts =>
    have hlen := h.length_timeStamp ts hts
    dsimp only
    split
    · simp
    split
    · exact hlen
    cases existing with
    | none => simp
    | some old =>
      dsimp only
      split
      · exact hlen
      · exact hold old rfl

structure IsNewVariable (c : VariableConfig) (req : UpdateRequest) (k : VariableKey)
    (data v : Bytes) : Prop where
  length : v.length = getVariableHeaderSize c.authFormat + k.name.length + data.length
  startId : startId v 0 = variableData
  state : v.getD offsetOfState 0xff = 0xff
  attributes : attributes v 0 = req.attributes &&& ~~~efiVariableAppendWrite
  nameSize : uintAt v (headerLayout c.authFormat).nameSize 4 = k.name.length % 256^4
  dataSize : uintAt v (headerLayout c.authFormat).dataSize 4 = data.length % 256^4
  vendorGuid : slice v (headerLayout c.authFormat).vendorGuid 16 = k.vendorGuid
  name : slice v (getVariableHeaderSize c.authFormat) k.name.length = k.name
  data : slice v (getVariableHeaderSize c.authFormat + k.name.length) data.length = data

theorem isNewVariable (c : VariableConfig) (h : Requests req k)
    (hold : c.authFormat = true → ∀ old, existing = some old → old.length = 16) (data : Bytes) :
    IsNewVariable c req k data (newVariable c req existing data) := by
  have hguid : req.vendorGuid.length = 16 := by rw [h.vendorGuid, h.length_guid]
  have hattr : ∀ a : UInt32, UInt32.ofNat (a.toNat % 256^4) = a := by
    intro a
    have hlt := a.toNat_lt
    rw [Nat.mod_eq_of_lt (by omega)]
    exact UInt32.ofNat_toNat
  unfold newVariable
  rw [h.strSize_eq, ← h.strSize_eq, h.take_name, h.strSize_eq]
  -- the authenticated format has a stamp in front of the sizes
  obtain ⟨stamp,hstamp,hhead⟩ : ∃ stamp : Bytes, stamp.length = (if c.authFormat then 28 else 0) ∧
      newHeader c req (newTimeStamp req existing) k.name.length data.length =
        leBytes 2 variableData ++ [0xff, 0] ++
          leBytes 4 (req.attributes &&& ~~~efiVariableAppendWrite).toNat ++ stamp ++
          leBytes 4 k.name.length ++ leBytes 4 data.length ++ req.vendorGuid := by
    refine ⟨_, ?_, rfl⟩
    split
    · rename_i hauth
      simp [length_newTimeStamp h (hold hauth)]
    · rfl
  have hlayout : (headerLayout c.authFormat).nameSize = 8+stamp.length ∧
      (headerLayout c.authFormat).dataSize = 12+stamp.length ∧
      (headerLayout c.authFormat).vendorGuid = 16+stamp.length ∧
      getVariableHeaderSize c.authFormat = 32+stamp.length := by
    rw [hstamp]
    cases c.authFormat <;> exact ⟨rfl, rfl, rfl, rfl⟩
  obtain ⟨hnameSize,hdataSize,hvendorGuid,hsize⟩ := hlayout
  have hlen : (newHeader c req (newTimeStamp req existing) k.name.length data.length).length =
      32+stamp.length := by
    rw [hhead]
    simp [hguid]
    omega
  refine ⟨?_, ?_, ?_, ?_, ?_, ?_, ?_, ?_, ?_⟩
  · rw [length_append, length_append, hlen, hsize]
  · rw [hhead]
    exact uintAt_field 2 variableData [] _ rfl
  · rw [hhead]
    rfl
  · rw [hhead, attributes]
    have hfld := uintAt_field 4 (req.attributes &&& ~~~efiVariableAppendWrite).toNat
      (leBytes 2 variableData ++ [0xff, 0])
      (stamp ++ leBytes 4 k.name.length ++ leBytes 4 data.length ++ req.vendorGuid ++ k.name ++ data)
      (show _ = 4 by simp)
    simp only [append_assoc] at hfld ⊢
    rw [hfld, hattr]
  · rw [hhead, hnameSize]
    have hfld := uintAt_field 4 k.name.length
      (leBytes 2 variableData ++ [0xff, 0] ++
      leBytes 4 (req.attributes &&& ~~~efiVariableAppendWrite).toNat ++ stamp)
      (leBytes 4 data.length ++ req.vendorGuid ++ k.name ++ data)
      (show _ = 8+stamp.length by simp; omega)
    simp only [append_assoc] at hfld ⊢
    exact hfld
  · rw [hhead, hdataSize]
    have hfld := uintAt_field 4 data.length
      (leBytes 2 variableData ++ [0xff, 0] ++
      leBytes 4 (req.attributes &&& ~~~efiVariableAppendWrite).toNat ++ stamp ++
      leBytes 4 k.name.length) (req.vendorGuid ++ k.name ++ data)
      (show _ = 12+stamp.length by simp; omega)
    simp only [append_assoc] at hfld ⊢
    exact hfld
  · rw [hhead, hvendorGuid, ← h.vendorGuid]
    have hfld := Bytes.slice_middle (leBytes 2 variableData ++ [0xff, 0] ++
      leBytes 4 (req.attributes &&& ~~~efiVariableAppendWrite).toNat ++ stamp ++
      leBytes 4 k.name.length ++ leBytes 4 data.length) req.vendorGuid (k.name ++ data)
    have hfront : (leBytes 2 variableData ++ [0xff, 0] ++
        leBytes 4 (req.attributes &&& ~~~efiVariableAppendWrite).toNat ++ stamp ++
        leBytes 4 k.name.length ++ leBytes 4 data.length).length = 16+stamp.length := by
      simp
      omega
    rw [hfront, hguid] at hfld
    simp only [append_assoc] at hfld ⊢
    exact hfld
  · have hfld := Bytes.slice_middle (newHeader c req (newTimeStamp req existing) k.name.length data.length)
      k.name data
    rw [hlen] at hfld
    rw [hsize]
    exact hfld
  · have hfld := Bytes.slice_middle
      (newHeader c req (newTimeStamp req existing) k.name.length data.length ++ k.name) data []
    rw [append_nil, length_append, hlen] at hfld
    rw [hsize]
    exact hfld

/-- The first `n` bytes of `v` with the state `s`, in `size` bytes that are erased elsewhere. -/
def tailBytes (v : Bytes) (size n : Nat) (s : UInt8) : Bytes := (range size).map fun i =>
    if i = offsetOfState then s else if i < n then v.getD i 0xff else 0xff

section Tail
variable {v : Bytes} {size n : Nat} {s : UInt8}

@[simp] theorem length_tailBytes (v : Bytes) (size n : Nat) (s : UInt8) :
    (tailBytes v size n s).length = size := by simp [tailBytes]

theorem getElem?_tailBytes (v : Bytes) (size n : Nat) (s : UInt8) (i : Nat) :
    (tailBytes v size n s)[i]? = if i < size then
      some (if i = offsetOfState then s else if i < n then v.getD i 0xff else 0xff) else none := by
  unfold tailBytes
  rw [getElem?_map]
  by_cases h : i < size
  · rw [if_pos h, getElem?_range h]
    rfl
  · rw [if_neg h, getElem?_eq_none (by rw [length_range]; omega)]
    rfl

theorem tailBytes_zero (v : Bytes) (size : Nat) : tailBytes v size 0 0xff = replicate size 0xff := by
  apply ext_getElem?
  intro i
  rw [getElem?_tailBytes, getElem?_replicate]
  simp

theorem getD_of_lt {i : Nat} (h : i < v.length) : v[i]? = some (v.getD i 0xff) := by
  rw [getD_eq_getElem?_getD, getElem?_eq_getElem h]
  rfl

variable {w off len : Nat}

theorem patch_tailBytes_header (hn : n ≤ w) (hw : w ≤ v.length) (hsize : w ≤ size)
    (hst : v.getD offsetOfState 0xff = 0xff) :
    patch (tailBytes v size 0 0xff) 0 ((v.take w).take n) = tailBytes v size n 0xff := by
  have hlen : ((v.take w).take n).length = n := by
    rw [length_take, length_take]
    omega
  apply ext_getElem?
  intro i
  rw [Bytes.getElem?_patch (by rw [hlen, length_tailBytes]; omega), hlen, getElem?_tailBytes,
    getElem?_tailBytes]
  by_cases hi : i < n
  · rw [if_pos ⟨Nat.zero_le i, by omega⟩, if_pos (by omega), take_take, Nat.sub_zero,
      getElem?_take, if_pos (by omega), getD_of_lt (by omega), if_pos hi]
    by_cases htwo : i = offsetOfState
    · rw [if_pos htwo, htwo, hst]
    · rw [if_neg htwo]
  · rw [if_neg (by omega), if_neg hi]
    simp

theorem patch_tailBytes_state (hsize : offsetOfState < size) (s' : UInt8) :
    patch (tailBytes v size n s) offsetOfState [s'] = tailBytes v size n s' := by
  apply ext_getElem?
  intro i
  rw [Bytes.getElem?_patch (by simp; omega), getElem?_tailBytes, getElem?_tailBytes, length_singleton]
  by_cases htwo : i = offsetOfState
  · rw [if_pos (by omega), if_pos (by omega), if_pos htwo, htwo, Nat.sub_self, getElem?_cons_zero]
  · rw [if_neg (by omega), if_neg htwo, if_neg htwo]

theorem patch_tailBytes_rest (hw : offsetOfState < w) (hn : w+n ≤ v.length) (hsize : v.length ≤ size) :
    patch (tailBytes v size w s) w ((v.drop w).take n) = tailBytes v size (w+n) s := by
  have hlen : ((v.drop w).take n).length = n := by
    rw [length_take, length_drop]
    omega
  apply ext_getElem?
  intro i
  rw [Bytes.getElem?_patch (by rw [hlen, length_tailBytes]; omega), hlen, getElem?_tailBytes,
    getElem?_tailBytes]
  by_cases hin : w ≤ i ∧ i < w+n
  · rw [if_pos hin, if_pos (by omega), if_neg (by omega), if_pos hin.2, getElem?_take,
      if_pos (by omega), getElem?_drop, ← getD_of_lt (by omega)]
    congr 1
    omega
  rw [if_neg hin]
  by_cases hi : i < w
  · rw [if_pos hi, if_pos (show i < w+n by omega)]
  · rw [if_neg hi, if_neg (show ¬ i < w+n by omega)]

theorem slice_tailBytes_written (hn : off+len ≤ n) (hv : n ≤ v.length)
    (hsize : n ≤ size) (htwo : off+len ≤ offsetOfState ∨ offsetOfState < off) :
    slice (tailBytes v size n s) off len = slice v off len := by
  apply ext_getElem?
  intro i
  rw [Bytes.getElem?_slice, Bytes.getElem?_slice]
  by_cases hi : i < len
  · rw [if_pos hi, if_pos hi, getElem?_tailBytes, if_pos (by omega), if_neg (by omega),
      if_pos (by omega), getD_of_lt (by omega)]
  · rw [if_neg hi, if_neg hi]

theorem drop_tailBytes (hn : n ≤ w) (hw : offsetOfState < w) :
    (tailBytes v size n s).drop w = replicate (size-w) 0xff := by
  apply ext_getElem?
  intro i
  rw [getElem?_drop, getElem?_tailBytes, getElem?_replicate]
  by_cases hi : i < size-w
  · rw [if_pos (by omega), if_neg (by omega), if_neg (by omega), if_pos hi]
  · rw [if_neg (by omega), if_neg hi]

theorem slice_tailBytes_erased (hn : n ≤ off) (hw : offsetOfState < off) (hsize : off+len ≤ size) :
    slice (tailBytes v size n s) off len = replicate len 0xff := by
  rw [slice, drop_tailBytes hn hw, take_replicate, min_eq_left (by omega)]

theorem getD_tailBytes_state (hsize : offsetOfState < size) (d : UInt8) :
    (tailBytes v size n s).getD offsetOfState d = s := by
  rw [getD_eq_getElem?_getD, getElem?_tailBytes, if_pos hsize, if_pos rfl]
  rfl

theorem slice_take {t : Bytes} (h : off+len ≤ w) : slice (t.take w) off len = slice t off len := by
  rw [slice, slice, drop_take, take_take, min_eq_left (by omega)]

theorem state_take {t : Bytes} (h : offsetOfState < w) : state (t.take w) 0 = t.getD offsetOfState 0 := by
  rw [state, zero_add, getD_eq_getElem?_getD, getElem?_take, if_pos h, getD_eq_getElem?_getD]

end Tail

theorem headerSize_pos (auth : Bool) : 32 ≤ getVariableHeaderSize auth := by
  cases auth <;> decide

theorem dvd_headerSize (auth : Bool) : 4 ∣ getVariableHeaderSize auth := by
  cases auth <;> decide

theorem isEntry_header {auth : Bool} {w : Bytes}
    (hlen : w.length = getVariableHeaderSize auth) (hstart : startId w 0 = variableData)
    (hst : state w 0 = 0xff) : IsEntry auth w where
  header := le_of_eq hlen.symm
  startId := hstart
  next := by
    have herased : sizesErased auth w 0 = true := by
      rw [sizesErased, hst]
      rfl
    simp only [getNextVariablePtr, getVariableDataPtr, getVariableNamePtr, getPadSize,
      nameSizeOfVariable, dataSizeOfVariable, herased, if_true, zero_add, add_zero]
    rw [headerAlign_of_dvd (dvd_headerSize auth), hlen]

theorem layout_fields (auth : Bool) : offsetOfState < (headerLayout auth).nameSize ∧
      (headerLayout auth).nameSize + 4 ≤ getVariableHeaderSize auth ∧
      offsetOfState < (headerLayout auth).dataSize ∧
      (headerLayout auth).dataSize + 4 ≤ getVariableHeaderSize auth ∧
      offsetOfState < (headerLayout auth).vendorGuid ∧
      (headerLayout auth).vendorGuid + 16 ≤ getVariableHeaderSize auth := by
  cases auth <;> decide

theorem clearAppend_ne (a : UInt32) : a &&& ~~~efiVariableAppendWrite ≠ 0xffffffff := by
  intro h
  have hbit : (a &&& ~~~efiVariableAppendWrite) &&& efiVariableAppendWrite = 0 := by
    rw [UInt32.and_assoc]
    have hzero : ~~~efiVariableAppendWrite &&& efiVariableAppendWrite = 0 := by decide
    rw [hzero, UInt32.and_zero]
  rw [h] at hbit
  exact absurd hbit (by decide)

section Entry
variable {v : Bytes} {size n : Nat} {s : UInt8}

structure EntryFields (c : VariableConfig) (req : UpdateRequest) (k : VariableKey) (data w : Bytes)
    (s : UInt8) : Prop where
  isEntry : IsEntry c.authFormat w
  state : state w 0 = s
  attributes : attributes w 0 = req.attributes &&& ~~~efiVariableAppendWrite
  nameSize : nameSizeOfVariable c.authFormat w 0 = k.name.length
  dataSize : dataSizeOfVariable c.authFormat w 0 = data.length
  vendorGuid : vendorGuidOf c.authFormat w 0 = k.vendorGuid

theorem entryFields (hv : IsNewVariable c req k data v)
    (hn : getVariableHeaderSize c.authFormat ≤ n) (hle : n ≤ v.length)
    (hsize : headerAlign v.length ≤ size) (hfit : size < 2^32-1) (hs : s ≠ 0xff) :
    EntryFields c req k data ((tailBytes v size n s).take (headerAlign v.length)) s := by
  have hal := le_headerAlign v.length
  have htwo : offsetOfState = 2 := rfl
  obtain ⟨h1,h2,h3,h4,h5,h6⟩ := layout_fields c.authFormat
  have hlength := hv.length
  have hread : ∀ off len, off+len ≤ getVariableHeaderSize c.authFormat →
      (off+len ≤ offsetOfState ∨ offsetOfState < off) →
      slice ((tailBytes v size n s).take (headerAlign v.length)) off len = slice v off len := by
    intro off len hin hout
    rw [slice_take (by omega)]
    exact slice_tailBytes_written (by omega) hle (by omega) hout
  have hst : state ((tailBytes v size n s).take (headerAlign v.length)) 0 = s := by
    rw [state_take (by omega), getD_tailBytes_state (by omega)]
  have hattr : attributes ((tailBytes v size n s).take (headerAlign v.length)) 0 =
      req.attributes &&& ~~~efiVariableAppendWrite := by
    rw [← hv.attributes, attributes, attributes, uintAt, uintAt,
      hread _ _ (by omega) (by omega)]
  have hns : uintAt ((tailBytes v size n s).take (headerAlign v.length))
      (0 + (headerLayout c.authFormat).nameSize) 4 = k.name.length := by
    rw [zero_add, uintAt, hread _ _ h2 (.inr h1)]
    refine hv.nameSize.trans (Nat.mod_eq_of_lt ?_)
    omega
  have hds : uintAt ((tailBytes v size n s).take (headerAlign v.length))
      (0 + (headerLayout c.authFormat).dataSize) 4 = data.length := by
    rw [zero_add, uintAt, hread _ _ h4 (.inr h3)]
    refine hv.dataSize.trans (Nat.mod_eq_of_lt ?_)
    omega
  have herased : sizesErased c.authFormat
      ((tailBytes v size n s).take (headerAlign v.length)) 0 = false := by
    rw [sizesErased, hst, hns, hds, hattr, beq_eq_false_iff_ne.mpr hs,
      beq_eq_false_iff_ne.mpr (show data.length ≠ 0xffffffff by omega),
      beq_eq_false_iff_ne.mpr (show k.name.length ≠ 0xffffffff by omega),
      beq_eq_false_iff_ne.mpr (clearAppend_ne _)]
    rfl
  have hname : nameSizeOfVariable c.authFormat
      ((tailBytes v size n s).take (headerAlign v.length)) 0 = k.name.length := by
    rw [nameSizeOfVariable, herased, if_ff, hns]
  have hdata : dataSizeOfVariable c.authFormat
      ((tailBytes v size n s).take (headerAlign v.length)) 0 = data.length := by
    rw [dataSizeOfVariable, herased, if_ff, hds]
  have hlen : ((tailBytes v size n s).take (headerAlign v.length)).length = headerAlign v.length := by
    rw [length_take, length_tailBytes, min_eq_left hsize]
  refine ⟨⟨by omega, ?_, ?_⟩, hst, hattr, hname, hdata, ?_⟩
  · rw [← hv.startId, startId, startId, uintAt, uintAt,
      hread _ _ (by omega) (.inl (by omega))]
  · rw [hlen, getNextVariablePtr, hdata, getVariableDataPtr, hname]
    simp only [getVariableNamePtr, getPadSize, zero_add, add_zero]
    rw [hlength]
  · rw [← hv.vendorGuid, vendorGuidOf, zero_add, hread _ _ h6 (.inr h5)]

theorem keyOf_written (hv : IsNewVariable c req k data v)
    (hsize : headerAlign v.length ≤ size) (hfit : size < 2^32-1) (hs : s ≠ 0xff) :
    keyOf c.authFormat ((tailBytes v size v.length s).take (headerAlign v.length)) = k ∧
      valueOf c.authFormat ((tailBytes v size v.length s).take (headerAlign v.length)) =
        (req.attributes &&& ~~~efiVariableAppendWrite, data) := by
  have h32 := headerSize_pos c.authFormat
  have hal := le_headerAlign v.length
  have htwo : offsetOfState = 2 := rfl
  have hlen := hv.length
  have hflds := @entryFields c req k data v size v.length s hv (by omega) le_rfl hsize
    hfit hs
  have hread : ∀ off len, off+len ≤ v.length → offsetOfState < off →
      slice ((tailBytes v size v.length s).take (headerAlign v.length)) off len = slice v off len := by
    intro off len hin hout
    rw [slice_take (by omega)]
    exact slice_tailBytes_written hin le_rfl (by omega) (.inr hout)
  constructor
  · have hname : nameOf c.authFormat
        ((tailBytes v size v.length s).take (headerAlign v.length)) 0 = k.name := by
      rw [nameOf, hflds.nameSize, getVariableNamePtr, zero_add, hread _ _ (by omega) (by omega), hv.name]
    rw [keyOf, keyAt, hname, hflds.vendorGuid]
  · have hdata : dataOf c.authFormat
        ((tailBytes v size v.length s).take (headerAlign v.length)) 0 = data := by
      rw [dataOf, hflds.dataSize, getVariableDataPtr, hflds.nameSize, getVariableNamePtr,
        getPadSize, zero_add, add_zero, hread _ _ (by omega) (by omega), hv.data]
    rw [valueOf, hflds.attributes, hdata]

end Entry

end Liano.Variable
