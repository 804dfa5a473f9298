import Mathlib.Data.Nat.Bitwise
import Liano.Variable.Accounted

/-! The accounting through the creation of a variable in flash, and through the error flag. -/
namespace Liano.Variable

open List

open Bytes (slice patch HoldsAt)

section
variable {c : VariableConfig} {st : VariableState} {m : StoreImage c.authFormat}

theorem updateVariableStore_success (hc : FlashVolume c) {off : Nat} {data : Bytes}
    (hfvb : st.fvbInstance = true) (hlen : st.flash.length = c.fvLength)
    (hoff : off+c.nonVolatileVariableBase+data.length ≤ c.fvLength) (hdata : data ≠ [])
    (hok : WritesSucceed (fvbCalls c.blocks 0 (off+c.nonVolatileVariableBase) data.length) st.fvbStatus) :
    ∃ st', updateVariableStore c st false off data = (st', .success) ∧ st'.fvbInstance = true ∧
      st'.flash.length = c.fvLength ∧ st'.fvbStatus = st.fvbStatus.drop
        (fvbCalls c.blocks 0 (off+c.nonVolatileVariableBase) data.length) := by
  have hcov := hc.covered
  have hflash : (!false && !c.emuNvMode) = true := by rw [hc.notEmulated]; rfl
  rw [updateVariableStore, if_pos hflash, hfvb, if_neg (by decide), if_neg (by omega),
    writeBlocks_success (Nat.zero_le _) (by omega) (by omega) hdata hok]
  refine ⟨_, rfl, hfvb, ?_, rfl⟩
  rw [length_programFlash (by omega)]
  exact hlen

theorem writeBlocks_first_error {blocks : List Nat} {linearOffset ptr : Nat} {data : Bytes}
    (hle : linearOffset ≤ ptr) (hcov : ptr+data.length ≤ linearOffset+blocks.sum)
    (hdata : data ≠ []) (herr : (st.fvbStatus.headD .success).isError = true) :
    (writeBlocks c blocks linearOffset ptr data st).1 = { st with fvbStatus := st.fvbStatus.tail } ∧
      (writeBlocks c blocks linearOffset ptr data st).2.isError = true := by
  have hpos : 0 < data.length := length_pos_of_ne_nil hdata
  induction blocks generalizing linearOffset with
  | nil =>
    rw [sum_nil] at hcov
    omega
  | cons length blocks ih =>
    rw [sum_cons] at hcov
    rw [writeBlocks]
    by_cases hin : linearOffset ≤ ptr ∧ ptr < linearOffset+length
    · rw [if_pos hin]
      split
      · rw [fvbWrite_of_error herr]
        exact ⟨rfl, herr⟩
      · rw [andThen, fvbWrite_of_error herr, if_pos herr]
        exact ⟨rfl, herr⟩
    · rw [if_neg hin]
      exact ih (by omega) (by omega)

/-- The `Fvb->Write` calls of the four steps that create a variable. -/
def creationCalls (c : VariableConfig) (off len : Nat) : Nat := let size := getVariableHeaderSize c.authFormat
  fvbCalls c.blocks 0 (off+c.nonVolatileVariableBase) size +
    (fvbCalls c.blocks 0 (off+offsetOfState+c.nonVolatileVariableBase) 1 +
      (fvbCalls c.blocks 0 (off+size+c.nonVolatileVariableBase) (len-size) +
        fvbCalls c.blocks 0 (off+offsetOfState+c.nonVolatileVariableBase) 1))

def Uncut (c : VariableConfig) (st : VariableState) (off len : Nat) : Prop :=
  st.fvbInstance = false ∨ (st.fvbStatus.headD .success).isError = true ∨
    WritesSucceed (creationCalls c off len) st.fvbStatus

theorem writeInSteps_success (hc : FlashVolume c) {v : Bytes} (hfvb : st.fvbInstance = true)
    (hlen : st.flash.length = c.fvLength)
    (hoff : st.nonVolatileLastVariableOffset+c.nonVolatileVariableBase+v.length ≤ c.fvLength)
    (hlong : getVariableHeaderSize c.authFormat < v.length)
    (hok : WritesSucceed (creationCalls c st.nonVolatileLastVariableOffset v.length)
      st.fvbStatus) : (writeInSteps c v st).2.isError = false := by
  have h32 := headerSize_pos c.authFormat
  have htwo : offsetOfState = 2 := rfl
  have hhead : (v.take (getVariableHeaderSize c.authFormat)).length = getVariableHeaderSize c.authFormat := by
    rw [length_take]
    omega
  have hrest : (v.drop (getVariableHeaderSize c.authFormat)).length =
      v.length - getVariableHeaderSize c.authFormat := length_drop
  have hone : ∀ s : UInt8, [s].length = 1 := fun s => length_singleton
  obtain ⟨hok₁,hok⟩ := writesSucceed_add.mp hok
  obtain ⟨hok₂,hok⟩ := writesSucceed_add.mp hok
  obtain ⟨hok₃,hok₄⟩ := writesSucceed_add.mp hok
  unfold writeInSteps
  dsimp only
  obtain ⟨st₁,hr₁,hfvb₁,hlen₁,hst₁⟩ := @updateVariableStore_success c st hc
    st.nonVolatileLastVariableOffset (v.take (getVariableHeaderSize c.authFormat)) hfvb hlen
    (by rw [hhead]; omega) (ne_nil_of_length_pos (by omega)) (by rw [hhead]; exact hok₁)
  rw [hr₁, andThen_of_success (by rfl)]
  rw [hhead] at hst₁
  obtain ⟨st₂,hr₂,hfvb₂,hlen₂,hst₂⟩ := @updateVariableStore_success c st₁ hc
    (st.nonVolatileLastVariableOffset+offsetOfState) [varHeaderValidOnly] hfvb₁ hlen₁
    (by rw [hone]; omega) (cons_ne_nil _ _) (by rw [hone, hst₁]; exact hok₂)
  rw [hr₂, andThen_of_success (by rfl)]
  rw [hone, hst₁] at hst₂
  obtain ⟨st₃,hr₃,hfvb₃,hlen₃,hst₃⟩ := @updateVariableStore_success c st₂ hc
    (st.nonVolatileLastVariableOffset + getVariableHeaderSize c.authFormat)
    (v.drop (getVariableHeaderSize c.authFormat)) hfvb₂ hlen₂
    (by rw [hrest]; omega) (ne_nil_of_length_pos (by omega))
    (by rw [hrest, hst₂]; exact hok₃)
  rw [hr₃, andThen_of_success (by rfl)]
  rw [hrest, hst₂] at hst₃
  obtain ⟨st₄,hr₄,-,-,-⟩ := @updateVariableStore_success c st₃ hc
    (st.nonVolatileLastVariableOffset+offsetOfState) [varAdded] hfvb₃ hlen₃
    (by rw [hone]; omega) (cons_ne_nil _ _) (by rw [hone, hst₃]; exact hok₄)
  rw [hr₄, andThen_of_success (by rfl)]
  rfl

theorem writeInSteps_first_error (hc : FlashVolume c) {v : Bytes}
    (hoff : st.nonVolatileLastVariableOffset+c.nonVolatileVariableBase+v.length ≤ c.fvLength)
    (hlong : getVariableHeaderSize c.authFormat < v.length)
    (herr : st.fvbInstance = false ∨ (st.fvbStatus.headD .success).isError = true) :
    Untouched st (writeInSteps c v st).1 ∧ (writeInSteps c v st).2.isError = true := by
  have h32 := headerSize_pos c.authFormat
  have hhead : (v.take (getVariableHeaderSize c.authFormat)).length = getVariableHeaderSize c.authFormat := by
    rw [length_take]
    omega
  have hcov := hc.covered
  have hflash : (!false && !c.emuNvMode) = true := by rw [hc.notEmulated]; rfl
  have hstep : Untouched st (updateVariableStore c st false st.nonVolatileLastVariableOffset
        (v.take (getVariableHeaderSize c.authFormat))).1 ∧
      (updateVariableStore c st false st.nonVolatileLastVariableOffset
        (v.take (getVariableHeaderSize c.authFormat))).2.isError = true := by
    rw [updateVariableStore, if_pos hflash]
    cases hfvb : st.fvbInstance with
    | false => exact ⟨Untouched.refl st, rfl⟩
    | true =>
      have hhd := herr.resolve_left (by rw [hfvb]; decide)
      obtain ⟨hst,he⟩ := @writeBlocks_first_error c st c.blocks 0
        (st.nonVolatileLastVariableOffset+c.nonVolatileVariableBase)
        (v.take (getVariableHeaderSize c.authFormat)) (Nat.zero_le _) (by omega)
        (ne_nil_of_length_pos (by omega)) hhd
      rw [if_neg (by decide), if_neg (by omega), hst]
      exact ⟨⟨rfl, rfl, rfl, rfl, rfl⟩, he⟩
  unfold writeInSteps
  rw [andThen_of_error hstep.2]
  exact hstep

theorem isHardwareErrorRecord_eq (a : UInt32) : isHardwareErrorRecord (a &&& ~~~efiVariableAppendWrite) =
      hasAttribute a efiVariableHardwareErrorRecord := by
  have hmask : ~~~efiVariableAppendWrite &&& efiVariableHardwareErrorRecord =
      efiVariableHardwareErrorRecord := by decide
  have hbit : a &&& efiVariableHardwareErrorRecord = 0 ∨
      a &&& efiVariableHardwareErrorRecord = efiVariableHardwareErrorRecord := by
    have hnat : (a &&& efiVariableHardwareErrorRecord).toNat = (a.toNat.testBit 3).toNat * 2^3 := by
      exact Nat.and_two_pow a.toNat 3
    cases hb : a.toNat.testBit 3 with
    | false =>
      left
      apply UInt32.toNat_inj.mp
      rw [hnat, hb]
      rfl
    | true =>
      right
      apply UInt32.toNat_inj.mp
      rw [hnat, hb]
      rfl
  rw [isHardwareErrorRecord, hasAttribute, UInt32.and_assoc, hmask]
  rcases hbit with h | h <;> rw [h] <;> decide

variable {req : UpdateRequest} {k : VariableKey} {data v : Bytes} {cacheVariable : CacheVariable}

/-- A new variable within its quota keeps to the space of its kind, padded: that is aligned. -/
theorem Accounted.space_of_quota (h : Accounted c st m) (hq : quotaExceeded c st req v = false) :
    kindSize false m.entries + (if hasAttribute req.attributes efiVariableHardwareErrorRecord == false
        then headerAlign v.length else 0) ≤ c.commonVariableSpace ∧
      kindSize true m.entries + (if hasAttribute req.attributes efiVariableHardwareErrorRecord == true
        then headerAlign v.length else 0) ≤ c.pcdHwErrStorageSize := by
  have hspace := h.space
  have hcommonLe := h.commonSpace
  have hhwErrLe := h.hwErrSpace
  simp only [quotaExceeded, Bool.or_eq_false_iff, Bool.and_eq_false_iff,
    Bool.not_eq_false', decide_eq_false_iff_not] at hq
  obtain ⟨⟨⟨hq₁,hq₂⟩,-⟩,-⟩ := hq
  have hround : headerAlign v.length < v.length+4 := by
    unfold headerAlign
    omega
  have hstart : getStartPointer = 28 := rfl
  obtain ⟨a,ha⟩ := dvd_headerAlign v.length
  obtain ⟨b,hb⟩ := h.alignedSpace
  obtain ⟨d,hd⟩ := m.dvd_storeSize
  obtain ⟨f,hf⟩ := dvd_kindSize true m.isEntry
  obtain ⟨g,hg⟩ := dvd_kindSize false m.isEntry
  rw [h.common] at hq₂
  rw [h.hwErr] at hq₁
  cases herr : hasAttribute req.attributes efiVariableHardwareErrorRecord with
  | true =>
    have hle := hq₁.resolve_left (by rw [herr]; decide)
    rw [if_neg (by decide), if_pos (by decide)]
    omega
  | false =>
    have hle := hq₂.resolve_left (by rw [herr]; decide)
    rw [if_pos (by decide), if_neg (by decide)]
    omega

theorem writeNonVolatile_keeps (hc : FlashVolume c) (h : Accounted c st m)
    (hv : IsNewVariable c req k data v) (hname : 0 < k.name.length) (hdata : 0 < data.length)
    (hq : quotaExceeded c st req v = false)
    (hcut : Uncut c st st.nonVolatileLastVariableOffset v.length)
    (hcv : CacheVariableOk m cacheVariable) : Keeps c m (writeNonVolatile c req cacheVariable id v st).1 := by
  have hal := le_headerAlign v.length
  have hlong := hv.length
  have h32 := headerSize_pos c.authFormat
  have htwo : offsetOfState = 2 := rfl
  have hfit : headerAlign v.length ≤ m.tail.length := h.nvAccounting.fits hq
  have hbs : m.bytes = m.bytesWith (replicate m.tail.length 0xff) := by
    rw [← h.erased]
    rfl
  have hoff : st.nonVolatileLastVariableOffset+c.nonVolatileVariableBase+v.length ≤ c.fvLength := by
    have hle := h.image.flash.holds.length_le
    have hlen := h.image.flash.length
    have hsize : (m.bytesWith m.tail).length = _ := m.length_bytesWith
    have htail : m.bytes = m.bytesWith m.tail := rfl
    rw [htail, hsize] at hle
    rw [h.lastOffset]
    omega
  rw [writeNonVolatile, hq, if_ff, hc.notEmulated, if_ff]
  by_cases hfst : st.fvbInstance = false ∨ (st.fvbStatus.headD .success).isError = true
  · obtain ⟨hu,herr⟩ := writeInSteps_first_error hc hoff (by omega) hfst
    rw [andThen_of_error herr]
    exact (h.of_untouched hu).keeps
  rw [not_or] at hfst
  have hok := writeInSteps_success hc (Bool.not_eq_false _ ▸ hfst.1) h.image.flash.length hoff
    (by omega) ((hcut.resolve_left hfst.1).resolve_left hfst.2)
  have hflash : InFlash c st (m.bytesWith (replicate m.tail.length 0xff)) := by
    rw [← hbs]
    exact h.image.flash
  rcases writeInSteps_nv hc hflash h.lastOffset hv.state (by omega) (by omega) with
    ⟨herr, -⟩ | ⟨-, st', honly, hflash', hset⟩
  · rw [hok] at herr
    exact Bool.noConfusion herr
  rw [andThen_of_success hok]
  obtain ⟨m',e,hm',hes',hadded,-,hval,hlen,hsize,hhdr,htail⟩ := exists_finished m hv hfit
  have hkind : isHardwareErrorRecord (attributes e 0) =
      hasAttribute req.attributes efiVariableHardwareErrorRecord := by
    rw [← isHardwareErrorRecord_eq]
    exact congrArg (fun x => isHardwareErrorRecord x.1) hval
  have hsizes : ∀ b, kindSize b m'.entries = kindSize b m.entries +
      if hasAttribute req.attributes efiVariableHardwareErrorRecord == b
        then headerAlign v.length else 0 := by
    intro b
    rw [hes', kindSize_append, kindSize_cons, kindSize_nil, add_zero, hkind, hlen]
  have hflatten : m'.entries.flatten.length = m.entries.flatten.length + headerAlign v.length := by
    rw [hes']
    simp [hlen]
  have hnew : Accounted c (countNew c req v (writeInSteps c v st).1) m' := by
    have hcommon : (countNew c req v (writeInSteps c v st).1).commonVariableTotalSize =
        kindSize false m'.entries := by
      rw [hsizes, hset, countNew, honly, ← h.common]
      cases hasAttribute req.attributes efiVariableHardwareErrorRecord <;> rfl
    have hhwErr : (countNew c req v (writeInSteps c v st).1).hwErrVariableTotalSize =
        kindSize true m'.entries := by
      rw [hsizes, hset, countNew, honly, ← h.hwErr]
      cases hasAttribute req.attributes efiVariableHardwareErrorRecord <;> rfl
    have hlast : (countNew c req v (writeInSteps c v st).1).nonVolatileLastVariableOffset =
        st.nonVolatileLastVariableOffset + headerAlign v.length := by
      rw [hset, countNew, honly]
      cases hasAttribute req.attributes efiVariableHardwareErrorRecord <;> rfl
    have hspace := h.space
    have hfits : kindSize false m'.entries ≤ c.commonVariableSpace ∧
        kindSize true m'.entries ≤ c.pcdHwErrStorageSize := by
      rw [hsizes, hsizes]
      exact h.space_of_quota hq
    refine ⟨nvImage_countNew h.image hbs h.lastOffset (by omega) (by omega) hm' honly hflash' hset, ?_, ?_, hcommon,
      hhwErr, hfits.1, hfits.2, ?_, h.alignedSpace, ?_⟩
    · rw [hlast, h.lastOffset, hflatten, add_assoc]
    · rw [htail, length_replicate]
    · rw [hhdr]
      exact hspace
    · intro d hd hu
      rw [hes'] at hd
      rcases mem_append.mp hd with hd | hd
      · exact h.hasData d hd hu
      · rw [mem_singleton.mp hd, hsize]
        exact hdata
  have hmono : ∀ p, PointsToEntry m p → PointsToEntry m' p := by
    rintro p ⟨d,hd,hds⟩
    refine ⟨d, ?_, hds⟩
    rw [StoreImage.locatedEntries, hes', located_append]
    exact mem_append_left _ hd
  have hdel := deleteOld_keeps hc hnew (hcv.mono hmono)
  have hrun : ∀ r : VariableState × EfiStatus, (andThen r fun st => (id st, .success)).1 = r.1 := by
    intro r
    rw [andThen]
    split <;> rfl
  rw [hrun]
  exact Keeps.trans hmono hdel

end

end Liano.Variable
