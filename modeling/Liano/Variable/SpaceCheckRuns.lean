import Liano.Variable.UpdateBounds

/-! Updates after `CheckRemainingSpaceForConsistencyInternal` has answered TRUE: none returns
`EFI_OUT_OF_RESOURCES` as long as the running totals keep the quotas, which they do over any updates where
the quotas are multiples of `HEADER_ALIGNMENT`. The quotas are compared with the size of the new variable
before it is padded, so with others the padding may be what does not fit; and a variable that `Reclaim`
refuses over a quota is reported as written. -/
namespace Liano.Variable
open Bytes (slice patch)

section
variable {c : VariableConfig} {st : VariableState} {m : StoreImage c.authFormat} {req : UpdateRequest}
  {cacheVariable : CacheVariable} {k : VariableKey} {data v : Bytes}

/-- A variable that is within its quota ends in the store. -/
theorem nonVolatileRoom_of_accounted (h : Accounted c st m)
    (hv : IsNewVariable c req k data v) : nonVolatileRoom c st req v = true := by
  unfold nonVolatileRoom storeEnd
  rw [if_ff, Bool.or_eq_true_iff, or_iff_not_imp_left, decide_eq_true_eq]
  intro hq
  have hfits := h.nvAccounting.fits (Bool.eq_false_of_not_eq_true hq)
  have hlength := hv.length
  have halign := le_headerAlign v.length
  have hstore : c.nonVolatileVariableBase + m.bytes.length ≤ st.flash.length := h.image.flash.holds.length_le
  have hbytes : m.bytes.length = st.nonVolatileLastVariableOffset + m.tail.length := by
    rw [StoreImage.bytes, List.length_append, m.length_front, h.lastOffset]
  rw [h.image.flash.length] at hstore
  rw [max_eq_right (by omega)]
  omega

/-- An update finds room in a store whose totals keep the quotas. -/
theorem hasRoom_of_accounted (h : Accounted c st m) (hreq : Requests req k)
    (hnv : req.isNonVolatile = true) (hfnd : FoundOk c st cacheVariable) :
    hasRoom c st req cacheVariable = true := by
  unfold hasRoom
  split
  · rename_i data mark hplan
    rw [hnv, Bool.true_and]
    exact nonVolatileRoom_of_accounted h (isNewVariable_planned hreq hfnd data)
  · rfl

theorem WithinBounds.creationUncut (h : WithinBounds c st) : CreationUncut c st req cacheVariable :=
  fun _ _ _ _ _ => .inr (.inr fun status hs => by
    rw [h.writes.1 status (List.mem_of_mem_drop (List.mem_of_mem_take hs))]
    rfl)

/-- The listed updates are of non-volatile variables, and what each of them finds in the state before it is a
whole variable. -/
def CallsInOrder (c : VariableConfig) (ignoreRtCheck : Bool) : VariableState → List UpdateRequest → Prop
  | _, [] => True
  | st, req :: reqs =>
    (req.isNonVolatile = true ∧ (∃ k, Requests req k) ∧
      FoundOk c st (switchFromHob c st req (foundVariable c st req ignoreRtCheck)) ∧
      FlushOk c req.variableName req.vendorGuid (flushedState c st req ignoreRtCheck)) ∧
    CallsInOrder c ignoreRtCheck (updateVariable c st req (foundVariable c st req ignoreRtCheck)).1 reqs

theorem updateInOrder_of_accounted (hc : FlashVolume c) {ign : Bool} (reqs : List UpdateRequest)
    (h : Accounted c st m) (hbounds : WithinBounds c st) (hcalls : CallsInOrder c ign st reqs) :
    ∀ status ∈ (updateInOrder c ign st reqs).2, status ≠ .outOfResources := by
  induction reqs generalizing st m with
  | nil => exact fun status hs => nomatch hs
  | cons req reqs ih =>
    obtain ⟨⟨hnv,hreq,hfnd,hflush⟩,hcalls⟩ := hcalls
    obtain ⟨hout,hbounds'⟩ := updateVariable_outcome hbounds req ign
    obtain ⟨m',h'⟩ := updateVariable_accounted hc h
      ⟨hreq, hfnd, hbounds.creationUncut, hbounds.untorn⟩ hflush
    obtain ⟨k,hreq⟩ := hreq
    have hroom := hasRoom_of_accounted h hreq hnv hfnd
    unfold updateInOrder
    rw [List.forall_mem_cons]
    refine ⟨fun hst => ?_, ih h' hbounds' hcalls⟩
    exact Bool.noConfusion (hroom.symm.trans (hout hst))

end

/-! The variable "A" with two entries and 40 free bytes, updated twice: the first update fills the store, and
the second one reclaims it. -/

def twoCopies : VariableState := smallState (storeHeader 28) twinFirst.bytes 28 108 80

def spaceConfig : VariableConfig := { smallConfig with
    fvLength := 144
    blockMap := [(1,144)]
    pcdHwErrStorageSize := 37
    commonVariableSpace := 79
    commonRuntimeVariableSpace := 79
    commonMaxUserVariableSpace := 79 }

def emptyStores (size : UInt8) : VariableState :=
  smallState (storeHeader 28) (storeHeader size ++ List.replicate (size.toNat-28) 0xff) 28 28 0

def setLetter (char : UInt8) (attributes : UInt32) (data : Bytes) : UpdateRequest where
  variableName := [char, 0, 0, 0]
  vendorGuid := List.replicate 16 0
  data := data
  attributes := attributes
  keyIndex := 0
  monotonicCount := 0
  timeStamp := none

def recordAndDeleted : VariableState := (updateInOrder spaceConfig true (emptyStores 144)
    [setLetter 0x48 0xf [1], setLetter 0x41 7 [1], setLetter 0x41 7 []]).1

theorem withinBounds_recordAndDeleted : WithinBounds spaceConfig recordAndDeleted where
  boot := by decide +kernel
  notEmulated := rfl
  available := by decide +kernel
  writes := by
    have hnone : recordAndDeleted.ftwLeft = [] := by decide +kernel
    exact ⟨by decide +kernel, fun _ h => by rw [hnone] at h; exact nomatch h⟩
  volatileStore := ⟨by decide +kernel, by decide +kernel⟩
  volume := ⟨by decide +kernel, by decide +kernel, by decide +kernel, by decide +kernel⟩
  nvOffset := by decide +kernel
  volatileOffset := by decide +kernel

end Liano.Variable
