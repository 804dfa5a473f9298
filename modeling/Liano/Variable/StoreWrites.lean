import Liano.Variable.StoreEdits
import Liano.Variable.Update

/-! What `UpdateVariableStore` does to the store it writes to: for flash, block by block, with
every outcome of the single writes. -/
namespace Liano.Variable

open List

open Bytes (slice patch HoldsAt)

/-- Writing `data` over `old` clears bits only. -/
def Clears (old data : Bytes) : Prop := List.Forall₂ (fun o n => o &&& n = n) old data

variable {d : FlashDevice} {data flash : Bytes} {ptr : Nat}

theorem zipWith_program {old : Bytes} (h : Clears old data) : zipWith d.program old data = data := by
  induction h with
  | nil => rfl
  | cons hb _ ih => rw [zipWith_cons_cons, d.program_of_clears _ _ hb, ih]

theorem programFlash_eq (h : Clears (slice flash ptr data.length) data) :
    programFlash d flash ptr data = patch flash ptr data := by rw [programFlash, zipWith_program h]

theorem length_programFlash (h : ptr+data.length ≤ flash.length) :
    (programFlash d flash ptr data).length = flash.length := by
  have hs : (slice flash ptr data.length).length = data.length := Bytes.length_slice h
  have hz : (zipWith d.program (slice flash ptr data.length) data).length = data.length := by
    rw [length_zipWith, hs, min_self]
  exact Bytes.length_patch (by rw [hz]; exact h)

theorem programFlash_append {x y : Bytes} (h : ptr + (x ++ y).length ≤ flash.length) :
    programFlash d (programFlash d flash ptr x) (ptr+x.length) y = programFlash d flash ptr (x ++ y) := by
  rw [length_append] at h
  have hsx : (slice flash ptr x.length).length = x.length := Bytes.length_slice (by omega)
  have hzx : (zipWith d.program (slice flash ptr x.length) x).length = x.length := by
    rw [length_zipWith, hsx, min_self]
  have hsy : (slice flash (ptr+x.length) y.length).length = y.length := Bytes.length_slice (by omega)
  have hzy : (zipWith d.program (slice flash (ptr+x.length) y.length) y).length = y.length := by
    rw [length_zipWith, hsy, min_self]
  have hrest : slice (programFlash d flash ptr x) (ptr+x.length) y.length =
      slice flash (ptr+x.length) y.length := by
    rw [programFlash, Bytes.slice_patch_of_disjoint (by omega) (.inr (by omega))]
  have hboth : slice flash ptr (x ++ y).length =
      slice flash ptr x.length ++ slice flash (ptr+x.length) y.length := by
    rw [length_append, slice, slice, slice, take_add, drop_drop]
  rw [programFlash, hrest, programFlash, programFlash, hboth, zipWith_append hsx,
    ← Bytes.patch_append_right (by omega), hzx]

/-- The number of `Fvb->Write` calls that a write makes when all of them succeed. -/
def fvbCalls : List Nat → Nat → Nat → Nat → Nat
  | [], _, _, _ => 0
  | length :: blocks, linearOffset, ptr, size =>
    if linearOffset ≤ ptr ∧ ptr < linearOffset+length then
      if ptr+size ≤ linearOffset+length then 1
      else 1 + fvbCalls blocks (linearOffset+length) (linearOffset+length)
        (size - (linearOffset+length-ptr))
    else fvbCalls blocks (linearOffset+length) ptr size

/-- The first `k` of the coming writes succeed. -/
def WritesSucceed (k : Nat) (status : List EfiStatus) : Prop := ∀ s ∈ status.take k, s.isError = false

section
variable {c : VariableConfig} {blocks : List Nat} {linearOffset ptr : Nat} {data : Bytes}
  {st : VariableState}

theorem eq_success {s : EfiStatus} (h : s.isError = false) : s = .success := by
  cases s <;> first | rfl | cases h

theorem programFlash_nil (d : FlashDevice) (flash : Bytes) (ptr : Nat) :
    programFlash d flash ptr [] = flash := by rw [programFlash, zipWith_nil_right, Bytes.patch_nil]

theorem fvbWrite_of_error (h : (st.fvbStatus.headD .success).isError = true) : fvbWrite c st ptr data =
      ({ st with fvbStatus := st.fvbStatus.tail }, st.fvbStatus.headD .success) := by
  rw [fvbWrite]
  simp only [h, if_true]

theorem fvbWrite_of_success (h : (st.fvbStatus.headD .success).isError = false) :
    fvbWrite c st ptr data = ({ st with
          flash := programFlash c.flashDevice st.flash ptr data
          fvbStatus := st.fvbStatus.tail }, .success) := by
  rw [fvbWrite, eq_success h]
  rfl

variable {status : List EfiStatus}

theorem WritesSucceed.head {k : Nat} (h : WritesSucceed (1+k) status) :
    (status.headD .success).isError = false := by
  cases status with
  | nil => rfl
  | cons s status => exact h s (by rw [add_comm, take_succ_cons]; exact mem_cons_self)

theorem writesSucceed_add {j k : Nat} :
    WritesSucceed (j+k) status ↔ WritesSucceed j status ∧ WritesSucceed k (status.drop j) := by
  simp only [WritesSucceed, take_add, mem_append, or_imp, forall_and]

/-- Whatever the outcome, some first part of the data has been programmed; all of it exactly when
the status is success; and with every call successful as many statuses are used up. -/
theorem writeBlocks_outcome (hle : linearOffset ≤ ptr)
    (hcov : ptr+data.length ≤ linearOffset+blocks.sum)
    (hflash : ptr+data.length ≤ st.flash.length) (hdata : data ≠ []) : ∃ n k, n ≤ data.length ∧
      (writeBlocks c blocks linearOffset ptr data st).1 = { st with
          flash := programFlash c.flashDevice st.flash ptr (data.take n)
          fvbStatus := st.fvbStatus.drop k } ∧
      ((writeBlocks c blocks linearOffset ptr data st).2.isError = false ↔ n = data.length) ∧
      (WritesSucceed (fvbCalls blocks linearOffset ptr data.length) st.fvbStatus →
        n = data.length ∧ k = fvbCalls blocks linearOffset ptr data.length) := by
  have hpos : 0 < data.length := length_pos_of_ne_nil hdata
  induction blocks generalizing linearOffset ptr data st with
  | nil =>
    rw [sum_nil] at hcov
    omega
  | cons length blocks ih =>
    rw [sum_cons] at hcov
    rw [writeBlocks, fvbCalls]
    by_cases hin : linearOffset ≤ ptr ∧ ptr < linearOffset+length
    · rw [if_pos hin, if_pos hin]
      cases hs : (st.fvbStatus.headD .success).isError with
      | true =>
        have hwrite : ∀ d : Bytes, fvbWrite c st ptr d =
            ({ st with fvbStatus := st.fvbStatus.tail }, st.fvbStatus.headD .success) :=
          fun d => fvbWrite_of_error hs
        refine ⟨0, 1, Nat.zero_le _, ?_, ?_, fun hok => ?_⟩
        · rw [take_zero, programFlash_nil, drop_one]
          split
          · rw [hwrite]
          · simp only [andThen, hwrite, hs, if_true]
        · split
          · simp only [hwrite, hs, Bool.true_eq_false, false_iff]
            omega
          · simp only [andThen, hwrite, hs, if_true, Bool.true_eq_false, false_iff]
            omega
        · have hhead : (st.fvbStatus.headD .success).isError = false := by
            split at hok
            · exact hok.head (k := 0)
            · exact hok.head
          exact absurd (hs.symm.trans hhead) (by decide)
      | false =>
        by_cases hfit : ptr+data.length ≤ linearOffset+length
        · rw [if_pos hfit, if_pos hfit]
          refine ⟨data.length, 1, le_refl _, ?_, ?_, fun _ => ⟨rfl, rfl⟩⟩
          · rw [fvbWrite_of_success hs, take_length, drop_one]
          · rw [fvbWrite_of_success hs]
            exact iff_of_true rfl rfl
        rw [if_neg hfit, if_neg hfit, andThen, fvbWrite_of_success hs,
          show EfiStatus.isError .success = false from rfl, if_ff]
        have hsize : (data.take (linearOffset+length-ptr)).length = linearOffset+length-ptr := by
          rw [length_take]
          omega
        have hrest : (data.drop (linearOffset+length-ptr)).length =
            data.length - (linearOffset+length-ptr) := length_drop
        have hprog : (programFlash c.flashDevice st.flash ptr
            (data.take (linearOffset+length-ptr))).length = st.flash.length :=
          length_programFlash (by rw [hsize]; omega)
        obtain ⟨n,k,hn,hst,hok,hall⟩ := @ih (linearOffset+length) (linearOffset+length)
          (data.drop (linearOffset+length-ptr))
          { st with
            flash := programFlash c.flashDevice st.flash ptr (data.take (linearOffset+length-ptr))
            fvbStatus := st.fvbStatus.tail }
          (le_refl _) (by omega) (by simp only [hprog]; omega)
          (ne_nil_of_length_pos (by omega)) (by omega)
        refine ⟨linearOffset+length-ptr + n, 1+k, by omega, ?_, ?_, fun hcalls => ?_⟩
        · rw [hst, take_add, ← programFlash_append, hsize, ← drop_one, drop_drop]
          · have hptr : ptr + (linearOffset+length-ptr) = linearOffset+length := by omega
            rw [hptr]
          · rw [length_append, hsize, length_take, hrest]
            omega
        · rw [hok, hrest]
          omega
        · obtain ⟨hn',hk⟩ := hall (by rw [hrest, ← drop_one]; exact (writesSucceed_add.mp hcalls).2)
          rw [hn', hk, hrest]
          omega
    · rw [if_neg hin, if_neg hin]
      exact ih (by omega) (by omega) hflash hdata hpos

/-- With every call successful all of the data is programmed, and as many statuses are used up. -/
theorem writeBlocks_success (hle : linearOffset ≤ ptr)
    (hcov : ptr+data.length ≤ linearOffset+blocks.sum)
    (hflash : ptr+data.length ≤ st.flash.length) (hdata : data ≠ [])
    (hok : WritesSucceed (fvbCalls blocks linearOffset ptr data.length) st.fvbStatus) :
    writeBlocks c blocks linearOffset ptr data st = ({ st with
          flash := programFlash c.flashDevice st.flash ptr data
          fvbStatus := st.fvbStatus.drop (fvbCalls blocks linearOffset ptr data.length) }, .success) := by
  obtain ⟨n,k,-,hst,hstatus,hall⟩ := writeBlocks_outcome (c := c) hle hcov hflash hdata
  obtain ⟨rfl,rfl⟩ := hall hok
  refine Prod.ext (hst.trans ?_) (eq_success (hstatus.mpr rfl))
  rw [take_length]

end

end Liano.Variable
