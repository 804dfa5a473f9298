import Liano.Efi
import Liano.Lib.Bytes

/-! The writes that `UpdateVariableStore` makes in the blocks of a firmware volume, at the addresses that it computes. -/
namespace Liano.Variable.Fvb
open List

/-- A call of `Fvb->Write`. -/
structure FvbCall where
  lba : Nat
  offset : Nat
  data : Bytes
deriving DecidableEq

structure FirmwareVolume where
  /-- `FvVolHdr` and the `FvLength` of its header. -/
  fvVolHdr : Nat
  fvLength : Nat
  blockMap : List (Nat × Nat)
  nonVolatileVariableBase : Nat

/-- The blocks of the runs before the one with no blocks. -/
def FirmwareVolume.lengths (fv : FirmwareVolume) : List Nat :=
  (fv.blockMap.takeWhile fun run => run.1 != 0).flatMap fun run => replicate run.1 run.2

/-- The loops over the blocks from `lbaNumber` on; `write n` is the status of the n-th call. -/
def writeFragments (write : Nat → EfiStatus) :
    List Nat → Nat → Nat → Nat → Nat → Bytes → EfiStatus × List FvbCall
  | [], _, _, _, _, _ => (.success, [])
  | length :: blocks, n, lbaNumber, linearOffset, currWritePtr, currBuffer =>
    let behind := toUint64 (linearOffset+length)
    if linearOffset ≤ currWritePtr ∧ currWritePtr < behind then
      if toUint64 (currWritePtr+currBuffer.length) ≤ behind then
        (write n, [⟨lbaNumber, currWritePtr-linearOffset, currBuffer⟩])
      else
        let size := toUint32 (behind-currWritePtr)
        let call : FvbCall := ⟨lbaNumber, currWritePtr-linearOffset, currBuffer.take size⟩
        if (write n).isError then (write n, [call])
        else
          let r := writeFragments write blocks (n+1) (lbaNumber+1) behind behind (currBuffer.drop size)
          (r.1, call :: r.2)
    else writeFragments write blocks n (lbaNumber+1) behind currWritePtr currBuffer

def FirmwareVolume.dataPtr (fv : FirmwareVolume) (setByIndex : Bool) (dataPtrIndex : Nat) : Nat :=
  if setByIndex then toUint64 (dataPtrIndex+fv.nonVolatileVariableBase) else dataPtrIndex

/-- The branch for a non-volatile variable that is not emulated. -/
def updateVariableStore (fv : FirmwareVolume) (write : Nat → EfiStatus) (setByIndex : Bool) (dataPtrIndex : Nat)
    (buffer : Bytes) : EfiStatus × List FvbCall :=
  let dataPtr := fv.dataPtr setByIndex dataPtrIndex
  if toUint64 (dataPtr+buffer.length) > toUint64 (fv.fvVolHdr+fv.fvLength) then (.outOfResources, [])
  else if dataPtr < fv.fvVolHdr then (.invalidParameter, [])
  else writeFragments write fv.lengths 0 0 fv.fvVolHdr dataPtr buffer

/-- The calls write the data from `ptr` on, one behind the other, each in a block of the volume at `base`. -/
def Covers (base : Nat) (lengths : List Nat) : Nat → List FvbCall → Bytes → Prop
  | _, [], data => data = []
  | ptr, call :: calls, data =>
    base + (lengths.take call.lba).sum + call.offset = ptr ∧
      (∃ length, lengths[call.lba]? = some length ∧ call.offset+call.data.length ≤ length) ∧
      ∃ rest, data = call.data ++ rest ∧ Covers base lengths (ptr+call.data.length) calls rest

/-- The data is written to its place in the volume. With no data, no call writes any. -/
def WritesExactly (base : Nat) (lengths : List Nat) (ptr : Nat) (calls : List FvbCall) (data : Bytes) : Prop :=
  data = [] ∧ (∀ call ∈ calls, call.data = []) ∨ data ≠ [] ∧ Covers base lengths ptr calls data

/-- The range lies in blocks that end inside the address space. -/
def InBlocks (base : Nat) (lengths : List Nat) (stop : Nat) : Prop :=
  ∃ k, stop ≤ base + (lengths.take k).sum ∧ base + (lengths.take k).sum < 2^64

section
variable {write : Nat → EfiStatus} {blocks pre : List Nat} {base ptr n : Nat} {data : Bytes}

theorem writeFragments_empty (linearOffset lbaNumber : Nat) :
    ∀ call ∈ (writeFragments write blocks n lbaNumber linearOffset ptr []).2, call.data = [] := by
  induction blocks generalizing n lbaNumber linearOffset ptr with
  | nil =>
    intro call hcall
    cases hcall
  | cons length blocks ih =>
    unfold writeFragments
    dsimp only
    split
    · split
      · intro call hcall
        rw [mem_singleton.mp hcall]
      rename_i hin hlate
      unfold toUint64 at hlate hin
      simp only [length_nil] at hlate
      omega
    · exact ih _ _

/-- A block that is written to ends inside the address space. -/
theorem end_of_inside {linearOffset length : Nat} (hlen : length < 2^32) (hin : linearOffset ≤ ptr)
    (hlt : ptr < toUint64 (linearOffset+length)) (hoff : linearOffset < 2^64) :
    toUint64 (linearOffset+length) = linearOffset+length ∧ linearOffset+length < 2^64 := by
  unfold toUint64 at *
  omega

theorem getElem?_behind (pre blocks : List Nat) (length : Nat) :
    (pre ++ length :: blocks)[pre.length]? = some length ∧
      ((pre ++ length :: blocks).take pre.length).sum = pre.sum := by
  simp

/-- By induction on the blocks: those before the first byte are passed over, and each behind it takes its part. -/
theorem covers_of_inBlocks (hwrite : ∀ n, (write n).isError = false) (hlens : ∀ length ∈ blocks, length < 2^32)
    (hlow : base+pre.sum ≤ ptr) (hdata : data ≠ []) {k : Nat}
    (hk : ptr+data.length ≤ base+pre.sum + (blocks.take k).sum)
    (hend : base+pre.sum + (blocks.take k).sum < 2^64) :
    Covers base (pre ++ blocks) ptr (writeFragments write blocks n pre.length (base+pre.sum) ptr data).2 data := by
  have hpos := length_pos_iff.mpr hdata
  induction blocks generalizing pre n ptr data k with
  | nil =>
    rw [take_nil, sum_nil] at hk
    omega
  | cons length blocks ih =>
    cases k with
    | zero =>
      rw [take_zero, sum_nil] at hk
      omega
    | succ k =>
      rw [take_succ_cons, sum_cons] at hk hend
      obtain ⟨hblock,hstart⟩ := getElem?_behind pre blocks length
      obtain ⟨hlen,hlens'⟩ := forall_mem_cons.mp hlens
      have hpre : (pre ++ [length]).sum = pre.sum+length := by simp
      have hnext := @ih (pre ++ [length])
      simp only [append_assoc, singleton_append, length_append, length_singleton, hpre,
        ← add_assoc] at hnext
      have hbehind : toUint64 (base+pre.sum+length) = base+pre.sum+length := Nat.mod_eq_of_lt (by omega)
      have hstop : toUint64 (ptr+data.length) = ptr+data.length := Nat.mod_eq_of_lt (by omega)
      have hplace : base + ((pre ++ length :: blocks).take pre.length).sum + (ptr - (base+pre.sum)) = ptr := by omega
      unfold writeFragments
      dsimp only
      rw [hbehind, hstop]
      split
      · rename_i hin
        split
        · refine ⟨hplace, ⟨length, hblock, ?_⟩, [], (append_nil _).symm, rfl⟩
          dsimp only
          omega
        have hsize : toUint32 (base+pre.sum+length-ptr) = base+pre.sum+length-ptr :=
          Nat.mod_eq_of_lt (by omega)
        have htake : (data.take (base+pre.sum+length-ptr)).length = base+pre.sum+length-ptr := by
          rw [length_take]
          omega
        rw [hwrite, if_neg Bool.false_ne_true, hsize]
        refine ⟨hplace, ⟨length, hblock, ?_⟩, _, (take_append_drop _ _).symm, ?_⟩
        · dsimp only
          omega
        · dsimp only
          rw [htake, Nat.add_sub_cancel' (le_of_lt hin.2)]
          have hleft : 0 < (data.drop (base+pre.sum+length-ptr)).length := by
            rw [length_drop]
            omega
          refine hnext (k := k) hlens' le_rfl (length_pos_iff.mp hleft) ?_ (by omega) hleft
          rw [length_drop]
          omega
      · exact hnext (k := k) hlens' (by omega) hdata (by omega) (by omega) hpos

/-- A call at its place is in a block that ends inside the address space. -/
theorem inBlocks_of_covers (hwrite : ∀ n, (write n).isError = false)
    (hlens : ∀ length ∈ blocks, length < 2^32) (hdata : data ≠ []) (h : Covers base (pre ++ blocks) ptr
      (writeFragments write blocks n pre.length (toUint64 (base+pre.sum)) ptr data).2 data) :
    ∃ k, ptr+data.length ≤ base+pre.sum + (blocks.take k).sum ∧
      base+pre.sum + (blocks.take k).sum < 2^64 := by
  induction blocks generalizing pre n ptr data with
  | nil => exact absurd h hdata
  | cons length blocks ih =>
    obtain ⟨hblock,hstart⟩ := getElem?_behind pre blocks length
    obtain ⟨hlen,hlens'⟩ := forall_mem_cons.mp hlens
    have hpre : (pre ++ [length]).sum = pre.sum+length := by simp
    have hwrap : toUint64 (toUint64 (base+pre.sum) + length) = toUint64 (base + (pre.sum+length)) := by
      unfold toUint64
      omega
    have hnext := @ih (pre ++ [length])
    simp only [append_assoc, singleton_append, length_append, length_singleton, hpre] at hnext
    have hstep : ∀ {ptr n data}, data ≠ [] → Covers base (pre ++ length :: blocks) ptr (writeFragments write blocks n
          (pre.length+1) (toUint64 (base + (pre.sum+length))) ptr data).2 data →
        ∃ k, ptr+data.length ≤ base+pre.sum + ((length :: blocks).take k).sum ∧
          base+pre.sum + ((length :: blocks).take k).sum < 2^64 := by
      intro ptr n data hdata h
      obtain ⟨k,hk,hend⟩ := hnext hlens' hdata h
      refine ⟨k+1, ?_, ?_⟩ <;> rw [take_succ_cons, sum_cons] <;> omega
    unfold writeFragments at h
    dsimp only at h
    split at h
    · rename_i hin
      obtain ⟨hbehind,hend⟩ := end_of_inside hlen hin.1 hin.2 (Nat.mod_lt _ (by decide))
      have hle : toUint64 (base+pre.sum) ≤ base+pre.sum := Nat.mod_le _ _
      split at h
      · obtain ⟨hplace,⟨l,hl,hfits⟩,-⟩ := h
        dsimp only at hplace hfits hl
        rw [hstart] at hplace
        obtain rfl := Option.some.inj (hblock.symm.trans hl)
        refine ⟨1, ?_, ?_⟩ <;> rw [take_succ_cons, take_zero, sum_singleton] <;> omega
      rename_i hlate
      have hsize : toUint32 (toUint64 (toUint64 (base+pre.sum) + length) - ptr) =
          toUint64 (base+pre.sum) + length - ptr := by
        rw [hbehind]
        exact Nat.mod_eq_of_lt (by omega)
      rw [hwrite, if_neg Bool.false_ne_true, hsize] at h
      obtain ⟨hplace,-,rest,hrest,h⟩ := h
      dsimp only at hplace hrest h
      rw [hstart] at hplace
      have hlong : toUint64 (base+pre.sum) + length - ptr < data.length := by
        by_contra hnot
        refine hlate (le_trans (Nat.mod_le _ _) ?_)
        omega
      obtain rfl := append_cancel_left ((take_append_drop _ data).trans hrest)
      have htake : (data.take (toUint64 (base+pre.sum) + length - ptr)).length =
          toUint64 (base+pre.sum) + length - ptr := by
        rw [length_take]
        omega
      have hnext' : ptr + (toUint64 (base+pre.sum) + length - ptr) = toUint64 (base + (pre.sum+length)) := by
        rw [← hwrap, hbehind]
        omega
      rw [htake, hnext', hwrap] at h
      have hdrop : data.drop (toUint64 (base+pre.sum) + length - ptr) ≠ [] := by
        rw [← length_pos_iff, length_drop]
        omega
      obtain ⟨k,hk,hstop⟩ := hstep hdrop h
      rw [length_drop] at hk
      exact ⟨k, by omega, hstop⟩
    · rw [hwrap] at h
      exact hstep hdata h

/-- The lengths of a block map are of 32 bits. -/
theorem lengths_lt {fv : FirmwareVolume} (h : ∀ run ∈ fv.blockMap, run.2 < 2^32) :
    ∀ length ∈ fv.lengths, length < 2^32 := by
  intro length hlen
  obtain ⟨run,hrun,hmem⟩ := mem_flatMap.mp hlen
  rw [eq_of_mem_replicate hmem]
  exact h run ((takeWhile_sublist _).subset hrun)

/-- Where the bounds check admits the target and no write fails, the data goes to its place if and only if there is
none or its range lies in the blocks. -/
theorem updateVariableStore_exact_iff {fv : FirmwareVolume} {setByIndex : Bool} {dataPtrIndex : Nat} {buffer : Bytes}
    (hmap : ∀ run ∈ fv.blockMap, run.2 < 2^32) (hbase : fv.fvVolHdr < 2^64)
    (hwrite : ∀ n, (write n).isError = false)
    (hadmits : toUint64 (fv.dataPtr setByIndex dataPtrIndex + buffer.length) ≤ toUint64 (fv.fvVolHdr+fv.fvLength) ∧
      fv.fvVolHdr ≤ fv.dataPtr setByIndex dataPtrIndex) :
    WritesExactly fv.fvVolHdr fv.lengths (fv.dataPtr setByIndex dataPtrIndex)
        (updateVariableStore fv write setByIndex dataPtrIndex buffer).2 buffer ↔
      buffer = [] ∨ InBlocks fv.fvVolHdr fv.lengths (fv.dataPtr setByIndex dataPtrIndex + buffer.length) := by
  have hrun : updateVariableStore fv write setByIndex dataPtrIndex buffer =
      writeFragments write fv.lengths 0 0 fv.fvVolHdr (fv.dataPtr setByIndex dataPtrIndex) buffer := by
    unfold updateVariableStore
    rw [if_neg (not_lt.mpr hadmits.1), if_neg (not_lt.mpr hadmits.2)]
  have hlens := lengths_lt hmap
  rw [hrun]
  unfold WritesExactly
  by_cases hdata : buffer = []
  · subst hdata
    exact iff_of_true (.inl ⟨rfl, writeFragments_empty _ _⟩) (.inl rfl)
  · rw [or_iff_right (fun h => hdata h.1), or_iff_right hdata, and_iff_right hdata]
    constructor
    · intro h
      have hstart : toUint64 (fv.fvVolHdr + ([] : List Nat).sum) = fv.fvVolHdr := Nat.mod_eq_of_lt hbase
      have hin := @inBlocks_of_covers write fv.lengths [] fv.fvVolHdr (fv.dataPtr setByIndex dataPtrIndex) 0 buffer
        hwrite hlens hdata
      rw [hstart] at hin
      exact hin h
    · rintro ⟨k,hk,hend⟩
      exact @covers_of_inBlocks write fv.lengths [] _ _ 0 buffer hwrite hlens hadmits.2 hdata k hk hend

end

/-- One block of 0x1000 bytes, in a volume whose header says 0x2000. -/
def oneBlock : FirmwareVolume := ⟨0x100000, 0x2000, [(1,0x1000), (0,0)], 0x100000⟩

/-- The bounds check admits the range, in which no sum wraps, and success is returned with nothing written. -/
theorem updateVariableStore_drops :
    ¬ ∀ (fv : FirmwareVolume) (dataPtr : Nat) (buffer : Bytes), fv.fvVolHdr+fv.fvLength < 2^64 →
      dataPtr+buffer.length < 2^64 → (updateVariableStore fv (fun _ => .success) false dataPtr buffer).1 = .success →
      WritesExactly fv.fvVolHdr fv.lengths dataPtr (updateVariableStore fv (fun _ => .success) false dataPtr buffer).2
        buffer := by
  intro hclaim
  rcases hclaim oneBlock 0x101800 [0, 0] (by decide) (by decide) (by decide) with h | h
  · cases h.1
  · cases h.2

theorem updateVariableStore_exact_iff_across : WritesExactly 0x100000 [8, 8] 0x100006
    (updateVariableStore ⟨0x100000, 16, [(2,8), (0,0)], 0x100000⟩ (fun _ => .success) true 6 [1, 2, 3, 4]).2 [1, 2, 3, 4] :=
  (updateVariableStore_exact_iff (by decide) (by decide) (fun _ => rfl) (by decide)).mpr (.inr ⟨2, by decide, by decide⟩)

end Liano.Variable.Fvb
