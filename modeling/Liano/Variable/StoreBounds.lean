import Liano.Variable.SpaceCheck

/-! The bounds of the variable stores at boot time: every write of the driver stays behind the store
header and before the end that `UpdateVariableStore` checks, so that its status is a matter of space
alone when the flash does not fail. -/
namespace Liano.Variable

open List hiding max

open Bytes (slice patch)

theorem length_patch_le (b p : Bytes) (off : Nat) : (patch b off p).length ≤ max b.length (off+p.length) := by
  unfold Bytes.patch
  simp only [length_append, length_take, length_drop]
  omega

theorem le_length_patch (b p : Bytes) (off : Nat) : b.length ≤ (patch b off p).length := by
  unfold Bytes.patch
  simp only [length_append, length_take, length_drop]
  omega

theorem take_patch {b : Bytes} (p : Bytes) {off n : Nat} (hoff : n ≤ off) (hb : n ≤ b.length) :
    (patch b off p).take n = b.take n := by
  have hlen : n ≤ (b.take off).length := by
    rw [length_take]
    omega
  unfold Bytes.patch
  rw [append_assoc, take_append_of_le_length hlen, take_take, min_eq_left hoff]

theorem storeSize_take (b : Bytes) : storeSize (b.take variableStoreHeaderSize) = storeSize b := by
  unfold storeSize uintAt Bytes.slice variableStoreHeaderSize
  rw [drop_take, take_take]
  rfl

section
variable {b b' : Bytes} (h : b'.take variableStoreHeaderSize = b.take variableStoreHeaderSize)
include h

theorem storeSize_of_take : storeSize b' = storeSize b := by rw [← storeSize_take b', h, storeSize_take]

theorem length_of_take (hb : variableStoreHeaderSize ≤ b.length) : variableStoreHeaderSize ≤ b'.length := by
  have hlen := congrArg length h
  rw [length_take, length_take] at hlen
  omega

end

structure InMemory (b : Bytes) : Prop where
  header : variableStoreHeaderSize ≤ b.length
  length : b.length ≤ storeSize b

theorem InMemory.patch {b p : Bytes} {off : Nat} (h : InMemory b)
    (hoff : variableStoreHeaderSize ≤ off) (hend : off+p.length ≤ storeSize b) :
    InMemory (patch b off p) := by
  have htake := take_patch p hoff h.header
  refine ⟨length_of_take htake h.header, ?_⟩
  rw [storeSize_of_take htake]
  have hle := length_patch_le b p off
  have hlen := h.length
  omega

/-- The store in flash has a header and ends in the firmware volume, as its cache does. -/
structure InVolume (c : VariableConfig) (flash nvVariableCache : Bytes) : Prop where
  header : c.nonVolatileVariableBase+variableStoreHeaderSize ≤ flash.length
  size : variableStoreHeaderSize ≤ storeSize (flash.drop c.nonVolatileVariableBase)
  volume : c.nonVolatileVariableBase + storeSize (flash.drop c.nonVolatileVariableBase) ≤ c.fvLength
  cache : c.nonVolatileVariableBase+nvVariableCache.length ≤ c.fvLength

theorem InVolume.program {c : VariableConfig} {flash cache : Bytes} (h : InVolume c flash cache)
    {ptr : Nat} (hptr : c.nonVolatileVariableBase+variableStoreHeaderSize ≤ ptr) (data : Bytes) :
    InVolume c (programFlash c.flashDevice flash ptr data) cache := by
  unfold programFlash
  generalize zipWith c.flashDevice.program _ data = d
  have hhdr := h.header
  have htake : ((patch flash ptr d).drop c.nonVolatileVariableBase).take variableStoreHeaderSize =
      (flash.drop c.nonVolatileVariableBase).take variableStoreHeaderSize := by
    have hall := take_patch d hptr h.header
    have hdrop := congrArg (drop c.nonVolatileVariableBase) hall
    rw [drop_take, drop_take, Nat.add_sub_cancel_left] at hdrop
    exact hdrop
  have hsize := storeSize_of_take htake
  refine ⟨le_trans h.header (le_length_patch _ _ _), ?_, ?_, h.cache⟩
  · rw [hsize]
    exact h.size
  · rw [hsize]
    exact h.volume

/-- The end that `UpdateVariableStore` checks, as an offset from the base of the store. -/
def storeEnd (c : VariableConfig) (st : VariableState) (volatile : Bool) : Nat :=
  if volatile then storeSize st.memory.volatileStore else c.fvLength-c.nonVolatileVariableBase

/-- At boot time, with the flash there, its writes not failing and no fault tolerant one torn, the stores lie
in their bounds and the last variables end behind the store headers. -/
structure WithinBounds (c : VariableConfig) (st : VariableState) : Prop where
  boot : st.atRuntime = false
  notEmulated : c.emuNvMode = false
  available : st.fvbInstance = true
  writes : (∀ status ∈ st.fvbStatus, status = .success) ∧ ∀ flash, .torn flash ∉ st.ftwLeft
  volatileStore : InMemory st.memory.volatileStore
  volume : InVolume c st.flash st.memory.nvVariableCache
  nvOffset : variableStoreHeaderSize ≤ st.nonVolatileLastVariableOffset
  volatileOffset : variableStoreHeaderSize ≤ st.volatileLastVariableOffset

/-- The bounds are kept, and with them the ends of the stores; the stores do not get shorter. -/
structure KeepsBounds (c : VariableConfig) (st st' : VariableState) : Prop where
  bounds : WithinBounds c st'
  storeEnd : ∀ volatile, storeEnd c st' volatile = storeEnd c st volatile
  nvLength : st.memory.nvVariableCache.length ≤ st'.memory.nvVariableCache.length
  volatileLength : st.memory.volatileStore.length ≤ st'.memory.volatileStore.length

section
variable {c : VariableConfig} {st st' st'' : VariableState}

theorem WithinBounds.keeps (h : WithinBounds c st) : KeepsBounds c st st :=
  ⟨h, fun _ => rfl, le_rfl, le_rfl⟩

theorem KeepsBounds.trans (h : KeepsBounds c st st') (h' : KeepsBounds c st' st'') : KeepsBounds c st st'' :=
  ⟨h'.bounds, fun v => (h'.storeEnd v).trans (h.storeEnd v), h.nvLength.trans h'.nvLength,
    h.volatileLength.trans h'.volatileLength⟩

section
variable (h : WithinBounds c st)
include h

theorem WithinBounds.nvLength : st.memory.nvVariableCache.length ≤ storeEnd c st false := by
  have hcache := h.volume.cache
  unfold storeEnd
  rw [if_ff]
  omega

section
variable {off : Nat} {data : Bytes} (hoff : variableStoreHeaderSize ≤ off)
include hoff

omit hoff in
theorem WithinBounds.patchCache (hend : off+data.length ≤ storeEnd c st false) :
    KeepsBounds c st (st.setStore .nv (patch st.memory.nvVariableCache off data)) := by
  have hle := length_patch_le st.memory.nvVariableCache data off
  have hlen := h.nvLength
  obtain ⟨hheader,hsize,hvolume,hcache⟩ := h.volume
  refine ⟨⟨h.boot, h.notEmulated, h.available, h.writes, h.volatileStore,
    ⟨hheader, hsize, hvolume, ?_⟩, h.nvOffset, h.volatileOffset⟩, fun _ => rfl, le_length_patch _ _ _, le_rfl⟩
  rw [storeEnd, if_ff] at hend hlen
  change c.nonVolatileVariableBase + (patch st.memory.nvVariableCache off data).length ≤ _
  omega

theorem WithinBounds.patchVolatile (hend : off+data.length ≤ storeEnd c st true) :
    KeepsBounds c st (st.setStore .volatile (patch st.memory.volatileStore off data)) := by
  have hsize : storeSize (patch st.memory.volatileStore off data) = storeSize st.memory.volatileStore :=
    storeSize_of_take (take_patch data hoff h.volatileStore.header)
  refine ⟨⟨h.boot, h.notEmulated, h.available, h.writes, h.volatileStore.patch hoff hend, h.volume,
    h.nvOffset, h.volatileOffset⟩, fun v => ?_, le_rfl, le_length_patch _ _ _⟩
  cases v with
  | true => exact hsize
  | false => rfl

end

theorem writeBlocks_bounds {blocks : List Nat} {linearOffset ptr : Nat} {data : Bytes}
    (hptr : c.nonVolatileVariableBase+variableStoreHeaderSize ≤ ptr) :
    (writeBlocks c blocks linearOffset ptr data st).2 = .success ∧
      KeepsBounds c st (writeBlocks c blocks linearOffset ptr data st).1 := by
  have hwrite : ∀ (st : VariableState) (ptr : Nat) (d : Bytes), WithinBounds c st →
      c.nonVolatileVariableBase+variableStoreHeaderSize ≤ ptr →
      (fvbWrite c st ptr d).2 = .success ∧ KeepsBounds c st (fvbWrite c st ptr d).1 := by
    intro st ptr d h hptr
    have hst : st.fvbStatus.headD .success = .success := by
      cases hs : st.fvbStatus with
      | nil => rfl
      | cons s _ => exact h.writes.1 s (by rw [hs]; exact mem_cons_self)
    have hnot : ¬ EfiStatus.success.isError = true := by decide
    unfold fvbWrite
    rw [hst]
    dsimp only
    rw [if_neg hnot]
    refine ⟨rfl, ⟨⟨h.boot, h.notEmulated, h.available, ⟨fun s hs => h.writes.1 s (mem_of_mem_tail hs), h.writes.2⟩,
      h.volatileStore, h.volume.program hptr d, h.nvOffset, h.volatileOffset⟩, fun _ => rfl, le_rfl, le_rfl⟩⟩
  induction blocks generalizing linearOffset ptr data st with
  | nil => exact ⟨rfl, h.keeps⟩
  | cons length blocks ih =>
    rw [writeBlocks]
    split
    · rename_i hin
      split
      · exact hwrite st ptr data h hptr
      obtain ⟨hok,hkeep⟩ := hwrite st ptr
        (data.take (linearOffset+length-ptr)) h hptr
      unfold andThen
      rw [if_neg (by rw [hok]; decide)]
      obtain ⟨hok',hkeeps'⟩ := @ih (fvbWrite c st ptr
        (data.take (linearOffset+length-ptr))).1 hkeep.bounds (linearOffset+length)
        (linearOffset+length) (data.drop (linearOffset+length-ptr)) (by omega)
      exact ⟨hok', hkeep.trans hkeeps'⟩
    · exact ih h hptr

theorem updateVariableStore_bounds (volatile : Bool) {off : Nat}
    (data : Bytes) (hoff : variableStoreHeaderSize ≤ off) : (updateVariableStore c st volatile off data).2 =
        (if off+data.length > storeEnd c st volatile then .outOfResources else .success) ∧
      KeepsBounds c st (updateVariableStore c st volatile off data).1 := by
  unfold updateVariableStore
  rw [h.notEmulated, Bool.not_false, Bool.and_true]
  cases volatile with
  | true =>
    rw [if_neg (by decide)]
    simp only [if_true]
    show (_ = if off+data.length > storeSize (st.memory.source .volatile) then _ else _) ∧ _
    split
    · exact ⟨rfl, h.keeps⟩
    · rename_i hshort
      exact ⟨rfl, h.patchVolatile hoff (Nat.le_of_not_lt hshort)⟩
  | false =>
    have hvolume := h.volume.volume
    rw [if_pos (by decide), h.available, if_neg (by decide), storeEnd, if_ff]
    by_cases hlong : off+c.nonVolatileVariableBase+data.length > c.fvLength
    · rw [if_pos hlong, if_pos (by omega)]
      exact ⟨rfl, h.keeps⟩
    · rw [if_neg hlong, if_neg (by omega)]
      exact writeBlocks_bounds h (by omega)

end

end

end Liano.Variable
