import Liano.Variable.StoreBounds

/-! The bounds of the stores under `Reclaim`, `RecordVarErrorFlag` and the changes of an entry's
state. The status of `Reclaim` is the one of the synchronization at its end: the
`EFI_OUT_OF_RESOURCES` of a new variable that exceeds a quota does not pass the label `Done`. -/
namespace Liano.Variable

open List

open Bytes (slice patch)

theorem le_of_mem_headersFrom {auth : Bool} {b : Bytes} {endPtr fuel p q : Nat}
    (h : q ∈ headersFrom auth b endPtr fuel p) : p ≤ q := by
  induction fuel generalizing p with
  | zero => cases h
  | succ fuel ih =>
    rw [headersFrom] at h
    split at h
    · rcases mem_cons.mp h with rfl | h
      · exact le_rfl
      · exact (le_of_lt (lt_getNextVariablePtr auth b p)).trans (ih h)
    · cases h

theorem le_walkEndFrom (auth : Bool) (b : Bytes) (endPtr fuel p : Nat) :
    p ≤ walkEndFrom auth b endPtr fuel p := by
  induction fuel generalizing p with
  | zero => exact le_rfl
  | succ fuel ih =>
    rw [walkEndFrom]
    split
    · exact (le_of_lt (lt_getNextVariablePtr auth b p)).trans (ih _)
    · exact le_rfl

structure PointsInto (b : Bytes) (p : Nat) : Prop where
  header : variableStoreHeaderSize ≤ p
  state : p+offsetOfState < b.length

theorem find_pointsInto (auth atRuntime ign : Bool) (name guid b : Bytes) :
    (∀ p, (findVariableEx auth atRuntime name guid ign b).1.currPtr = some p → PointsInto b p) ∧
      ∀ q, (findVariableEx auth atRuntime name guid ign b).1.inDeletedTransitionPtr =
        some q → PointsInto b q := by
  refine findVariableLoop_pointers (fun q hq => by cases hq) fun p hp hm => ⟨?_, ?_⟩
  · exact le_of_mem_headersFrom hp
  · rw [Bool.and_eq_true, isAccessible, Bool.and_eq_true] at hm
    by_contra hlong
    have hst : state b p = 0 := by
      unfold state
      rw [getD_eq_getElem?_getD, getElem?_eq_none (Nat.le_of_not_lt hlong)]
      rfl
    have hused := hm.1.1
    rw [isAdded, isInDeletedTransition, hst] at hused
    exact absurd hused (by decide)

section
variable {c : VariableConfig} {st st' : VariableState}

theorem synchronize_status (st : VariableState) (id : CacheId) (n : Nat) :
    (synchronize st id n).2 ≠ .outOfResources := by
  have hflush : ∀ m, (flushPendingRuntimeVariableCacheUpdates m).2 ≠ .outOfResources := by
    intro m
    unfold flushPendingRuntimeVariableCacheUpdates
    split
    · split
      · exact nofun
      · exact nofun
    · exact nofun
  unfold synchronize synchronizeRuntimeVariableCache
  dsimp only
  split
  · exact nofun
  split
  · split
    · exact hflush _
    · exact nofun
  · exact nofun

theorem WithinBounds.synchronize (h : WithinBounds c st) (id : CacheId) (n : Nat) :
    KeepsBounds c st (synchronize st id n).1 := by
  obtain ⟨ctx,hctx⟩ := synchronize_eq st id n
  rw [hctx]
  exact ⟨⟨h.boot, h.notEmulated, h.available, h.writes, h.volatileStore, h.volume, h.nvOffset,
    h.volatileOffset⟩, fun _ => rfl, le_rfl, le_rfl⟩

theorem updateState_bounds (h : WithinBounds c st) {t : VariableStoreType} (ht : t ≠ .hob) {p : Nat}
    (hp : PointsInto (cacheStore st t) p) (mask : UInt8) : (updateState c st t p mask).2 = .success ∧
      KeepsBounds c st (updateState c st t p mask).1 := by
  have hoff : variableStoreHeaderSize ≤ p+offsetOfState := hp.header.trans (Nat.le_add_right _ _)
  have hst := hp.state
  unfold updateState
  cases t with
  | hob => exact absurd rfl ht
  | volatile =>
    have hend : ¬ p + offsetOfState + [state (cacheStore st .volatile) p &&& mask].length >
        storeEnd c st true := by
      have hlen := h.volatileStore.length
      change p + offsetOfState < st.memory.volatileStore.length at hst
      change ¬ _ > storeSize st.memory.volatileStore
      rw [length_singleton]
      omega
    obtain ⟨hok,hkeep⟩ := updateVariableStore_bounds h true
      [state (cacheStore st .volatile) p &&& mask] hoff
    rw [if_neg hend] at hok
    rw [if_pos (by simp)]
    exact ⟨hok, hkeep⟩
  | nv =>
    have hend : ¬ p + offsetOfState + [state (cacheStore st .nv) p &&& mask].length >
        storeEnd c st false := by
      have hlen := h.nvLength
      change p + offsetOfState < st.memory.nvVariableCache.length at hst
      rw [length_singleton]
      omega
    obtain ⟨hok,hkeep⟩ := updateVariableStore_bounds h false
      [state (cacheStore st .nv) p &&& mask] hoff
    rw [if_neg hend] at hok
    have hnv : (VariableStoreType.nv == VariableStoreType.volatile) = false := rfl
    rw [hnv]
    dsimp only
    rw [hok, if_neg (by decide)]
    refine ⟨rfl, hkeep.trans (hkeep.bounds.patchCache ?_)⟩
    rw [hkeep.storeEnd]
    exact Nat.le_of_not_lt hend

/-- The pointers of a call lead into their store, which is not the variable HOB. -/
structure TrackInBounds (st : VariableState) (cacheVariable : CacheVariable) : Prop where
  notHob : cacheVariable.storeType ≠ .hob
  currPtr : ∀ p, cacheVariable.track.currPtr = some p → PointsInto (cacheStore st cacheVariable.storeType) p
  inDeletedTransitionPtr : ∀ q, cacheVariable.track.inDeletedTransitionPtr = some q →
    PointsInto (cacheStore st cacheVariable.storeType) q

variable {cacheVariable : CacheVariable} {newVariable : Bytes}

theorem TrackInBounds.of_keeps (h : TrackInBounds st cacheVariable)
    (hk : KeepsBounds c st st') : TrackInBounds st' cacheVariable := by
  have hlen : (cacheStore st cacheVariable.storeType).length ≤
      (cacheStore st' cacheVariable.storeType).length := by
    cases ht : cacheVariable.storeType with
    | volatile => exact hk.volatileLength
    | nv => exact hk.nvLength
    | hob => exact absurd ht h.notHob
  exact ⟨h.notHob, fun p hp => ⟨(h.currPtr p hp).header, (h.currPtr p hp).state.trans_le hlen⟩,
    fun q hq => ⟨(h.inDeletedTransitionPtr q hq).header, (h.inDeletedTransitionPtr q hq).state.trans_le hlen⟩⟩

theorem deleteOld_bounds (h : WithinBounds c st) (hcv : TrackInBounds st cacheVariable) :
    (deleteOld c cacheVariable st).2 = .success ∧ KeepsBounds c st (deleteOld c cacheVariable st).1 := by
  unfold deleteOld
  cases hp : cacheVariable.track.currPtr with
  | none => exact ⟨rfl, h.keeps⟩
  | some p =>
    dsimp only
    cases hq : cacheVariable.track.inDeletedTransitionPtr with
    | none => exact updateState_bounds h hcv.notHob (hcv.currPtr p hp) _
    | some q =>
      obtain ⟨hok,hkeep⟩ := updateState_bounds h hcv.notHob (hcv.inDeletedTransitionPtr q hq) varDeleted
      obtain ⟨hok',hkeeps'⟩ := updateState_bounds hkeep.bounds hcv.notHob
        ((hcv.of_keeps hkeep).currPtr p hp) varDeleted
      unfold andThen
      rw [if_neg (by rw [hok]; decide)]
      exact ⟨hok', hkeep.trans hkeeps'⟩

theorem recordVarErrorFlag_bounds (h : WithinBounds c st) (flag : UInt8) :
    WithinBounds c (recordVarErrorFlag c st flag) := by
  unfold recordVarErrorFlag
  split
  · exact ⟨h.boot, h.notEmulated, h.available, h.writes, h.volatileStore, h.volume, h.nvOffset, h.volatileOffset⟩
  split
  · rename_i p _ hfind
    obtain ⟨b,hb,htrack,-⟩ := findInStores_some hfind
    have hhdr : variableStoreHeaderSize ≤ p := ((find_pointsInto _ _ _ _ _ b).1 p (by rw [← htrack])).header
    dsimp only
    have hoff : variableStoreHeaderSize ≤ getVariableDataPtr c.authFormat st.memory.nvVariableCache p := by
      unfold getVariableDataPtr getVariableNamePtr
      omega
    generalize getVariableDataPtr c.authFormat st.memory.nvVariableCache p = off at hoff ⊢
    split
    · exact h
    obtain ⟨hok,hkeep⟩ := updateVariableStore_bounds h false
      [st.memory.nvVariableCache.getD off 0 &&& flag] hoff
    split
    · exact hkeep.bounds
    rename_i hsuccess
    rw [hok] at hsuccess
    have hend : off + [st.memory.nvVariableCache.getD off 0 &&& flag].length ≤ storeEnd c st false := by
      by_contra hlong
      rw [if_pos (Nat.lt_of_not_le hlong)] at hsuccess
      exact hsuccess rfl
    rw [← hkeep.storeEnd] at hend
    exact ((hkeep.bounds.patchCache hend).bounds.synchronize _ _).bounds
  · exact h

theorem recordNoSpace_bounds (h : WithinBounds c st) (req : UpdateRequest) (v : Bytes)
    (systemSpace : Nat) : WithinBounds c (recordNoSpace c req v systemSpace st) := by
  have hflag : ∀ (b : Prop) [Decidable b] (flag : UInt8) (st : VariableState), WithinBounds c st →
      WithinBounds c (if b then recordVarErrorFlag c st flag else st) := by
    intro b _ flag st h
    split
    · exact recordVarErrorFlag_bounds h flag
    · exact h
  exact hflag _ _ _ (hflag _ _ _ h)

structure StartsWithHeader (b : Bytes) (r : ReclaimBuffer) : Prop where
  currPtr : variableStoreHeaderSize ≤ r.currPtr
  header : r.validBuffer.take variableStoreHeaderSize = b.take variableStoreHeaderSize

variable {b : Bytes} {r : ReclaimBuffer}

theorem StartsWithHeader.copy (h : StartsWithHeader b r)
    (hb : variableStoreHeaderSize ≤ b.length) (data : Bytes) : StartsWithHeader b (r.copy data) :=
  ⟨h.currPtr.trans (Nat.le_add_right _ _),
    (take_patch data h.currPtr (length_of_take h.header hb)).trans h.header⟩

theorem StartsWithHeader.count (h : StartsWithHeader b r)
    (hwErr user : Bool) (size : Nat) : StartsWithHeader b (r.count hwErr user size) := by
  unfold ReclaimBuffer.count
  split
  · exact ⟨h.currPtr, h.header⟩
  · exact ⟨h.currPtr, h.header⟩

theorem StartsWithHeader.countVariable {b' : Bytes}
    (h : StartsWithHeader b r) (isVolatile : Bool) (p : Nat) :
    StartsWithHeader b (r.countVariable c st isVolatile b' p) := by
  unfold ReclaimBuffer.countVariable
  split
  · exact h
  · exact h.count _ _ _

section
variable (hb : variableStoreHeaderSize ≤ b.length)
include hb

theorem reinstall_startsWithHeader
    (isVolatile : Bool) (updating : VariablePointerTrack) (bufferSize : Nat) :
    StartsWithHeader b (reinstall c st isVolatile b updating bufferSize) := by
  have hfold : ∀ (body : ReclaimBuffer → Nat → ReclaimBuffer),
      (∀ r p, StartsWithHeader b r → StartsWithHeader b (body r p)) →
      ∀ (ps : List Nat) (r : ReclaimBuffer), StartsWithHeader b r → StartsWithHeader b (ps.foldl body r) := by
    intro body hbody ps
    induction ps with
    | nil => exact fun r hr => hr
    | cons p ps ih => exact fun r hr => ih _ (hbody r p hr)
  refine hfold _ (fun r p hr => ?_) _ _ (hfold _ (fun r p hr => ?_) _ _ ?_)
  · unfold reinstallTransition
    split
    · exact (hr.copy hb _).countVariable _ _
    · exact hr
  · unfold reinstallAdded
    split
    · exact (hr.copy hb _).countVariable _ _
    · exact hr
  · refine ⟨le_rfl, ?_⟩
    have hlen : (slice b 0 variableStoreHeaderSize).length = variableStoreHeaderSize :=
      Bytes.length_slice (by omega)
    unfold Bytes.patch
    rw [take_zero, nil_append, take_append_of_le_length (le_of_eq hlen.symm)]
    unfold Bytes.slice
    rw [drop_zero, take_take, min_self]

theorem installNew_startsWithHeader {isVolatile : Bool} {r' : ReclaimBuffer} (h : StartsWithHeader b r)
    (hnew : offsetOfState < newVariable.length)
    (hr : installNew c st isVolatile b r newVariable = some r') :
    StartsWithHeader b r' ∧ r'.currPtr ≤ storeSize b := by
  have hcurr : ∀ (hwErr user : Bool) (size : Nat), (r.count hwErr user size).currPtr = r.currPtr := by
    intro hwErr user size
    unfold ReclaimBuffer.count
    split <;> rfl
  have hlen : (patch newVariable offsetOfState [varAdded]).length = newVariable.length :=
    Bytes.length_patch hnew
  have hcnt : StartsWithHeader b (if isVolatile = true then r
      else r.count (isHardwareErrorRecord (attributes newVariable 0))
        (isUserVariable c st newVariable 0) newVariable.length) := by
    split
    · exact h
    · exact h.count _ _ _
  have hsame : (if isVolatile = true then r
      else r.count (isHardwareErrorRecord (attributes newVariable 0))
        (isUserVariable c st newVariable 0) newVariable.length).currPtr = r.currPtr := by
    split
    · rfl
    · exact hcurr _ _ _
  unfold installNew at hr
  dsimp only at hr
  generalize (if isVolatile = true then r
    else r.count (isHardwareErrorRecord (attributes newVariable 0))
      (isUserVariable c st newVariable 0) newVariable.length) = counted at hcnt hsame hr
  split at hr
  · cases hr
  rename_i hfit
  split at hr
  · cases hr
  obtain rfl := Option.some.inj hr
  refine ⟨hcnt.copy hb _, ?_⟩
  change counted.currPtr + length _ ≤ _
  rw [hsame, hlen]
  exact Nat.le_of_not_lt hfit

theorem inMemory_copied (h : StartsWithHeader b r) (hend : r.currPtr ≤ storeSize b) :
    InMemory (patch (replicate (storeSize b) 0xff) 0 (r.validBuffer.take r.currPtr)) := by
  have hbuf := length_of_take h.header hb
  have hcurr := h.currPtr
  have htake : (patch (replicate (storeSize b) 0xff) 0
      (r.validBuffer.take r.currPtr)).take variableStoreHeaderSize = b.take variableStoreHeaderSize := by
    unfold Bytes.patch
    rw [take_zero, nil_append, take_append_of_le_length
      (by rw [length_take]; omega), take_take, min_eq_left hcurr]
    exact h.header
  refine ⟨length_of_take htake hb, ?_⟩
  rw [storeSize_of_take htake]
  have hle := length_patch_le (replicate (storeSize b) 0xff) (r.validBuffer.take r.currPtr) 0
  rw [length_replicate, length_take] at hle
  omega

end

/-- A buffer that has the header of the store is written in its place. -/
theorem InVolume.rewrite {flash cache buffer : Bytes} (h : InVolume c flash cache)
    (hheader : buffer.take variableStoreHeaderSize =
      (flash.drop c.nonVolatileVariableBase).take variableStoreHeaderSize) :
    InVolume c (patch flash c.nonVolatileVariableBase buffer) cache := by
  have hhdr := h.header
  have hbase : c.nonVolatileVariableBase ≤ flash.length := (Nat.le_add_right _ _).trans hhdr
  have hbuf : variableStoreHeaderSize ≤ buffer.length :=
    length_of_take hheader (by rw [length_drop]; omega)
  have htake : ((patch flash c.nonVolatileVariableBase buffer).drop
      c.nonVolatileVariableBase).take variableStoreHeaderSize =
        (flash.drop c.nonVolatileVariableBase).take variableStoreHeaderSize := by
    unfold Bytes.patch
    rw [append_assoc, drop_append_of_le_length
      (by rw [length_take]; omega), drop_take, Nat.sub_self, take_zero,
      nil_append, take_append_of_le_length hbuf, hheader]
  have hsize := storeSize_of_take htake
  refine ⟨hhdr.trans (le_length_patch _ _ _), ?_, ?_, h.cache⟩
  · exact hsize.symm ▸ h.size
  · exact hsize.symm ▸ h.volume

section
variable (h : WithinBounds c st)
include h

theorem WithinBounds.untorn : Untorn st := by
  intro _ flash hleft
  cases hlist : st.ftwLeft with
  | nil =>
    rw [hlist] at hleft
    exact FtwLeft.noConfusion hleft
  | cons left rest =>
    rw [hlist] at hleft
    refine h.writes.2 flash ?_
    rw [hlist, ← (show left = .torn flash from hleft)]
    exact mem_cons_self

theorem nvStore_header : variableStoreHeaderSize ≤ (nvStore c st).length := by
  have hhdr := h.volume.header
  have hsize := h.volume.size
  unfold nvStore
  rw [h.notEmulated, if_ff, Bytes.slice, length_take, length_drop]
  omega

theorem writeBack_bounds {isVolatile : Bool}
    (hb : b = if isVolatile then st.memory.volatileStore else nvStore c st)
    (hr : StartsWithHeader b r) (hend : r.currPtr ≤ storeSize b) :
    WithinBounds c (writeBack c st isVolatile (storeSize b) r).1 := by
  have hhdr : variableStoreHeaderSize ≤ b.length := by
    rw [hb]
    split
    · exact h.volatileStore.header
    · exact nvStore_header h
  unfold writeBack
  cases isVolatile with
  | true => exact ⟨h.boot, h.notEmulated, h.available, h.writes, inMemory_copied hhdr hr hend, h.volume,
      h.nvOffset, hr.currPtr⟩
  | false =>
    have hvolume := h.volume
    rw [if_neg (by rw [h.notEmulated]; decide)]
    obtain ⟨s,status,hw,hs,hflash⟩ := ftwVariableSpace_untorn r h.untorn
    have hwrites : (∀ status ∈ s.fvbStatus, status = .success) ∧ ∀ flash, .torn flash ∉ s.ftwLeft := by
      have hleft : s.ftwLeft = st.ftwLeft.tail := (congrArg (·.1.ftwLeft) hw).symm
      have hsame : s.fvbStatus = st.fvbStatus := by rw [hs]
      rw [hsame, hleft]
      exact ⟨h.writes.1, fun flash hmem => h.writes.2 flash (mem_of_mem_tail hmem)⟩
    have hboot : s.atRuntime = false := by rw [hs]; exact h.boot
    have havailable : s.fvbInstance = true := by rw [hs]; exact h.available
    have hmemory : s.memory = st.memory := by rw [hs]
    have hvol : InMemory s.memory.volatileStore := by rw [hmemory]; exact h.volatileStore
    have hoff : variableStoreHeaderSize ≤ s.volatileLastVariableOffset := by rw [hs]; exact h.volatileOffset
    have hin : InVolume c s.flash s.memory.nvVariableCache := by
      rw [hmemory]
      rcases hflash with ⟨hsame,-⟩ | hwritten
      · rw [hsame]
        exact hvolume
      · rw [hwritten]
        exact hvolume.rewrite (hr.header.trans (by rw [hb, if_ff, nvStore, h.notEmulated, if_ff, Bytes.slice,
          take_take, min_eq_left hvolume.size]))
    rw [hw]
    dsimp only
    split
    · -- the last offset is found by a walk
      exact ⟨hboot, h.notEmulated, havailable, hwrites, hvol, hin, le_walkEndFrom _ _ _ _ _, hoff⟩
    · exact ⟨hboot, h.notEmulated, havailable, hwrites, hvol, hin, hr.currPtr, hoff⟩

theorem reclaimDone_bounds (isVolatile : Bool) (size : Nat) :
    (reclaimDone c st isVolatile size).2 ≠ .outOfResources ∧
      WithinBounds c (reclaimDone c st isVolatile size).1 := by
  unfold reclaimDone
  split
  · exact ⟨synchronize_status _ _ _, (h.synchronize _ _).bounds⟩
  obtain ⟨hheader,hsize,hvolume,-⟩ := h.volume
  refine ⟨synchronize_status _ _ _, (WithinBounds.synchronize ?_ _ _).bounds⟩
  refine ⟨h.boot, h.notEmulated, h.available, h.writes, h.volatileStore, ⟨hheader, hsize, hvolume, ?_⟩,
    h.nvOffset, h.volatileOffset⟩
  change c.nonVolatileVariableBase + (nvStore c st).length ≤ c.fvLength
  rw [nvStore, h.notEmulated, if_ff, Bytes.slice, length_take]
  omega

/-- `Reclaim` of the NV store never fails for want of resources: the status of a variable over its quota is
the one of the synchronization. -/
theorem reclaim_bounds (isVolatile : Bool) (updating : VariablePointerTrack)
    (hnew : offsetOfState < newVariable.length) :
    (isVolatile = false → (reclaim c st isVolatile updating (some newVariable)).2 ≠ .outOfResources) ∧
      WithinBounds c (reclaim c st isVolatile updating (some newVariable)).1 := by
  unfold reclaim
  rw [h.notEmulated, Bool.or_false]
  dsimp only
  split
  · rename_i hpool
    refine ⟨fun hnv => ?_, h⟩
    rw [hnv] at hpool
    exact Bool.noConfusion hpool
  refine And.imp_left (fun hst _ => hst) (reclaimDone_bounds ?_ _ _)
  have hhdr : variableStoreHeaderSize ≤
      (if isVolatile = true then st.memory.volatileStore else nvStore c st).length := by
    split
    · exact h.volatileStore.header
    · exact nvStore_header h
  split
  · exact h
  rename_i r hr
  obtain ⟨hstart,hend⟩ := installNew_startsWithHeader hhdr
    (reinstall_startsWithHeader hhdr _ _ _) hnew hr
  exact writeBack_bounds h rfl hstart hend

end

end

end Liano.Variable
