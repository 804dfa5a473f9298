import Liano.Variable.ReclaimBounds
import Liano.Variable.AccountedRuns

/-! When `UpdateVariable` fails for want of resources at boot time, and why the answer of
`CheckRemainingSpaceForConsistencyInternal` does not decide it. -/
namespace Liano.Variable

open List hiding max

open Bytes (slice patch)

structure SpaceOutcome (c : VariableConfig) (st : VariableState) (full : Prop)
    (r : VariableState × EfiStatus) : Prop where
  outOfResources : full → r.2 = .outOfResources
  success : ¬ full → r.2 = .success
  keeps : KeepsBounds c st r.1

/-- The status `EFI_OUT_OF_RESOURCES` tells that there is no room. -/
structure RoomOutcome (c : VariableConfig) (noRoom : Prop) (r : VariableState × EfiStatus) : Prop where
  outOfResources : r.2 = .outOfResources → noRoom
  bounds : WithinBounds c r.1

section
variable {c : VariableConfig} {st st' : VariableState} {full full' : Prop}
  {r : VariableState × EfiStatus} {req : UpdateRequest} {cacheVariable : CacheVariable}

theorem spaceOutcome_of_success (h : r.2 = .success ∧ KeepsBounds c st r.1) :
    SpaceOutcome c st False r := ⟨False.elim, fun _ => h.1, h.2⟩

theorem updateVariableStore_outcome (h : KeepsBounds c st st') (volatile : Bool) {off : Nat}
    (data : Bytes) (hoff : variableStoreHeaderSize ≤ off) :
    SpaceOutcome c st' (off+data.length > storeEnd c st volatile)
      (updateVariableStore c st' volatile off data) := by
  obtain ⟨hst,hkeep⟩ := updateVariableStore_bounds h.bounds volatile data hoff
  rw [h.storeEnd] at hst
  exact ⟨fun hfull => hst.trans (if_pos hfull), fun hfit => hst.trans (if_neg hfit), hkeep⟩

variable {next : VariableState → VariableState × EfiStatus} {v : Bytes}

theorem SpaceOutcome.andThen (h : SpaceOutcome c st full r)
    (hnext : ¬ full → ∀ st', KeepsBounds c st st' → SpaceOutcome c st' full' (next st')) :
    SpaceOutcome c st (full ∨ full') (andThen r next) := by
  unfold Variable.andThen
  by_cases hfull : full
  · have herr := h.outOfResources hfull
    rw [if_pos (by rw [herr]; rfl)]
    exact ⟨fun _ => herr, fun hnot => absurd (.inl hfull) hnot, h.keeps⟩
  have hok := h.success hfull
  have hnext' := hnext hfull r.1 h.keeps
  rw [if_neg (by rw [hok]; decide)]
  refine ⟨fun hor => ?_, fun hnot => hnext'.success fun hf => hnot (.inr hf), h.keeps.trans hnext'.keeps⟩
  exact hnext'.outOfResources (hor.resolve_left hfull)

theorem SpaceOutcome.andThenRoom (h : SpaceOutcome c st full r)
    (hnext : ¬ full → ∀ st', KeepsBounds c st st' → RoomOutcome c full' (next st')) :
    RoomOutcome c (full ∨ full') (Variable.andThen r next) := by
  unfold Variable.andThen
  by_cases hfull : full
  · have herr := h.outOfResources hfull
    rw [if_pos (by rw [herr]; rfl)]
    exact ⟨fun _ => .inl hfull, h.keeps.bounds⟩
  have hok := h.success hfull
  have hnext' := hnext hfull r.1 h.keeps
  rw [if_neg (by rw [hok]; decide)]
  exact ⟨fun hout => .inr (hnext'.outOfResources hout), hnext'.bounds⟩

theorem SpaceOutcome.of_iff (h : SpaceOutcome c st full r) (hiff : full ↔ full') :
    SpaceOutcome c st full' r :=
  ⟨fun hf => h.outOfResources (hiff.mpr hf), fun hf => h.success fun hf' => hf (hiff.mp hf'), h.keeps⟩

theorem RoomOutcome.imp (h : RoomOutcome c full r) (himp : full → full') : RoomOutcome c full' r :=
  ⟨himp ∘ h.outOfResources, h.bounds⟩

theorem writeInSteps_outcome (h : KeepsBounds c st st') (hv : offsetOfState < v.length)
    (hoff : variableStoreHeaderSize ≤ st'.nonVolatileLastVariableOffset) :
    SpaceOutcome c st' (st'.nonVolatileLastVariableOffset +
      max (getVariableHeaderSize c.authFormat) v.length > storeEnd c st false)
      (writeInSteps c v st') := by
  have hhdr : offsetOfState < getVariableHeaderSize c.authFormat := by cases c.authFormat <;> decide
  have hlen : (patch v offsetOfState [varAdded]).length = v.length := Bytes.length_patch hv
  unfold writeInSteps
  dsimp only
  generalize getVariableHeaderSize c.authFormat = size at hhdr ⊢
  generalize st'.nonVolatileLastVariableOffset = off at hoff ⊢
  have hst : variableStoreHeaderSize ≤ off+offsetOfState := hoff.trans (Nat.le_add_right _ _)
  have hrest : variableStoreHeaderSize ≤ off+size := hoff.trans (Nat.le_add_right _ _)
  -- the cache gets the variable after the last write, where it has come to an end that fits
  have hcopy : ∀ st₄, KeepsBounds c st st₄ → off+v.length ≤ storeEnd c st false →
      SpaceOutcome c st₄ False (st₄.setStore .nv (patch st₄.memory.nvVariableCache off
        (patch v offsetOfState [varAdded])), .success) := by
    intro st₄ hk hfit
    refine spaceOutcome_of_success ⟨rfl, hk.bounds.patchCache ?_⟩
    rwa [hlen, hk.storeEnd]
  have hhead := updateVariableStore_outcome h false (v.take size) hoff
  have hall := hhead.andThen fun hfst st₁ hk₁ =>
    (updateVariableStore_outcome (h.trans hk₁) false [varHeaderValidOnly] hst).andThen
      fun _ st₂ hk₂ =>
    (updateVariableStore_outcome ((h.trans hk₁).trans hk₂) false (v.drop size) hrest).andThen
      fun hsecond st₃ hk₃ =>
    (updateVariableStore_outcome (((h.trans hk₁).trans hk₂).trans hk₃) false [varAdded]
      hst).andThen fun _ st₄ hk₄ =>
    hcopy st₄ ((((h.trans hk₁).trans hk₂).trans hk₃).trans hk₄) (by
      rw [length_take] at hfst
      rw [length_drop] at hsecond
      omega)
  refine hall.of_iff ?_
  rw [length_take, length_drop, length_singleton, length_singleton, or_false]
  constructor
  · rintro (hfull | hfull | hfull | hfull) <;> omega
  · -- the third write ends where the whole variable does
    exact fun hfull => .inr (.inr (.inl (by omega)))

theorem countNew_keeps (h : KeepsBounds c st st') (req : UpdateRequest) (v : Bytes) :
    KeepsBounds c st (countNew c req v st') := by
  have hnv : variableStoreHeaderSize ≤ st'.nonVolatileLastVariableOffset + headerAlign v.length :=
    h.bounds.nvOffset.trans (Nat.le_add_right _ _)
  unfold countNew
  dsimp only
  split <;>
    exact ⟨⟨h.bounds.boot, h.bounds.notEmulated, h.bounds.available, h.bounds.writes, h.bounds.volatileStore,
      h.bounds.volume, hnv, h.bounds.volatileOffset⟩, h.storeEnd, h.nvLength, h.volatileLength⟩

/-- The creation of a non-volatile variable: there is room where one within its quota ends in the store, its
header being a write of its own of the full size. One over its quota goes to `Reclaim`. -/
def nonVolatileRoom (c : VariableConfig) (st : VariableState) (req : UpdateRequest) (v : Bytes) : Bool :=
  quotaExceeded c st req v || decide (st.nonVolatileLastVariableOffset +
    max (getVariableHeaderSize c.authFormat) v.length ≤ storeEnd c st false)

def hasRoom (c : VariableConfig) (st : VariableState) (req : UpdateRequest)
    (cacheVariable : CacheVariable) : Bool := match updatePlan c st req cacheVariable with
  | .write data _ => req.isNonVolatile && nonVolatileRoom c st req (plannedVariable c st req cacheVariable data)
  | _ => true

theorem offsetOfState_lt_newVariable (c : VariableConfig) (req : UpdateRequest)
    (existing : Option Bytes) (data : Bytes) : offsetOfState < (newVariable c req existing data).length := by
  unfold newVariable newHeader
  simp only [length_append, Bytes.length_leBytes, length_cons, length_nil]
  unfold offsetOfState
  omega

theorem offsetOfState_lt_alignedVariable (hv : offsetOfState < v.length) :
    offsetOfState < (alignedVariable v).length := by
  unfold alignedVariable
  rw [length_append]
  exact hv.trans_le (Nat.le_add_right _ _)

variable {flush : VariableState → VariableState}

theorem writeNonVolatile_outcome (h : WithinBounds c st) (hcv : TrackInBounds st cacheVariable)
    (hflush : ∀ st, WithinBounds c st → WithinBounds c (flush st)) (hv : offsetOfState < v.length) :
    RoomOutcome c (nonVolatileRoom c st req v = false)
      (writeNonVolatile c req cacheVariable flush v st) := by
  unfold writeNonVolatile nonVolatileRoom
  split
  · obtain ⟨hst,hbds⟩ := reclaim_bounds h false (updatingIn cacheVariable .nv)
      (offsetOfState_lt_alignedVariable hv)
    rw [if_neg (by rw [h.boot]; decide)]
    dsimp only
    split
    · exact ⟨fun hout => absurd hout (hst rfl), recordNoSpace_bounds hbds _ _ _⟩
    · exact ⟨fun hout => absurd hout (hst rfl), hflush _ hbds⟩
  · have hdelete : ∀ st', KeepsBounds c st st' → RoomOutcome c (False ∨ False)
          (andThen (deleteOld c cacheVariable (countNew c req v st'))
            fun st => (flush st, .success)) := by
      intro st' hk
      have hcnt := countNew_keeps hk req v
      have hdel := deleteOld_bounds hcnt.bounds (hcv.of_keeps hcnt)
      refine (spaceOutcome_of_success hdel).andThenRoom fun _ st'' hk'' => ?_
      exact ⟨nofun, hflush _ hk''.bounds⟩
    rename_i hquota
    have hsteps := writeInSteps_outcome h.keeps hv h.nvOffset
    rw [h.notEmulated]
    refine (hsteps.andThenRoom fun _ st' hk => hdelete st' hk).imp ?_
    rw [or_false, or_false, Bool.eq_false_of_not_eq_true hquota, Bool.false_or, decide_eq_false_iff_not, not_le]
    exact id

theorem writeVolatile_bounds (h : WithinBounds c st) (hcv : TrackInBounds st cacheVariable)
    (hv : offsetOfState < v.length) : WithinBounds c (writeVolatile c cacheVariable v st).1 := by
  unfold writeVolatile
  split
  · exact (reclaim_bounds h true (updatingIn cacheVariable .volatile) (offsetOfState_lt_alignedVariable hv)).2
  have hstore := updateVariableStore_outcome h.keeps true
    (patch v offsetOfState [varAdded]) h.volatileOffset
  refine (hstore.andThen fun _ st' hk => spaceOutcome_of_success ?_).keeps.bounds
  have hcnt : KeepsBounds c st { st' with
      volatileLastVariableOffset := st'.volatileLastVariableOffset + headerAlign v.length } :=
    ⟨⟨hk.bounds.boot, hk.bounds.notEmulated, hk.bounds.available, hk.bounds.writes, hk.bounds.volatileStore,
      hk.bounds.volume, hk.bounds.nvOffset, hk.bounds.volatileOffset.trans (Nat.le_add_right _ _)⟩,
      hk.storeEnd, hk.nvLength, hk.volatileLength⟩
  obtain ⟨hok,hkeep⟩ := deleteOld_bounds hcnt.bounds (hcv.of_keeps hcnt)
  exact ⟨hok, hkeep.bounds, fun b => hkeep.storeEnd b, hkeep.nvLength, hkeep.volatileLength⟩

theorem updatePlan_done {status : EfiStatus}
    (h : updatePlan c st req cacheVariable = .done status) : status ≠ .outOfResources := by
  rintro rfl
  unfold updatePlan at h
  split at h
  · unfold updatePlanExisting at h
    dsimp only at h
    repeat' split at h
    all_goals cases h
  · unfold updatePlanNew at h
    repeat' split at h
    all_goals cases h

theorem room_of_mark {st' : VariableState} (hrest : SameRest st st')
    (hk : KeepsBounds c st st') (v : Bytes) : nonVolatileRoom c st' req v = nonVolatileRoom c st req v := by
  have hquota : quotaExceeded c st' req v = quotaExceeded c st req v := by rw [hrest]; rfl
  have hlast : st'.nonVolatileLastVariableOffset = st.nonVolatileLastVariableOffset := by rw [hrest]
  unfold nonVolatileRoom
  rw [hquota, hlast, hk.storeEnd]

theorem execute_outcome (h : WithinBounds c st) (hcv : TrackInBounds st cacheVariable)
    (hflush : ∀ st, WithinBounds c st → WithinBounds c (flush st)) :
    RoomOutcome c (hasRoom c st req cacheVariable = false)
      (execute c st req cacheVariable flush (updatePlan c st req cacheVariable)) := by
  unfold hasRoom
  cases hplan : updatePlan c st req cacheVariable with
  | done status =>
    exact ⟨fun hout => absurd hout (updatePlan_done hplan), h⟩
  | delete =>
    have hdel := spaceOutcome_of_success (deleteOld_bounds h hcv)
    have hthen : ∀ st', KeepsBounds c st st' → RoomOutcome c False
        (if cacheVariable.storeType = .volatile then st' else flush st', .success) := by
      refine fun st' hk => ⟨nofun, ?_⟩
      dsimp only
      split
      · exact hk.bounds
      · exact hflush _ hk.bounds
    exact (hdel.andThenRoom fun _ st' hk => hthen st' hk).imp fun hno => hno.elim False.elim False.elim
  | write data mark =>
    have hv : offsetOfState < (plannedVariable c st req cacheVariable data).length :=
      offsetOfState_lt_newVariable _ _ _ _
    unfold execute
    dsimp only
    generalize plannedVariable c st req cacheVariable data = v at hv ⊢
    have hwrite : ∀ r : VariableState × EfiStatus, r.2 = .success ∧ KeepsBounds c st r.1 ∧ SameRest st r.1 →
        RoomOutcome c ((req.isNonVolatile && nonVolatileRoom c st req v) = false)
          (andThen r fun st =>
            if req.isNonVolatile then writeNonVolatile c req cacheVariable flush v st
            else writeVolatile c cacheVariable v st) := by
      rintro r ⟨hok,hkeep,hrest⟩
      have hnv := @room_of_mark c st req r.1 hrest hkeep v
      have hcv' := hcv.of_keeps hkeep
      have hgo : ¬ r.2.isError = true := by rw [hok]; decide
      unfold andThen
      rw [if_neg hgo]
      split
      · rename_i hnonVolatile
        rw [hnonVolatile, Bool.true_and, ← hnv]
        exact writeNonVolatile_outcome hkeep.bounds hcv' hflush hv
      · rename_i hvolatile
        rw [Bool.eq_false_of_not_eq_true hvolatile, Bool.false_and]
        exact ⟨fun _ => rfl, writeVolatile_bounds hkeep.bounds hcv' hv⟩
    refine hwrite _ ?_
    -- the mark of the existing variable
    split
    · rename_i p hp
      obtain ⟨hok,hkeep⟩ := updateState_bounds h hcv.notHob (hcv.currPtr p hp) varInDeletedTransition
      exact ⟨hok, hkeep, updateState_sameRest _ _ _ _⟩
    · exact ⟨rfl, h.keeps, SameRest.refl st⟩

theorem updateDone_outcome {noRoom : Prop} (h : RoomOutcome c noRoom r) :
    RoomOutcome c noRoom (updateDone req cacheVariable r) := by
  unfold updateDone andThen
  split
  · exact h
  dsimp only
  split
  · exact h
  · exact ⟨fun hout => absurd hout (synchronize_status _ _ _), (h.bounds.synchronize _ _).bounds⟩

theorem trackInBounds_found (c : VariableConfig) (st : VariableState) (req : UpdateRequest)
    (ign : Bool) : TrackInBounds st (switchFromHob c st req (foundVariable c st req ign)) := by
  refine found_of_lookup ?_ fun ign t ht => ?_
  · exact ⟨nofun, fun p hp => Option.noConfusion rfl (heq_of_eq hp),
      fun q hq => Option.noConfusion rfl (heq_of_eq hq)⟩
  · obtain ⟨hcurr,htwin⟩ := find_pointsInto c.authFormat st.atRuntime ign req.variableName
      req.vendorGuid (cacheStore st t)
    exact ⟨ht, hcurr, htwin⟩

theorem WithinBounds.withMemory (h : WithinBounds c st) {memory : VariableMemory}
    (hvol : memory.volatileStore = st.memory.volatileStore)
    (hnv : memory.nvVariableCache = st.memory.nvVariableCache) :
    WithinBounds c { st with memory := memory } :=
  ⟨h.boot, h.notEmulated, h.available, h.writes, hvol ▸ h.volatileStore, hnv ▸ h.volume, h.nvOffset,
    h.volatileOffset⟩

theorem updateVariableWith_outcome (h : WithinBounds c st) (req : UpdateRequest) (ign : Bool)
    (hflush : ∀ st, WithinBounds c st → WithinBounds c (flush st)) : RoomOutcome c
      (hasRoom c st req (switchFromHob c st req (foundVariable c st req ign)) = false)
      (updateVariableWith c st req (foundVariable c st req ign) flush) := by
  have hcv := trackInBounds_found c st req ign
  have hrun := @execute_outcome c st req _ flush h hcv hflush
  have hready : notAvailableYet c st req = false := by simp [notAvailableYet, h.notEmulated, h.available]
  unfold updateVariableWith
  rw [hready, if_ff]
  dsimp only
  generalize switchFromHob c st req (foundVariable c st req ign) = cv at hcv hrun ⊢
  split
  · exact ⟨nofun, hflush _ h⟩
  · exact updateDone_outcome hrun

theorem flushHobVariable_bounds (variableName vendorGuid : Bytes) (r : VariableState × Bool)
    (h : WithinBounds c r.1) (p : Nat) :
    WithinBounds c (flushHobVariable c variableName vendorGuid r p).1 := by
  refine flushHobVariable_keeps h (fun _ => ?_) fun _ h => h.withMemory rfl rfl
  rw [updateFromHob_eq]
  exact (updateVariableWith_outcome h _ false fun _ h => h).bounds

theorem flushHobVariableToFlash_bounds (variableName vendorGuid : Bytes) (st : VariableState)
    (h : WithinBounds c st) : WithinBounds c (flushHobVariableToFlash c variableName vendorGuid st) := by
  have hloop : ∀ (ps : List Nat) (r : VariableState × Bool), WithinBounds c r.1 →
      WithinBounds c (ps.foldl (flushHobVariable c variableName vendorGuid) r).1 := by
    intro ps
    induction ps with
    | nil => exact fun r hr => hr
    | cons p ps ih => exact fun r hr => ih _ (flushHobVariable_bounds _ _ r hr p)
  unfold flushHobVariableToFlash
  split
  · exact h
  have hrun := hloop (headers c.authFormat st.memory.hobStore)
    ({ st with memory := { st.memory with hobVariableBase := 0 } }, false)
    (h.withMemory rfl rfl)
  exact hrun.withMemory (endHobFlush_stores _ _).1 (endHobFlush_stores _ _).2

theorem updateVariable_outcome (h : WithinBounds c st) (req : UpdateRequest) (ign : Bool) : RoomOutcome c
      (hasRoom c st req (switchFromHob c st req (foundVariable c st req ign)) = false)
      (updateVariable c st req (foundVariable c st req ign)) :=
  updateVariableWith_outcome h req ign (flushHobVariableToFlash_bounds _ _)

end

end Liano.Variable
