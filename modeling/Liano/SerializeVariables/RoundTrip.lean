import Liano.SerializeVariables.Iteration

/-! Instances written out and read in: variables come back as they were added, and which byte strings are
loaded without reading behind their end. -/
namespace Liano.SerializeVariables

open List

open Bytes
open Lib (Fallible)
open Lib.Fallible

section Back

variable {γ : Type} {callback : Callback γ}

theorem visit_cons_succeeds {v : Variable} {vs : List Variable} {w : World γ}
    (h : Succeeds (exec (visit callback (v :: vs)) w)) : ∃ status w', w.pool w.calls = true ∧
      exec (statusOf (callback v.entry)) { w with calls := w.calls + 1 } = (.ok status, w') ∧
      status.isError = false ∧ exec (visit callback (v :: vs)) w = exec (visit callback vs) w' := by
  cases hpool : w.pool w.calls with
  | false =>
    rw [visit, exec_bind, alignName_fails (ucs2_ne_nil v.name) hpool] at h
    exact absurd h (not_succeeds_error _ _)
  | true =>
    rw [visit_cons_of_pool hpool] at h ⊢
    cases hcall : exec (statusOf (callback v.entry)) { w with calls := w.calls + 1 } with
    | mk result w' =>
      cases result with
      | error e =>
        rw [exec_bind, hcall] at h
        exact absurd h (not_succeeds_error e w')
      | ok status =>
        rw [exec_bind_of_ok hcall] at h ⊢
        cases herror : status.isError with
        | true =>
          rw [if_pos herror] at h
          exact absurd h (not_succeeds_error _ w')
        | false =>
          refine ⟨status, w', rfl, rfl, herror, ?_⟩
          simp only [Bool.false_eq_true, if_false]

theorem iterateFrom_of_visit {vs : List Variable} {fuel : Nat} (aligned : Option Bytes) {w : World γ}
    (hfuel : (serialized vs).length ≤ fuel) (h : Succeeds (exec (visit callback vs) w)) :
    exec (iterateFrom callback fuel aligned (serialized vs)) w = exec (visit callback vs) w := by
  induction vs generalizing fuel aligned w with
  | nil =>
    rw [show serialized [] = [] from rfl, iterateFrom_nil]
    rfl
  | cons v vs ih =>
    rw [serialized_cons, length_append, v.record.length_encode] at hfuel
    obtain ⟨fuel,rfl⟩ : ∃ k, fuel = k+1 := ⟨fuel - 1, by omega⟩
    obtain ⟨status,w',hpool,hcall,hok,hrest⟩ := visit_cons_succeeds h
    rw [hrest] at h ⊢
    have hturn : exec (iterateFrom callback (fuel+1) aligned (serialized (v :: vs))) w =
        exec (iterateFrom callback fuel (some (ucs2 v.name)) (serialized vs)) w' := by
      rw [serialized_cons, iterateFrom_record, show v.record.name = ucs2 v.name from rfl,
        exec_bind_of_ok (alignName_copy (ucs2_ne_nil v.name) hpool)]
      refine (exec_bind_of_ok hcall).trans ?_
      rw [hok]
      rfl
    rw [hturn]
    exact ih _ (by omega) h

end Back

def Ample {γ : Type} (w : World γ) : Prop := ∀ n, w.pool n = true

variable {w : World Instance}

theorem addVariable_entry (hample : Ample w) (v : Variable) :
    ∃ w', exec (serializeVariablesAddVariable v.entry) w = (.ok (), w') ∧
      w'.user.data = w.user.data ++ v.record.encode ∧ w'.pool = w.pool := by
  rcases addVariable_spec (e := v.entry) (strSize_ucs2 v.noNul) v.guid_length w with
    ⟨w', hadd, hdata, hpool⟩ | ⟨w', -, -, hfalse⟩
  · exact ⟨w', hadd, by rw [hdata, addedBytes_entry], hpool⟩
  · rw [hample] at hfalse
    cases hfalse

/-- `SerializeVariablesAddVariable` for each variable in turn. -/
def addAll : List Variable → Service Instance Unit
  | [] => pure ()
  | v :: vs => do
      serializeVariablesAddVariable v.entry
      addAll vs

theorem addAll_spec (vs : List Variable) (hample : Ample w) :
    ∃ w', exec (addAll vs) w = (.ok (), w') ∧ w'.user.data = w.user.data ++ serialized vs := by
  induction vs generalizing w with
  | nil => exact ⟨w, rfl, by simp [show serialized [] = [] from rfl]⟩
  | cons v vs ih =>
    obtain ⟨w1,hadd,hdata,hpool⟩ := addVariable_entry hample v
    obtain ⟨w2,hrest,hdata2⟩ := ih (w := w1) (fun n => by rw [hpool]; exact hample n)
    refine ⟨w2, (exec_bind_of_ok hadd).trans hrest, ?_⟩
    rw [hdata2, hdata, serialized_cons, append_assoc]

theorem visit_cons_ok {γ : Type} {callback : Callback γ} {v : Variable} {vs : List Variable} {w w' : World γ}
    (hpool : w.pool w.calls = true)
    (h : exec (callback v.entry) { w with calls := w.calls + 1 } = (.ok (), w')) :
    exec (visit callback (v :: vs)) w = exec (visit callback vs) w' := by
  rw [visit_cons_of_pool hpool, exec_bind_of_ok (statusOf_ok h)]
  rfl

theorem visit_add (vs : List Variable) (hample : Ample w) :
    ∃ w', exec (visit serializeVariablesAddVariable vs) w = (.ok (), w') ∧
      w'.user.data = w.user.data ++ serialized vs := by
  induction vs generalizing w with
  | nil => exact ⟨w, rfl, by simp [show serialized [] = [] from rfl]⟩
  | cons v vs ih =>
    obtain ⟨w1,hadd,hdata,hpool⟩ := addVariable_entry (w := { w with calls := w.calls + 1 }) hample v
    obtain ⟨w2,hrest,hdata2⟩ := ih (w := w1) (fun n => by rw [hpool]; exact hample n)
    refine ⟨w2, ?_, ?_⟩
    · rw [visit_cons_ok (hample _) hadd]
      exact hrest
    · rw [hdata2, hdata, serialized_cons, append_assoc]

theorem visit_nop (vs : List Variable) {γ : Type} {w : World γ} (hample : Ample w) :
    ∃ w', exec (visit iterateVariablesCallbackNop vs) w = (.ok (), w') ∧ w'.user = w.user ∧
      w'.pool = w.pool := by
  induction vs generalizing w with
  | nil => exact ⟨w, rfl, rfl, rfl⟩
  | cons v vs ih =>
    obtain ⟨w2,hrest,huser,hpool⟩ := ih (w := { w with calls := w.calls + 1 }) hample
    refine ⟨w2, ?_, huser, hpool⟩
    exact (visit_cons_ok (hample _) rfl).trans hrest

def collect (e : Entry) : Service (List Entry) Unit := lift fun w => ((), { w with user := w.user ++ [e] })

theorem visit_collect (vs : List Variable) {w : World (List Entry)} (hample : Ample w) :
    ∃ w', exec (visit collect vs) w = (.ok (), w') ∧ w'.user = w.user ++ vs.map Variable.entry := by
  induction vs generalizing w with
  | nil => exact ⟨w, rfl, by simp⟩
  | cons v vs ih =>
    obtain ⟨w2,hrest,huser⟩ := ih (w := { w with calls := w.calls+1, user := w.user ++ [v.entry] }) hample
    refine ⟨w2, ?_, ?_⟩
    · exact (visit_cons_ok (hample _) rfl).trans hrest
    · rw [huser, map_cons, append_assoc]
      rfl

theorem newInstance_spec (hample : Ample w) : exec serializeVariablesNewInstance w =
      (.ok (), { w with calls := w.calls+1, user := ⟨[], 0⟩ }) := by
  simp [serializeVariablesNewInstance, allocatePool, setInstance, exec_bind, hample w.calls]

theorem newInstanceFromBuffer_serialized (vs : List Variable) (hample : Ample w) :
    ∃ w', exec (serializeVariablesNewInstanceFromBuffer (serialized vs)) w = (.ok (), w') ∧
      w'.user.data = serialized vs := by
  obtain ⟨w1,hnop,huser,hpool⟩ :=
    visit_nop vs (w := { w with calls := w.calls+1, user := (⟨[], 0⟩ : Instance) }) hample
  obtain ⟨w2,hadd,hdata⟩ := visit_add vs (w := w1) (fun n => by rw [hpool]; exact hample n)
  refine ⟨w2, ?_, by rw [hdata, huser]; rfl⟩
  have hfirst := iterateFrom_of_visit none le_rfl (congrArg Prod.fst hnop)
  have hsecond := iterateFrom_of_visit none le_rfl (congrArg Prod.fst hadd)
  refine (exec_bind_of_ok (newInstance_spec hample)).trans ?_
  refine (exec_bind_of_ok (hfirst.trans hnop)).trans ?_
  exact hsecond.trans hadd

def RoundTrips (pool : Nat → Bool) (vs : List Variable) : Prop :=
  ∀ (calls : Nat) (inst : Instance), ∃ built loaded : World Instance, ∃ seen : World (List Entry),
    exec (serializeVariablesNewInstance >>= fun _ => addAll vs) ⟨pool, calls, inst⟩ = (.ok (), built) ∧
    serializeVariablesToBuffer built.user true (some (serialized vs).length) = .ok (serialized vs) ∧
    exec (serializeVariablesNewInstanceFromBuffer (serialized vs)) ⟨pool, calls, inst⟩ = (.ok (), loaded) ∧
    exec (serializeVariablesIterateInstanceVariables collect loaded.user) ⟨pool, calls, []⟩ =
      (.ok (), seen) ∧ seen.user = vs.map Variable.entry ∧
    serializeVariablesToBuffer loaded.user true (some (serialized vs).length) = .ok (serialized vs)

theorem iterateInstance_eq {γ : Type} (callback : Callback γ) (inst : Instance) :
    serializeVariablesIterateInstanceVariables callback inst =
      iterateVariablesInBuffer callback inst.data := by
  unfold serializeVariablesIterateInstanceVariables iterateVariablesInBuffer
  split
  · rename_i h
    rw [h, iterateFrom_nil]
  · rfl

theorem toBuffer_exact {inst : Instance} {b : Bytes} (h : inst.data = b) :
    serializeVariablesToBuffer inst true (some b.length) = .ok b := by
  simp [serializeVariablesToBuffer, h]

theorem roundTrips {pool : Nat → Bool} (hpool : ∀ n, pool n = true) (vs : List Variable) :
    RoundTrips pool vs := by
  intro calls inst
  obtain ⟨built,hbuilt,hdata⟩ := addAll_spec vs (w := ⟨pool, calls+1, ⟨[], 0⟩⟩) hpool
  obtain ⟨loaded,hloaded,hloadedData⟩ := newInstanceFromBuffer_serialized vs (w := ⟨pool, calls, inst⟩) hpool
  obtain ⟨seen,hseen,huser⟩ := visit_collect vs (w := ⟨pool, calls, []⟩) hpool
  refine ⟨built, loaded, seen, ?_, toBuffer_exact hdata, hloaded, ?_, huser, toBuffer_exact hloadedData⟩
  · exact (exec_bind_of_ok (newInstance_spec (w := ⟨pool, calls, inst⟩) hpool)).trans hbuilt
  · rw [iterateInstance_eq, hloadedData]
    exact (iterateFrom_of_visit none le_rfl (congrArg Prod.fst hseen)).trans hseen

end Liano.SerializeVariables
