import Liano.SerializeVariables.RoundTrip

/-! Loading an arbitrary byte string: the first pass looks at the lengths alone, the second adds what the
first has accepted. -/
namespace Liano.SerializeVariables

open List

open Bytes
open Lib (Fallible)
open Lib.Fallible

/-- Bytes that are refused before anything behind their end is read: neither length nor the attributes are
cut off. -/
def Refused (t : Bytes) : Prop := 4 ≤ t.length ∧ (t.length < 4 + nameSizeOf t + 16 ∨
    4 + nameSizeOf t + 16 + 4 + 4 ≤ t.length ∧ t.length < 4 + nameSizeOf t + 16 + 4 + 4 + dataSizeOf t)

theorem unpack_refused {t : Bytes} :
    Refused t ↔ unpackVariableFromBuffer t = .error (.status .invalidParameter) := by
  rw [unpack_cases, Refused]
  constructor
  · rintro ⟨h4,hshort | ⟨hflds,hdata⟩⟩
    · rw [if_neg (by omega), if_pos hshort]
    · rw [if_neg (by omega), if_neg (by omega), if_neg (by omega), if_pos hdata]
  · intro h
    split at h
    · cases h
    split at h
    · rename_i hshort
      exact ⟨by omega, .inl hshort⟩
    split at h
    · cases h
    split at h
    · rename_i hdata
      exact ⟨by omega, .inr ⟨by omega, hdata⟩⟩
    · cases h

theorem unpack_error {t : Bytes} {e : Stop} (h : unpackVariableFromBuffer t = .error e) :
    Refused t ∨ e = .outside := by
  cases e with
  | outside => exact .inr rfl
  | status s =>
    refine .inl (unpack_refused.mpr ?_)
    rw [unpack_cases] at h ⊢
    split at h
    · cases h
    split at h
    · rename_i h1 h2
      rw [if_neg h1, if_pos h2]
    split at h
    · cases h
    split at h
    · rename_i h1 h2 h3 h4
      rw [if_neg h1, if_neg h2, if_neg h3, if_pos h4]
    · cases h

theorem exists_records (b : Bytes) : ∃ (rs : List Record) (t : Bytes), b = encodeAll rs ++ t ∧
    (t = [] ∨ t ≠ [] ∧ ∃ e, unpackVariableFromBuffer t = .error e) := by
  induction hn : b.length using Nat.strong_induction_on generalizing b with
  | _ n ih =>
    subst hn
    by_cases hnil : b = []
    · exact ⟨[], b, rfl, .inl hnil⟩
    cases hu : unpackVariableFromBuffer b with
    | error e => exact ⟨[], b, rfl, .inr ⟨hnil, e, hu⟩⟩
    | ok u =>
      obtain ⟨r,t,hb⟩ := unpack_ok hu
      have hlt : t.length < b.length := by
        rw [hb, length_append, r.length_encode]
        omega
      obtain ⟨rs,t',ht,hrest⟩ := ih t.length hlt t rfl
      exact ⟨r :: rs, t', by rw [hb, ht, encodeAll_cons, append_assoc], hrest⟩

/-- The records that are not named, among those at the start, come behind one that is: there is an aligned
copy for every name. -/
def Named (aligned : Option Bytes) : List Record → Prop
  | [] => True
  | r :: _ => aligned.isSome ∨ r.name ≠ []

variable {γ : Type} {aligned : Option Bytes}
variable {rs : List Record} {w : World γ} {fuel : Nat} {b : Bytes}

theorem alignName_named {r : Record} (hample : Ample w) (hnamed : Named aligned (r :: rs)) :
    ∃ block w', exec (alignName aligned r.name) w = (.ok block, w') ∧ w'.pool = w.pool := by
  by_cases hname : r.name = []
  · rcases hnamed with hsome | hne
    · obtain ⟨block,rfl⟩ := Option.isSome_iff_exists.mp hsome
      exact ⟨block, w, by rw [hname, alignName_empty], rfl⟩
    · exact absurd hname hne
  · exact ⟨r.name, _, alignName_copy hname (hample _), rfl⟩

theorem alignName_error {name : Bytes} {w' : World γ} {e : Stop}
    (h : exec (alignName aligned name) w = (.error e, w')) : e = .status .outOfResources := by
  by_cases hname : name = []
  · subst hname
    cases aligned with
    | none =>
      cases h
      rfl
    | some block => cases h
  cases hpool : w.pool w.calls with
  | true =>
    rw [alignName_copy hname hpool] at h
    cases h
  | false =>
    rw [alignName_fails hname hpool] at h
    cases h
    rfl

theorem iterate_nop (t : Bytes) (hample : Ample w) (hnamed : Named aligned rs)
    (hfuel : (encodeAll rs ++ t).length ≤ fuel) : ∃ fuel' aligned' w', t.length ≤ fuel' ∧ w'.pool = w.pool ∧
      exec (iterateFrom iterateVariablesCallbackNop fuel aligned (encodeAll rs ++ t)) w =
        exec (iterateFrom iterateVariablesCallbackNop fuel' aligned' t) w' := by
  induction rs generalizing fuel aligned w with
  | nil => exact ⟨fuel, aligned, w, hfuel, rfl, rfl⟩
  | cons r rs ih =>
    rw [encodeAll_cons, append_assoc, length_append, r.length_encode] at hfuel
    obtain ⟨fuel,rfl⟩ : ∃ k, fuel = k+1 := ⟨fuel - 1, by omega⟩
    obtain ⟨block,w1,hal,hpool⟩ := alignName_named hample hnamed
    have hnext : Named (some block) rs := by
      cases rs with
      | nil => trivial
      | cons r' rs' => exact .inl rfl
    have hleft : (encodeAll rs ++ t).length ≤ fuel := by omega
    obtain ⟨fuel',aligned',w',hfuel',hpool',hrun⟩ :=
      ih (w := w1) (fun n => by rw [hpool]; exact hample n) hnext hleft
    refine ⟨fuel', aligned', w', hfuel', hpool'.trans hpool, ?_⟩
    rw [encodeAll_cons, append_assoc, iterateFrom_record, exec_bind_of_ok hal]
    exact (exec_bind_of_ok (statusOf_ok rfl)).trans hrun

/-- A first pass over records and bytes that are refused ends in an error status, whatever the pool does. -/
theorem iterate_refused {t : Bytes}
    (h : Refused t) (hfuel : (encodeAll rs ++ t).length ≤ fuel) (w : World γ) :
    ∃ s w', exec (iterateFrom iterateVariablesCallbackNop fuel aligned (encodeAll rs ++ t)) w =
      (.error (.status s), w') := by
  induction rs generalizing fuel aligned w with
  | nil =>
    have hlen : 4 ≤ t.length := h.1
    have hne : t ≠ [] := by
      rintro rfl
      exact absurd hlen (by decide)
    obtain ⟨fuel,rfl⟩ : ∃ k, fuel = k+1 := ⟨fuel - 1, by
      have hle : t.length ≤ fuel := hfuel
      omega⟩
    exact ⟨.invalidParameter, w, iterateFrom_stop hne (unpack_refused.mp h) w⟩
  | cons r rs ih =>
    rw [encodeAll_cons, append_assoc, length_append, r.length_encode] at hfuel
    obtain ⟨fuel,rfl⟩ : ∃ k, fuel = k+1 := ⟨fuel - 1, by omega⟩
    rw [encodeAll_cons, append_assoc, iterateFrom_record, exec_bind]
    cases hal : exec (alignName aligned r.name) w with
    | mk result w1 =>
      cases result with
      | error e => exact ⟨.outOfResources, w1, by rw [alignName_error hal]⟩
      | ok block => exact ih (by omega) w1

def Inside {γ α : Type} (x : Service γ α) : Prop := ∀ w, (exec x w).1 ≠ .error .outside

theorem Inside.bind {α β : Type} {x : Service γ α} {f : α → Service γ β} (hx : Inside x)
    (hf : ∀ a, Inside (f a)) : Inside (x >>= f) := by
  intro w
  have h1 := hx w
  rw [exec_bind]
  cases hr : exec x w with
  | mk result w1 =>
    cases result with
    | ok a => exact hf a w1
    | error e =>
      rw [hr] at h1
      intro h
      cases h
      exact h1 rfl

theorem Inside.statusOf {x : Service γ Unit} (hx : Inside x) : Inside (statusOf x) := by
  intro w
  have h1 := hx w
  cases hr : exec x w with
  | mk result w1 =>
    cases result with
    | ok a =>
      rw [statusOf_ok hr]
      exact nofun
    | error e =>
      cases e with
      | status s =>
        rw [statusOf_status hr]
        exact nofun
      | outside =>
        rw [hr] at h1
        exact absurd rfl h1

theorem iterate_inside {callback : Callback γ} {vs : List Variable}
    (hcall : ∀ v : Variable, Inside (callback v.entry)) (hfuel : (serialized vs).length ≤ fuel) :
    Inside (iterateFrom callback fuel aligned (serialized vs)) := by
  induction vs generalizing fuel aligned with
  | nil =>
    rw [show serialized [] = [] from rfl, iterateFrom_nil]
    exact fun _ => nofun
  | cons v vs ih =>
    rw [serialized_cons, length_append, v.record.length_encode] at hfuel
    obtain ⟨fuel,rfl⟩ : ∃ k, fuel = k+1 := ⟨fuel - 1, by omega⟩
    rw [serialized_cons, iterateFrom_record]
    intro w
    cases hpool : w.pool w.calls with
    | false =>
      rw [exec_bind, show v.record.name = ucs2 v.name from rfl, alignName_fails (ucs2_ne_nil v.name) hpool]
      exact nofun
    | true =>
      rw [show v.record.name = ucs2 v.name from rfl,
        exec_bind_of_ok (alignName_copy (ucs2_ne_nil v.name) hpool)]
      refine Inside.bind (Inside.statusOf (hcall v)) (fun status => ?_) _
      split
      · split
        · exact fun _ => nofun
        · exact fun _ => nofun
      · exact ih (by omega)

theorem addVariable_inside (v : Variable) : Inside (serializeVariablesAddVariable v.entry) := by
  intro w
  rcases addVariable_spec (e := v.entry) (strSize_ucs2 v.noNul) v.guid_length w with
    ⟨w1, hadd, -, -⟩ | ⟨w1, hfail, -, -⟩
  · rw [hadd]
    exact nofun
  · rw [hfail]
    exact nofun

theorem iterate_add_outcome {w : World Instance}
    (hample : Ample w) (hnamed : Named aligned rs) (hfuel : (encodeAll rs).length ≤ fuel) :
    (exec (iterateFrom serializeVariablesAddVariable fuel aligned (encodeAll rs)) w).1 = .ok () ∨
      (exec (iterateFrom serializeVariablesAddVariable fuel aligned (encodeAll rs)) w).1 =
        .error .outside := by
  induction rs generalizing fuel aligned w with
  | nil =>
    rw [show encodeAll [] = [] from rfl, iterateFrom_nil]
    exact .inl rfl
  | cons r rs ih =>
    rw [encodeAll_cons, length_append, r.length_encode] at hfuel
    obtain ⟨fuel,rfl⟩ : ∃ k, fuel = k+1 := ⟨fuel - 1, by omega⟩
    obtain ⟨block,w1,hal,hpool⟩ := alignName_named hample hnamed
    rw [encodeAll_cons, iterateFrom_record, exec_bind_of_ok hal]
    cases hsize : strSize block with
    | error e =>
      have hout := statusOf_outside (addVariable_outside (e := r.entryAt block) hsize w1)
      rw [exec_bind, hout]
      exact .inr rfl
    | ok n =>
      rcases addVariable_spec (e := r.entryAt block) hsize r.guid_length w1 with
        ⟨w2, hadd, -, hpool2⟩ | ⟨w2, -, -, hfalse⟩
      · have hnext : Named (some block) rs := by
          cases rs with
          | nil => trivial
          | cons r' rs' => exact .inl rfl
        have hrest := ih (w := w2) (fun n => by rw [hpool2, hpool]; exact hample n) hnext
          (show (encodeAll rs).length ≤ fuel by omega)
        rw [exec_bind_of_ok (statusOf_ok hadd)]
        exact hrest
      · rw [hpool, hample] at hfalse
        cases hfalse

/-- Loading reads inside the byte string and inside the copies of names, and a success means that the
string is a list of variables. -/
def LoadsSafely (b : Bytes) : Prop := ∀ w : World Instance,
    (exec (serializeVariablesNewInstanceFromBuffer b) w).1 ≠ .error .outside ∧
      (Succeeds (exec (serializeVariablesNewInstanceFromBuffer b) w) → ∃ vs, b = serialized vs)

/-- Byte strings that are variables, that are refused at a length, or that start with a record of an empty
name, for which there is no copy. -/
inductive Loadable : Bytes → Prop
  | written (vs : List Variable) : Loadable (serialized vs)
  | refused (rs : List Record) {t : Bytes} : Refused t → Loadable (encodeAll rs ++ t)
  | unnamed (r : Record) (t : Bytes) : r.name = [] → Loadable (r.encode ++ t)

section
variable
  (h : ∀ w : World Instance, ∃ s w', exec (iterateVariablesInBuffer iterateVariablesCallbackNop b) w = (.error (.status s), w'))
include h

theorem load_of_status (w : World Instance) :
    ∃ s w', exec (serializeVariablesNewInstanceFromBuffer b) w = (.error (.status s), w') := by
  rw [serializeVariablesNewInstanceFromBuffer, exec_bind]
  cases hnew : exec serializeVariablesNewInstance w with
  | mk result w1 =>
    cases result with
    | ok _ =>
      obtain ⟨s,w2,hpass⟩ := h w1
      refine ⟨s, w2, ?_⟩
      dsimp only
      rw [exec_bind, hpass]
    | error e =>
      have he : e = .status .outOfResources := by
        cases hpool : w.pool w.calls with
        | true => simp [serializeVariablesNewInstance, allocatePool, setInstance, exec_bind, hpool] at hnew
        | false =>
          simp [serializeVariablesNewInstance, allocatePool, fail, exec_bind, hpool] at hnew
          exact hnew.1.symm
      exact ⟨.outOfResources, w1, by rw [he]⟩

theorem LoadsSafely.of_status : LoadsSafely b := by
  intro w
  obtain ⟨s,w',hload⟩ := load_of_status h w
  rw [hload]
  refine ⟨nofun, fun hok => ?_⟩
  cases hok

end

theorem newInstance_inside : Inside serializeVariablesNewInstance := by
  refine Inside.bind (fun _ => nofun) fun ok => ?_
  split
  · exact fun _ => nofun
  · exact fun _ => nofun

theorem loadsSafely_serialized (vs : List Variable) : LoadsSafely (serialized vs) := by
  have hnop : Inside (iterateVariablesInBuffer (γ := Instance) iterateVariablesCallbackNop (serialized vs)) :=
    iterate_inside (fun _ _ => nofun) le_rfl
  have hadd : Inside (iterateVariablesInBuffer serializeVariablesAddVariable (serialized vs)) :=
    iterate_inside addVariable_inside le_rfl
  intro w
  exact ⟨Inside.bind newInstance_inside (fun _ => Inside.bind hnop fun _ => hadd) w, fun _ => ⟨vs, rfl⟩⟩

theorem iterate_unnamed {r : Record} (t : Bytes) (h : r.name = []) (w : World γ) :
    exec (iterateVariablesInBuffer iterateVariablesCallbackNop (r.encode ++ t)) w =
      (.error (.status .outOfResources), w) := by
  have hlen := r.length_encode
  obtain ⟨fuel,hfuel⟩ : ∃ k, (r.encode ++ t).length = k+1 := ⟨(r.encode ++ t).length - 1, by
    rw [length_append]
    omega⟩
  rw [iterateVariablesInBuffer, hfuel, iterateFrom_record, h, exec_bind, alignName_none]

theorem loadsSafely_of_loadable (h : Loadable b) : LoadsSafely b := by
  cases h with
  | written vs => exact loadsSafely_serialized vs
  | refused rs hrefused => exact LoadsSafely.of_status (iterate_refused hrefused le_rfl)
  | unnamed r t hname => exact LoadsSafely.of_status fun w => ⟨_, w, iterate_unnamed t hname w⟩

def ampleWorld : World Instance := ⟨fun _ => true, 0, ⟨[], 0⟩⟩

theorem loadable_of_loadsSafely (h : LoadsSafely b) : Loadable b := by
  obtain ⟨rs,t,rfl,hrest⟩ := exists_records b
  have hample : Ample ampleWorld := fun _ => rfl
  have hnew := newInstance_spec hample
  obtain ⟨hins,hsuccess⟩ := h ampleWorld
  rw [serializeVariablesNewInstanceFromBuffer, exec_bind_of_ok hnew] at hins hsuccess
  by_cases hnamed : Named none rs
  · obtain ⟨fuel,aligned,w1,hfuel,hpool,hpass⟩ := iterate_nop
      (w := { ampleWorld with calls := ampleWorld.calls+1, user := (⟨[], 0⟩ : Instance) })
      t hample hnamed (Nat.le_refl (encodeAll rs ++ t).length)
    rcases hrest with rfl | ⟨hne,e,hstop⟩
    · -- All of it is records: the second pass succeeds, so they are variables.
      rw [iterateFrom_nil] at hpass
      simp only [append_nil] at hpass hins hsuccess ⊢
      have hfst : exec (iterateVariablesInBuffer iterateVariablesCallbackNop (encodeAll rs)) _ =
          (.ok (), w1) := hpass
      rw [exec_bind_of_ok hfst] at hins hsuccess
      rcases iterate_add_outcome (w := w1)
          (fun n => by rw [hpool]; exact hample n) hnamed (Nat.le_refl (encodeAll rs).length) with hok | hout
      · obtain ⟨vs,hvs⟩ := hsuccess hok
        rw [hvs]
        exact .written vs
      · exact absurd hout hins
    · rcases unpack_error hstop with href | rfl
      · exact .refused rs href
      obtain ⟨fuel,rfl⟩ : ∃ k, fuel = k+1 := ⟨fuel - 1, by
        have hpos := length_pos_iff.mpr hne
        omega⟩
      rw [iterateFrom_stop hne hstop] at hpass
      rw [exec_bind, iterateVariablesInBuffer, hpass] at hins
      exact absurd rfl hins
  · cases rs with
    | nil => exact absurd trivial hnamed
    | cons r rs =>
      have hname : r.name = [] := by
        by_contra hne
        exact hnamed (.inr hne)
      rw [encodeAll_cons, append_assoc]
      exact .unnamed r _ hname

def ReportsFailures {γ : Type} (callback : Callback γ) (vs : List Variable) (w : World γ) : Prop :=
  ∀ inst : Instance, inst.data = serialized vs →
    Succeeds (exec (serializeVariablesIterateInstanceVariables callback inst) w) →
      Succeeds (exec (visit callback vs) w)

theorem reportsFailures_iff (callback : Callback γ) (vs : List Variable) (w : World γ) :
    ReportsFailures callback vs w ↔ ¬ FailsAtLast callback vs w := by
  have hiterate {inst : Instance} (hdata : inst.data = serialized vs) :
      Succeeds (exec (serializeVariablesIterateInstanceVariables callback inst) w) ↔
        Succeeds (exec (visit callback vs) w) ∨ FailsAtLast callback vs w := by
    rw [iterateInstance_eq, hdata]
    exact iterateFrom_serialized vs _ none w le_rfl
  constructor
  · intro h hfails
    have hok := h ⟨serialized vs, 0⟩ rfl ((hiterate rfl).mpr (.inr hfails))
    exact visit_succeeds hok hfails
  · intro h inst hdata hok
    rcases (hiterate hdata).mp hok with hvisit | hfails
    · exact hvisit
    · exact absurd hfails h

/-- Variables come back as they were added; a byte string is loaded without reading outside, and only if it
is a list of variables, exactly when it is one, is refused at a length or starts with an empty name; and the
iteration reports a failed call back exactly when it is not the last that is the first to fail. -/
theorem serializedVariables_contract {γ : Type} (pool : Nat → Bool) (vs : List Variable) (b : Bytes)
    (callback : Callback γ) (w : World γ) :
    ((∀ n, pool n = true) → RoundTrips pool vs) ∧ (LoadsSafely b ↔ Loadable b) ∧
      (ReportsFailures callback vs w ↔ ¬ FailsAtLast callback vs w) :=
  ⟨fun hpool => roundTrips hpool vs, ⟨loadable_of_loadsSafely, loadsSafely_of_loadable⟩,
    reportsFailures_iff callback vs w⟩

/-- The variable `A` with one byte of data. -/
def variableA : Variable where
  name := [0x41]
  guid := replicate 16 0
  attributes := 7
  data := [0x5A]
  noNul := by decide
  guid_length := rfl
  name_lt := by decide
  data_lt := by decide

/-- The variable `B` without data. -/
def variableB : Variable where
  name := [0x42]
  guid := replicate 16 1
  attributes := 3
  data := []
  noNul := by decide
  guid_length := rfl
  name_lt := by decide
  data_lt := by decide

def refuseData : Callback Instance := fun e => if e.data = [] then pure () else fail .deviceError

/-- Two variables there and back, and a call back that refuses the first of them or the last. -/
theorem serializedVariables_contract_two : RoundTrips (fun _ => true) [variableA, variableB] ∧
    LoadsSafely (serialized [variableA, variableB]) ∧
      ReportsFailures refuseData [variableA, variableB] ampleWorld ∧
        ¬ ReportsFailures refuseData [variableB, variableA] ampleWorld := by
  have hcontract (vs : List Variable) :=
    serializedVariables_contract (fun _ => true) vs (serialized vs) refuseData ampleWorld
  have h := hcontract [variableA, variableB]
  refine ⟨h.1 fun _ => rfl, h.2.1.mpr (.written _), h.2.2.mpr ?_, mt (hcontract _).2.2.mp (not_not.mpr ?_)⟩
  · rintro ⟨status,w',hcall,-,hlast⟩
    cases hcall
    cases hlast
  · exact ⟨_, _, rfl, rfl, _, _, rfl, rfl, rfl⟩

/-- A call back that fails for the only variable is not reported, and a buffer of two bytes is read behind
its end. -/
theorem iterate_ignores_last : let refuse : Callback Instance := fun _ => fail .deviceError
    Succeeds (exec (serializeVariablesIterateInstanceVariables refuse ⟨serialized [variableA], 64⟩) ampleWorld) ∧
      (exec (visit refuse [variableA]) ampleWorld).1 = .error (.status .deviceError) ∧
      (exec (serializeVariablesNewInstanceFromBuffer [0, 0]) ampleWorld).1 = .error .outside := by
  refine ⟨?_, ?_, ?_⟩
  · rfl
  · rfl
  · rfl

section Set

variable {γ : Type} {setVariable : SetVariable γ}

/-- What `SetVariable` may return for the restoration to go on. -/
def Tolerated (e : Entry) (status : EfiStatus) : Prop :=
  (status = .securityViolation ∧ e.attributes &&& (EFI_VARIABLE_AUTHENTICATED_WRITE_ACCESS |||
    EFI_VARIABLE_TIME_BASED_AUTHENTICATED_WRITE_ACCESS) ≠ 0) ∨ status = .writeProtected ∨ status.isError = false

instance (e : Entry) (status : EfiStatus) : Decidable (Tolerated e status) :=
  inferInstanceAs (Decidable (_ ∨ _ ∨ _))

/-- The variables set one after the other, up to the first that is refused, which is reported unless it is the
last one. -/
def setAll (setVariable : SetVariable γ) : List Variable → γ → Except Stop Unit × γ
  | [], s => (.ok (), s)
  | v :: vs, s =>
    if Tolerated v.entry (setVariable v.entry s).1 then setAll setVariable vs (setVariable v.entry s).2
    else (if vs = [] then .ok () else .error (.status .invalidParameter), (setVariable v.entry s).2)

theorem statusOf_set (e : Entry) (w : World γ) :
    ∃ status, exec (statusOf (iterateVariablesCallbackSetSystemVariable setVariable e)) w =
      (.ok status, { w with user := (setVariable e w.user).2 }) ∧
        (status.isError = false ↔ Tolerated e (setVariable e w.user).1) := by
  rw [statusOf, exec_mk, iterateVariablesCallbackSetSystemVariable, exec_bind, exec_lift]
  dsimp only
  split_ifs with hauth hprotected herror
  · exact ⟨_, rfl, iff_of_true rfl (.inl hauth)⟩
  · exact ⟨_, rfl, iff_of_true rfl (.inr (.inl hprotected))⟩
  · exact ⟨_, rfl, by simp [Tolerated, hauth, hprotected]⟩
  · exact ⟨_, rfl, iff_of_true rfl (.inr (.inr (Bool.eq_false_iff.mpr herror)))⟩

theorem iterateFrom_set (vs : List Variable) {fuel : Nat} (aligned : Option Bytes) {w : World γ}
    (hample : Ample w) (hfuel : (serialized vs).length ≤ fuel) :
    (exec (iterateFrom (iterateVariablesCallbackSetSystemVariable setVariable) fuel aligned (serialized vs)) w).map
      id World.user = setAll setVariable vs w.user := by
  induction vs generalizing fuel aligned w with
  | nil =>
    rw [show serialized [] = [] from rfl, iterateFrom_nil]
    rfl
  | cons v vs ih =>
    rw [serialized_cons, length_append, v.record.length_encode] at hfuel
    obtain ⟨fuel,rfl⟩ : ∃ k, fuel = k+1 := ⟨fuel - 1, by omega⟩
    obtain ⟨status,hset,hiff⟩ := @statusOf_set γ setVariable v.entry { w with calls := w.calls+1 }
    rw [serialized_cons, iterateFrom_record, show v.record.name = ucs2 v.name from rfl,
      exec_bind_of_ok (alignName_copy (ucs2_ne_nil v.name) (hample _)),
      show v.record.entryAt (ucs2 v.name) = v.entry from rfl, exec_bind_of_ok hset, setAll]
    cases herror : status.isError with
    | false =>
      rw [if_pos (hiff.mp herror)]
      exact ih _ hample (by omega)
    | true =>
      rw [if_neg fun h => Bool.false_ne_true ((hiff.mpr h).symm.trans herror), if_pos rfl]
      by_cases hnil : vs = []
      · subst hnil
        rfl
      · simp [hnil, serialized_eq_nil, fail, Prod.map]

/-- Variables written out on one boot and read in on the next are set in their order. -/
theorem serializedVariables_restored (setVariable : SetVariable γ) (vs : List Variable) {pool : Nat → Bool}
    (hpool : ∀ n, pool n = true) (calls : Nat) (inst : Instance) (s : γ) : ∃ loaded : World Instance,
      exec (serializeVariablesNewInstanceFromBuffer (serialized vs)) ⟨pool, calls, inst⟩ = (.ok (), loaded) ∧
      (exec (serializeVariablesSetSerializedVariables setVariable loaded.user) ⟨pool, calls, s⟩).map id World.user =
        setAll setVariable vs s := by
  obtain ⟨loaded,hload,hdata⟩ := newInstanceFromBuffer_serialized vs (w := ⟨pool, calls, inst⟩) hpool
  refine ⟨loaded, hload, ?_⟩
  rw [serializeVariablesSetSerializedVariables, iterateInstance_eq, hdata]
  exact iterateFrom_set vs none hpool le_rfl

end Set

/-- A platform that protects the variables with data: the restoration goes on behind the first. -/
theorem serializedVariables_restored_two : ∃ loaded : World Instance,
    exec (serializeVariablesNewInstanceFromBuffer (serialized [variableA, variableB])) ⟨fun _ => true, 0, ⟨[], 0⟩⟩ =
      (.ok (), loaded) ∧ (exec (serializeVariablesSetSerializedVariables
        (fun e s => if e.data = [] then (.success, s ++ [e]) else (.writeProtected, s)) loaded.user)
          ⟨fun _ => true, 0, []⟩).map id World.user = (.ok (), [variableB.entry]) :=
  serializedVariables_restored _ [variableA, variableB] (fun _ => rfl) 0 ⟨[], 0⟩ []

end Liano.SerializeVariables
