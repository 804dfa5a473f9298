import Liano.SerializeVariables.Adding

/-! The iteration over records: what it calls back for, when it stops, and when it reports success. -/
namespace Liano.SerializeVariables

open List

open Bytes
open Lib (Fallible)
open Lib.Fallible

variable {γ : Type} {callback : Callback γ}

def Record.entryAt (r : Record) (block : Bytes) : Entry := ⟨block, r.guid, r.attributes, r.data⟩

theorem Record.encode_ne_nil (r : Record) : r.encode ≠ [] := by
  intro h
  have hlen := r.length_encode
  rw [h, length_nil] at hlen
  omega

variable {x : Service γ Unit} {w w' : World γ} {aligned : Option Bytes} {vs : List Variable}

theorem statusOf_ok (h : exec x w = (.ok (), w')) : exec (statusOf x) w = (.ok .success, w') := by
  rw [statusOf, exec_mk, h]

theorem statusOf_status {s : EfiStatus}
    (h : exec x w = (.error (.status s), w')) : exec (statusOf x) w = (.ok s, w') := by
  rw [statusOf, exec_mk, h]

theorem statusOf_outside (h : exec x w = (.error .outside, w')) :
    exec (statusOf x) w = (.error .outside, w') := by
  rw [statusOf, exec_mk, h]

theorem iterateFrom_record (fuel : Nat) (aligned : Option Bytes) (r : Record) (t : Bytes) :
    iterateFrom callback (fuel+1) aligned (r.encode ++ t) = (do
      let block ← alignName aligned r.name let status ← statusOf (callback (r.entryAt block))
      if status.isError then
        if t = [] then pure () else fail .invalidParameter
      else iterateFrom callback fuel (some block) t) := by
  have hne : r.encode ++ t ≠ [] := by simp [r.encode_ne_nil]
  rw [iterateFrom, if_neg hne, unpack_encode]
  simp only [ofExcept, pure_bind, drop_left]
  rfl

theorem iterateFrom_nil (fuel : Nat) (aligned : Option Bytes) :
    iterateFrom callback fuel aligned [] = pure () := by
  cases fuel with
  | zero => rfl
  | succ fuel => rw [iterateFrom, if_pos rfl]

theorem iterateFrom_stop {fuel : Nat} {t : Bytes} {e : Stop} (hne : t ≠ [])
    (h : unpackVariableFromBuffer t = .error e) (w : World γ) :
    exec (iterateFrom callback (fuel+1) aligned t) w = (.error e, w) := by
  rw [iterateFrom, if_neg hne, h]
  rfl

theorem alignName_copy {name : Bytes} (h : name ≠ []) (hpool : w.pool w.calls = true) :
    exec (alignName aligned name) w = (.ok name, { w with calls := w.calls + 1 }) := by
  have hlen : name.length > 0 := length_pos_iff.mpr h
  simp [alignName, hlen, allocatePool, exec_bind, hpool]

theorem alignName_fails {name : Bytes} (h : name ≠ []) (hpool : w.pool w.calls = false) :
    exec (alignName aligned name) w =
      (.error (.status .outOfResources), { w with calls := w.calls + 1 }) := by
  have hlen : name.length > 0 := length_pos_iff.mpr h
  simp [alignName, hlen, allocatePool, fail, exec_bind, hpool]

theorem alignName_empty (block : Bytes) (w : World γ) :
    exec (alignName (some block) []) w = (.ok block, w) := rfl

theorem alignName_none (w : World γ) :
    exec (alignName none []) w = (.error (.status .outOfResources), w) := rfl

def visit (callback : Callback γ) : List Variable → Service γ Unit
  | [] => pure ()
  | v :: vs => do
      let block ← alignName none (ucs2 v.name)
      let status ← statusOf (callback (v.record.entryAt block))
      if status.isError then fail status else visit callback vs

def FailsAtLast (callback : Callback γ) : List Variable → World γ → Prop
  | [], _ => False
  | v :: vs, w => ∃ status w',
      exec (statusOf (callback v.entry)) { w with calls := w.calls + 1 } = (.ok status, w') ∧
        w.pool w.calls = true ∧ if status.isError then vs = [] else FailsAtLast callback vs w'

theorem ucs2_ne_nil (name : List UInt16) : ucs2 name ≠ [] := by
  intro h
  have hlen := length_ucs2 name
  rw [h, length_nil] at hlen
  omega

theorem serialized_cons (v : Variable) (vs : List Variable) :
    serialized (v :: vs) = v.record.encode ++ serialized vs := rfl

theorem serialized_eq_nil : serialized vs = [] ↔ vs = [] := by
  cases vs with
  | nil => exact iff_of_true rfl rfl
  | cons v vs => simp [serialized_cons, v.record.encode_ne_nil]

/-- `EFI_SUCCESS`. -/
def Succeeds (r : Except Stop Unit × World γ) : Prop := r.1 = .ok ()

theorem not_succeeds_error (e : Stop) (w : World γ) : ¬ Succeeds (.error e, w) := by
  intro h
  cases h

theorem visit_cons_of_pool {v : Variable} (h : w.pool w.calls = true) :
    exec (visit callback (v :: vs)) w = exec (statusOf (callback v.entry) >>= fun status =>
        if status.isError then fail status else visit callback vs) { w with calls := w.calls + 1 } :=
  exec_bind_of_ok (alignName_copy (ucs2_ne_nil v.name) h)

theorem visit_succeeds (h : Succeeds (exec (visit callback vs) w)) : ¬ FailsAtLast callback vs w := by
  induction vs generalizing w with
  | nil => exact id
  | cons v vs ih =>
    rintro ⟨status,w',hcall,hpool,hrest⟩
    rw [visit_cons_of_pool hpool, exec_bind_of_ok hcall] at h
    split at hrest
    · rename_i herror
      rw [if_pos herror] at h
      cases h
    · rename_i herror
      rw [if_neg herror] at h
      exact ih h hrest

/-- The iteration reports success when every call back succeeds, and when only the last one fails. -/
theorem iterateFrom_serialized (vs : List Variable) (fuel : Nat) (aligned : Option Bytes) (w : World γ)
    (hfuel : (serialized vs).length ≤ fuel) :
    Succeeds (exec (iterateFrom callback fuel aligned (serialized vs)) w) ↔
      Succeeds (exec (visit callback vs) w) ∨ FailsAtLast callback vs w := by
  induction vs generalizing fuel aligned w with
  | nil =>
    rw [show serialized [] = [] from rfl, iterateFrom_nil]
    exact iff_of_true rfl (.inl rfl)
  | cons v vs ih =>
    rw [serialized_cons, length_append, v.record.length_encode] at hfuel
    obtain ⟨fuel,rfl⟩ : ∃ k, fuel = k+1 := ⟨fuel - 1, by omega⟩
    rw [serialized_cons, iterateFrom_record]
    cases hpool : w.pool w.calls with
    | false =>
      have hvisit : ¬ Succeeds (exec (visit callback (v :: vs)) w) := by
        rw [visit, exec_bind, alignName_fails (ucs2_ne_nil v.name) hpool]
        intro h
        cases h
      refine iff_of_false ?_ (not_or.mpr ⟨hvisit, ?_⟩)
      · rw [exec_bind, show v.record.name = ucs2 v.name from rfl, alignName_fails (ucs2_ne_nil v.name) hpool]
        intro h
        cases h
      · rintro ⟨_,_,_,htrue,_⟩
        rw [hpool] at htrue
        cases htrue
    | true =>
      rw [visit_cons_of_pool hpool, show v.record.name = ucs2 v.name from rfl,
        exec_bind_of_ok (alignName_copy (ucs2_ne_nil v.name) hpool)]
      change Succeeds (exec (statusOf (callback v.entry) >>= _) _) ↔ _
      cases hcall : exec (statusOf (callback v.entry)) { w with calls := w.calls + 1 } with
      | mk result w' =>
        cases result with
        | error e =>
          rw [exec_bind, exec_bind, hcall]
          refine iff_of_false (not_succeeds_error e w') (not_or.mpr ⟨not_succeeds_error e w', ?_⟩)
          rintro ⟨status,w'',hok,-⟩
          rw [hcall] at hok
          cases congrArg Prod.fst hok
        | ok status =>
          have hlast : FailsAtLast callback (v :: vs) w ↔
              if status.isError then vs = [] else FailsAtLast callback vs w' := by
            constructor
            · rintro ⟨status',w'',hok,-,h⟩
              rw [hcall] at hok
              cases hok
              exact h
            · intro h
              exact ⟨status, w', hcall, hpool, h⟩
          rw [exec_bind_of_ok hcall, exec_bind_of_ok hcall, hlast]
          cases herror : status.isError with
          | true =>
            simp only [if_true, serialized_eq_nil]
            by_cases hnil : vs = []
            · rw [if_pos hnil]
              exact iff_of_true rfl (.inr hnil)
            · rw [if_neg hnil]
              exact iff_of_false (not_succeeds_error _ w') (not_or.mpr ⟨not_succeeds_error _ w', hnil⟩)
          | false => exact ih fuel _ w' (by omega)

end Liano.SerializeVariables
