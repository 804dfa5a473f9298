import Liano.SerializeVariables.Instance

/-! What one `SerializeVariablesAddVariable` does to an instance. -/
namespace Liano.SerializeVariables

open List

open Bytes
open Lib (Fallible)
open Lib.Fallible

variable {n : Nat} {e : Entry}

theorem strSize_le {b : Bytes} (h : strSize b = .ok n) : n ≤ b.length := by
  fun_induction strSize b generalizing n with
  | case1 low high rest _ =>
    cases h
    simp
  | case2 low high rest _ m hm ih =>
    cases h
    simpa using ih hm
  | case3 low high rest _ e he ih => cases h
  | case4 b hb => cases h

theorem strSize_outside {b : Bytes} {e : Stop} (h : strSize b = .error e) : e = .outside := by
  fun_induction strSize b with
  | case1 low high rest _ => cases h
  | case2 low high rest _ m hm ih => cases h
  | case3 low high rest _ e' he ih =>
    cases h
    exact ih he
  | case4 b hb =>
    cases h
    rfl

def addedBytes (e : Entry) (n : Nat) : Bytes :=
  leBytes 4 (n % 2^32) ++ e.name.take (n % 2^32) ++ e.guid ++ leBytes 4 e.attributes.toNat ++
    leBytes 4 (e.data.length % 2^32) ++ e.data

theorem length_addedBytes (hn : n ≤ e.name.length) (hguid : e.guid.length = 16) :
    (addedBytes e n).length = 4 + n % 2^32 + 16 + 4 + 4 + e.data.length := by
  have htake : (e.name.take (n % 2^32)).length = n % 2^32 := by
    rw [length_take]
    exact min_eq_left (le_trans (Nat.mod_le _ _) hn)
  simp only [addedBytes, length_append, length_leBytes, htake, hguid]

theorem appendToBuffer_fits {w : World Instance} {bytes : Bytes}
    (h : w.user.data.length+bytes.length ≤ w.user.bufferSize) : exec (appendToBuffer bytes) w =
      (.ok (), { w with user := { w.user with data := w.user.data ++ bytes } }) := by
  simp [appendToBuffer, instanceOf, setInstance, exec_bind, if_pos h]

theorem appends_fit {w : World Instance}
    (h : w.user.data.length + (addedBytes e n).length ≤ w.user.bufferSize) : exec (do
      appendToBuffer (leBytes 4 (n % 2^32))
      appendToBuffer (e.name.take (n % 2^32))
      appendToBuffer e.guid
      appendToBuffer (leBytes 4 e.attributes.toNat)
      appendToBuffer (leBytes 4 (e.data.length % 2^32))
      appendToBuffer e.data) w =
    (.ok (), { w with user := { w.user with data := w.user.data ++ addedBytes e n } }) := by
  simp only [addedBytes, length_append] at h
  rw [exec_bind_of_ok (appendToBuffer_fits (by omega)),
    exec_bind_of_ok (appendToBuffer_fits (by simp only [length_append]; omega)),
    exec_bind_of_ok (appendToBuffer_fits (by simp only [length_append]; omega)),
    exec_bind_of_ok (appendToBuffer_fits (by simp only [length_append]; omega)),
    exec_bind_of_ok (appendToBuffer_fits (by simp only [length_append]; omega)),
    appendToBuffer_fits (by simp only [length_append]; omega)]
  simp only [addedBytes, append_assoc]

theorem ensureExtraBufferSpace_spec (w : World Instance) (size : Nat) :
    (∃ w', exec (ensureExtraBufferSpace size) w = (.ok (), w') ∧ w'.user.data = w.user.data ∧
        w'.pool = w.pool ∧ w.user.data.length+size ≤ w'.user.bufferSize) ∨
      ∃ w', exec (ensureExtraBufferSpace size) w = (.error (.status .outOfResources), w') ∧
        w'.pool = w.pool ∧ w.pool w.calls = false := by
  by_cases hfits : w.user.data.length+size ≤ w.user.bufferSize
  · refine .inl ⟨w, ?_, rfl, rfl, hfits⟩
    simp [ensureExtraBufferSpace, instanceOf, exec_bind, if_pos hfits]
  cases hpool : w.pool w.calls with
  | true =>
    refine .inl ⟨{ w with
      calls := w.calls+1
      user := { w.user with bufferSize := 2 * (w.user.data.length+size) } }, ?_, rfl, rfl, ?_⟩
    · simp [ensureExtraBufferSpace, instanceOf, allocatePool, setInstance, exec_bind, if_neg hfits,
        hpool]
    · dsimp only
      omega
  | false =>
    refine .inr ⟨{ w with calls := w.calls + 1 }, ?_, rfl, rfl⟩
    simp [ensureExtraBufferSpace, instanceOf, allocatePool, fail, exec_bind, if_neg hfits, hpool]

/-- An entry whose name ends inside its copy is added, unless the pool has no room for it. -/
theorem addVariable_spec (hsize : strSize e.name = .ok n) (hguid : e.guid.length = 16)
    (w : World Instance) : (∃ w', exec (serializeVariablesAddVariable e) w = (.ok (), w') ∧
        w'.user.data = w.user.data ++ addedBytes e n ∧ w'.pool = w.pool) ∨
      ∃ w', exec (serializeVariablesAddVariable e) w = (.error (.status .outOfResources), w') ∧
        w'.pool = w.pool ∧ w.pool w.calls = false := by
  have hlen := length_addedBytes (strSize_le hsize) hguid
  have hstart : exec (serializeVariablesAddVariable e) w =
      exec (ensureExtraBufferSpace (4 + n % 2^32 + 16 + 4 + 4 + e.data.length) >>= fun _ => do
        appendToBuffer (leBytes 4 (n % 2^32))
        appendToBuffer (e.name.take (n % 2^32))
        appendToBuffer e.guid
        appendToBuffer (leBytes 4 e.attributes.toNat)
        appendToBuffer (leBytes 4 (e.data.length % 2^32))
        appendToBuffer e.data) w := by
    rw [serializeVariablesAddVariable, hsize]
    rfl
  rw [hstart]
  rcases ensureExtraBufferSpace_spec w (4 + n % 2^32 + 16 + 4 + 4 + e.data.length) with
    ⟨w1, hroom, hdata, hpool, hfits⟩ | ⟨w1, hfail, hpool, hcall⟩
  · refine .inl ⟨_, (exec_bind_of_ok hroom).trans (appends_fit ?_), ?_, hpool⟩
    · rw [hdata, hlen]
      exact hfits
    · rw [hdata]
  · refine .inr ⟨w1, ?_, hpool, hcall⟩
    rw [exec_bind, hfail]

theorem addVariable_outside {s : Stop} (h : strSize e.name = .error s) (w : World Instance) :
    exec (serializeVariablesAddVariable e) w = (.error .outside, w) := by
  rw [serializeVariablesAddVariable, h, strSize_outside h]
  rfl

theorem addedBytes_entry (v : Variable) : addedBytes v.entry (ucs2 v.name).length = v.record.encode := by
  have hname : (ucs2 v.name).length % 2^32 = (ucs2 v.name).length := Nat.mod_eq_of_lt v.record.name_lt
  have hdata : v.data.length % 2^32 = v.data.length := Nat.mod_eq_of_lt v.data_lt
  simp only [addedBytes, Variable.entry, Record.encode, Variable.record, hname, hdata, take_length]

end Liano.SerializeVariables
