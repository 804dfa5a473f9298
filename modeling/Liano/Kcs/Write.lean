import Liano.Kcs.Interface

/-! The write transfer: what stands on the interface after a transfer that reports success, and when that is
the whole message. -/
namespace Liano.Kcs

open List

open Lib (Fallible)
open Lib.Fallible

variable {σ : Type} {bmc : Bmc σ}

def transaction (data : List UInt8) : List Write :=
  .control KSC_CRTL_WRITE_START :: data.map .data ++ [.control KSC_CRTL_WRITE_END]

def afterWrite (current : Option (List Write)) (w : Write) : Option (List Write) :=
  if w = .control KSC_CRTL_WRITE_START then some [w]
  else if w = .control KSC_CRTL_ABORT then none
  else current.map (· ++ [w])

def openTransaction (ws : List Write) : Option (List Write) := ws.foldl afterWrite none

theorem openTransaction_append (ws vs : List Write) :
    openTransaction (ws ++ vs) = vs.foldl afterWrite (openTransaction ws) := foldl_append

theorem openTransaction_start (ws : List Write) :
    openTransaction (ws ++ [.control KSC_CRTL_WRITE_START]) = some [.control KSC_CRTL_WRITE_START] := by
  simp [openTransaction_append, afterWrite]

theorem openTransaction_end (ws : List Write) : openTransaction (ws ++ [.control KSC_CRTL_WRITE_END]) =
      (openTransaction ws).map (· ++ [.control KSC_CRTL_WRITE_END]) := by
  rw [openTransaction_append]
  rfl

theorem openTransaction_data (ws : List Write) (data : List UInt8) :
    openTransaction (ws ++ data.map .data) = (openTransaction ws).map (· ++ data.map .data) := by
  induction data generalizing ws with
  | nil => simp
  | cons byte data ih =>
    have hsplit : ws ++ (byte :: data).map .data = ws ++ [.data byte] ++ data.map .data := by simp
    rw [hsplit, ih, openTransaction_append]
    simp [afterWrite, Function.comp_def]

def Continues (w w' : World σ) : Prop :=
  ∃ vs, w'.written = w.written ++ vs ∧ .control KSC_CRTL_WRITE_START ∉ vs

theorem Continues.refl (w : World σ) : Continues w w := ⟨[], by simp, by simp⟩

theorem Continues.trans {a b c : World σ} (h : Continues a b) (h' : Continues b c) : Continues a c := by
  obtain ⟨vs,hvs,hn⟩ := h
  obtain ⟨us,hus,hm⟩ := h'
  refine ⟨vs ++ us, ?_, ?_⟩
  · rw [hus, hvs, append_assoc]
  · simp [hn, hm]

theorem Continues.bind {α β : Type} {x : Driver σ α} {f : α → Driver σ β} (hx : Ends x Continues)
    (hf : ∀ a, Ends (f a) Continues) : Ends (x >>= f) Continues := Ends.bind Continues.trans hx hf

theorem Continues.openTransaction_none {w w' : World σ} (h : Continues w w')
    (hn : openTransaction w.written = none) : openTransaction w'.written = none := by
  obtain ⟨vs,hvs,hstart⟩ := h
  rw [hvs, openTransaction_append, hn]
  clear hvs hn
  induction vs with
  | nil => rfl
  | cons v vs ih =>
    simp only [mem_cons, not_or] at hstart
    have hv : afterWrite none v = none := by
      unfold afterWrite
      rw [if_neg (Ne.symm hstart.1)]
      split <;> rfl
    rw [foldl_cons, hv]
    exact ih hstart.2

theorem readData_continues : Ends (readData bmc) Continues := fun w => ⟨[], by simp [readData], by simp⟩

theorem writeData_continues (byte : UInt8) : Ends (writeData bmc byte) Continues :=
  fun _ => ⟨[.data byte], rfl, by simp⟩

theorem writeControl_continues {byte : UInt8} (h : byte ≠ KSC_CRTL_WRITE_START) :
    Ends (writeControl bmc byte) Continues := fun _ => ⟨[.control byte], rfl, by simpa using Ne.symm h⟩

theorem waitFor_written (ready : UInt8 → Bool) (left : Nat) (w : World σ) :
    (exec (waitFor bmc ready left) w).2.written = w.written := by
  induction left generalizing w with
  | zero =>
    simp only [waitFor, readStatus, exec_bind, exec_lift]
    split <;> rfl
  | succ left ih =>
    simp only [waitFor, readStatus, exec_bind, exec_lift]
    split
    · rfl
    · split
      · rfl
      · exact ih _

theorem waitFor_continues (ready : UInt8 → Bool) (left : Nat) : Ends (waitFor bmc ready left) Continues :=
  fun w => ⟨[], by rw [waitFor_written, append_nil], by simp⟩

theorem clearObf_continues (status : UInt8) : Ends (clearObf bmc status) Continues := by
  unfold clearObf
  split
  · exact Continues.bind readData_continues fun _ => Continues.refl
  · exact Continues.refl

theorem kcsAbortAnswer_continues : Ends (kcsAbortAnswer bmc) Continues := by
  have hwait : Ends (waitForIbfFalse bmc) Continues := waitFor_continues _ _
  have hobf : Ends (waitForObfTrue bmc) Continues := waitFor_continues _ _
  refine Continues.bind hwait fun status => Continues.bind (clearObf_continues status) fun _ => ?_
  refine Continues.bind (writeData_continues 0) fun _ => Continues.bind hwait fun status => ?_
  split
  · refine Continues.bind hobf fun _ => Continues.bind readData_continues fun _ => ?_
    refine Continues.bind (writeData_continues _) fun _ => Continues.bind hwait fun status => ?_
    split
    · exact Continues.bind hobf fun _ => Continues.bind readData_continues fun _ => Continues.refl
    · exact Continues.refl
  · exact Continues.refl

theorem kcsErrorExitTurn_continues : Ends (kcsErrorExitTurn bmc) Continues := by
  have habort : KSC_CRTL_ABORT ≠ KSC_CRTL_WRITE_START := by decide
  have hwait : Ends (ignoring (waitForIbfFalse bmc)) Continues := waitFor_continues _ _
  exact Continues.bind hwait fun _ =>
    Continues.bind (writeControl_continues habort) fun _ => kcsAbortAnswer_continues

theorem kcsErrorExitTurn_drops (w : World σ) :
    openTransaction (exec (kcsErrorExitTurn bmc) w).2.written = none := by
  refine Continues.openTransaction_none (kcsAbortAnswer_continues _) ?_
  rw [openTransaction_append]
  rfl

theorem kcsErrorExitLoop_continues (left : Nat) : Ends (kcsErrorExitLoop bmc left) Continues := by
  induction left with
  | zero => exact Continues.refl
  | succ left ih =>
    refine Continues.bind kcsErrorExitTurn_continues fun idle => ?_
    split
    · exact Continues.refl
    · split
      · exact Continues.refl
      · exact ih

theorem drops_bind {α β : Type} {x : Driver σ α} {f : α → Driver σ β}
    (hx : ∀ w, openTransaction (exec x w).2.written = none) (hf : ∀ a, Ends (f a) Continues) (w : World σ) :
    openTransaction (exec (x >>= f) w).2.written = none := by
  have h1 := hx w
  rw [exec_bind]
  cases hr : exec x w with
  | mk r t =>
    rw [hr] at h1
    cases r with
    | ok a => exact (hf a t).openTransaction_none h1
    | error e => exact h1

theorem kcsErrorExit_drops (w : World σ) : openTransaction (exec (kcsErrorExit bmc) w).2.written = none := by
  refine drops_bind kcsErrorExitTurn_drops (fun idle => ?_) w
  split
  · exact Continues.refl
  · split
    · exact Continues.refl
    · exact kcsErrorExitLoop_continues 2

theorem kcsCheckStatus_continues : Ends (kcsCheckStatus bmc .write) Continues := by
  refine Continues.bind (waitFor_continues _ _) fun status => ?_
  split
  · exact Continues.bind readData_continues fun _ => Continues.refl
  · exact Continues.bind (kcsErrorExitLoop_continues 3) fun _ => Continues.refl

theorem sendBytes_continues (data : List UInt8) : Ends (sendBytes bmc data) Continues := by
  induction data with
  | nil => exact Continues.refl
  | cons byte data ih =>
    exact Continues.bind kcsCheckStatus_continues fun _ =>
      Continues.bind (writeData_continues byte) fun _ => ih

/-- The controller's next status with IBF clear says `WRITE_STATE`; `s'` follows the read of the data
register. -/
def AnswersWrite (bmc : Bmc σ) (s s' : σ) : Prop :=
  ∃ status t, Settles bmc (fun status => !ibf status) KCS_TIME_OUT_LIMIT s status t ∧
    stateOf status = .write ∧ s' = (bmc.readData t).2

/-- The controller is in `WRITE_STATE` at the check before each byte, and at the one before the end. -/
def StaysInWrite (bmc : Bmc σ) : σ → List UInt8 → Prop
  | s, [] => ∃ s', AnswersWrite bmc s s'
  | s, byte :: bytes => ∃ s', AnswersWrite bmc s s' ∧ StaysInWrite bmc (bmc.writeData byte s') bytes

theorem AnswersWrite.unique {s s' t : σ} (h : AnswersWrite bmc s s') (h' : AnswersWrite bmc s t) : s' = t := by
  obtain ⟨_,u,hsettles,-,rfl⟩ := h
  obtain ⟨_,u',hsettles',-,rfl⟩ := h'
  have hsame := (waitFor_of_settles (w := ⟨s, []⟩) hsettles).symm.trans (waitFor_of_settles hsettles')
  simp only [Prod.mk.injEq, World.mk.injEq, and_true] at hsame
  rw [hsame.2]

/-- A check that succeeds: the controller answered `WRITE_STATE`, or an error exit dropped the transaction. -/
theorem kcsCheckStatus_ok {w w' : World σ} {status : UInt8}
    (h : exec (kcsCheckStatus bmc .write) w = (.ok status, w')) :
    AnswersWrite bmc w.bmc w'.bmc ∧ w'.written = w.written ∨
      (∀ s', ¬ AnswersWrite bmc w.bmc s') ∧ openTransaction w'.written = none := by
  obtain ⟨st,t,hwait,hrest⟩ := exec_bind_ok.mp h
  obtain ⟨hsettles,hwr⟩ := waitFor_ok.mp hwait
  split at hrest
  · rename_i hst
    obtain ⟨_,u,hread,hpure⟩ := exec_bind_ok.mp hrest
    have hu : u = w' := congrArg Prod.snd hpure
    have hw : _ = u := congrArg Prod.snd hread
    subst hu hw
    exact .inl ⟨⟨st, t.bmc, hsettles, hst, rfl⟩, hwr⟩
  rename_i hst
  refine .inr ⟨?_, ?_⟩
  · rintro s' ⟨st',t',hsettles',hstate',-⟩
    have hsame := (waitFor_of_settles hsettles').symm.trans (waitFor_of_settles hsettles)
    simp only [Prod.mk.injEq, Except.ok.injEq] at hsame
    exact hst (hsame.1 ▸ hstate')
  · obtain ⟨_,u,hexit,hpure⟩ := exec_bind_ok.mp hrest
    have hu : u = w' := congrArg Prod.snd hpure
    have hdrop := @kcsErrorExit_drops _ bmc t
    rw [hexit, hu] at hdrop
    exact hdrop

/-- The bytes that were sent and the last check: all of them stand behind what was written before, or an
error exit dropped the transaction in between. -/
theorem sendBytes_ok {data : List UInt8} {w w' v : World σ} {status : UInt8}
    (h : exec (sendBytes bmc data) w = (.ok (), v))
    (hlast : exec (kcsCheckStatus bmc .write) v = (.ok status, w')) :
    StaysInWrite bmc w.bmc data ∧ w'.written = w.written ++ data.map .data ∨
      ¬ StaysInWrite bmc w.bmc data ∧ openTransaction w'.written = none := by
  induction data generalizing w with
  | nil =>
    have hv : w = v := congrArg Prod.snd h
    subst hv
    rcases kcsCheckStatus_ok hlast with ⟨hanswer,hwr⟩ | ⟨hnone,hdrop⟩
    · exact .inl ⟨⟨_, hanswer⟩, by simpa using hwr⟩
    · exact .inr ⟨fun ⟨s', hs'⟩ => hnone s' hs', hdrop⟩
  | cons byte data ih =>
    obtain ⟨st,t,hchk,hrest⟩ := exec_bind_ok.mp h
    have hsend : exec (sendBytes bmc data) ⟨bmc.writeData byte t.bmc, t.written ++ [.data byte]⟩ =
        (.ok (), v) := hrest
    rcases kcsCheckStatus_ok hchk with ⟨hanswer,hwr⟩ | ⟨hnone,hdrop⟩
    · rcases ih hsend with ⟨hstays,hw'⟩ | ⟨hleaves,hdrop⟩
      · refine .inl ⟨⟨_, hanswer, hstays⟩, ?_⟩
        rw [hw', hwr, map_cons, append_assoc]
        rfl
      refine .inr ⟨?_, hdrop⟩
      rintro ⟨s',hs',hstays⟩
      rw [hs'.unique hanswer] at hstays
      exact hleaves hstays
    · have htail : Continues t w' :=
        ((writeData_continues byte t).trans ((sendBytes_continues data).of_exec hsend)).trans
          (kcsCheckStatus_continues.of_exec hlast)
      exact .inr ⟨fun ⟨s', hs', _⟩ => hnone s' hs', htail.openTransaction_none hdrop⟩

/-- The controller when the first byte is about to be checked: the interface was free, the data register
has been read and the start written. -/
def Started (bmc : Bmc σ) (s s' : σ) : Prop :=
  ∃ status t, Settles bmc (fun status => !ibf status) KCS_TIME_OUT_LIMIT s status t ∧
    s' = bmc.writeControl KSC_CRTL_WRITE_START (bmc.readData t).2

/-- A transfer that reports success has written exactly one complete transaction with the whole message,
if and only if the controller was in `WRITE_STATE` at every check. -/
theorem kcsWriteDataToBmc_complete {data : List UInt8} {w w' : World σ}
    (h : exec (kcsWriteDataToBmc bmc data) w = (.ok (), w')) :
    openTransaction w'.written = some (transaction data) ↔
      ∃ s, Started bmc w.bmc s ∧ StaysInWrite bmc s data := by
  obtain ⟨st,t,hwait,h⟩ := exec_bind_ok.mp h
  obtain ⟨hsettles,-⟩ := waitFor_ok.mp hwait
  obtain ⟨_,v,hsend,h⟩ := exec_bind_ok.mp (show exec (sendBytes bmc data >>= _)
    ⟨bmc.writeControl KSC_CRTL_WRITE_START (bmc.readData t.bmc).2,
      t.written ++ [.control KSC_CRTL_WRITE_START]⟩ = _ from h)
  obtain ⟨_,u,hlast,hend⟩ := exec_bind_ok.mp h
  have hw' : u.written ++ [.control KSC_CRTL_WRITE_END] = w'.written := congrArg (fun r => r.2.written) hend
  rw [← hw', openTransaction_end]
  rcases sendBytes_ok hsend hlast with ⟨hstays,hwr⟩ | ⟨hleaves,hdrop⟩
  · refine iff_of_true ?_ ⟨_, ⟨st, t.bmc, hsettles, rfl⟩, hstays⟩
    rw [hwr, openTransaction_data, openTransaction_start]
    simp [transaction]
  · refine iff_of_false ?_ ?_
    · simp [hdrop]
    · rintro ⟨s,⟨st',t',hsettles',rfl⟩,hstays⟩
      have hsame := (waitFor_of_settles hsettles').symm.trans (waitFor_of_settles hsettles)
      simp only [Prod.mk.injEq, World.mk.injEq, and_true] at hsame
      rw [hsame.2] at hstays
      exact hleaves hstays

def scripted : Bmc (List UInt8) where
  readStatus s := (s.headD 0, s.tail)
  readData s := (0,s)
  writeControl _ s := s
  writeData _ s := s

/-- A message of two bytes, taken by a controller that stays in `WRITE_STATE`. -/
theorem kcsWriteDataToBmc_complete_two :
    openTransaction [.control 0x61, .data 0x18, .data 0x01, .control 0x62] = some (transaction [0x18, 0x01]) ↔
      ∃ s, Started scripted [0x00, 0x80, 0x82, 0x80, 0x80] s ∧ StaysInWrite scripted s [0x18, 0x01] :=
  kcsWriteDataToBmc_complete (show exec (kcsWriteDataToBmc scripted [0x18, 0x01])
    ⟨[0x00, 0x80, 0x82, 0x80, 0x80], []⟩ =
      (.ok (), ⟨[], [.control 0x61, .data 0x18, .data 0x01, .control 0x62]⟩) from rfl)

/-- The controller goes to `ERROR_STATE` after the second byte and is brought back to idle; the transfer
writes its end all the same and reports success. -/
theorem kcsWriteDataToBmc_after_abort :
    let run := exec (kcsWriteDataToBmc scripted [0x18, 0x01])
      ⟨[0x00, 0x80, 0x80, 0xC0, 0x00, 0x00, 0x40, 0x41, 0x00, 0x01], []⟩
    run.1.toBool = true ∧
      run.2.written = [.control 0x61, .data 0x18, .data 0x01, .control 0x60, .data 0, .data 0x68,
        .control 0x62] ∧ openTransaction run.2.written ≠ some (transaction [0x18, 0x01]) := by
  decide +kernel

end Liano.Kcs
