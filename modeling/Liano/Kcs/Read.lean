import Liano.Kcs.Interface
import Mathlib.Logic.Function.Basic

/-! The read transfer and the command that uses it: where in the buffer the bytes of a response end up. -/
namespace Liano.Kcs
open Lib (Fallible)
open Lib.Fallible

abbrev Buffer := Nat → UInt8

section Transfer

variable {σ : Type} (bmc : Bmc σ)

/-- The loop of `KcsReadDataFromBmc`; `none` when the fuel runs out. The index goes up at the store and
again at the end of the turn. -/
def readBytes (dataSize : UInt8) : Nat → UInt8 → Buffer → Driver σ (Option Buffer)
  | 0, _, _ => pure none
  | fuel+1, i, data =>
    if i < dataSize then do
      writeData bmc KSC_CRTL_READ
      let status ← kcsCheckStatus bmc .read
      if stateOf status = .idle then pure (some data)
      else
        let byte ← readData bmc
        readBytes dataSize fuel (i+1+1) (Function.update data i.toNat byte)
    else pure (some data)

def kcsReadDataFromBmc (fuel : Nat) (data : Buffer) (dataSize : UInt8) : Driver σ (Option Buffer) := do
  let _ ← waitForIbfFalse bmc
  readBytes bmc dataSize fuel 0 data

end Transfer

def KCS_REQUEST_HEADER_SIZE : UInt8 := 2
def KCS_RESPONSE_HEADER_SIZE : UInt8 := 3
def IPMI_KCS_LUN : UInt8 := 0

/-- `KSC_RQ`; no data is a `NULL` pointer. -/
structure KscRq where
  netFn : UInt8
  cmd : UInt8
  data : Option Buffer
  dataSize : UInt8

/-- What `IpmiKcsCmd` uses of the caller's `KSC_RS`: whether its `Data` pointer is set, and its `RsData`. -/
structure KscRs where
  hasData : Bool
  rsData : Buffer
  dataSize : UInt8

/-- The two messages of the instance, as bytes: two of header and the data, and three of header and the data. -/
structure Instance where
  request : Buffer
  response : Buffer

def Instance.putRequest (inst : Instance) (rq : KscRq) (data : Option Buffer) : Buffer := fun i =>
  if i = 0 then IPMI_KCS_LUN ||| rq.netFn <<< 2
  else if i = 1 then rq.cmd
  else match data with
    | some d => if i-2 < rq.dataSize.toNat then d (i-2) else inst.request i
    | none => inst.request i

def completionCode (response : Buffer) : UInt8 := response 2

def KscRs.put (rs : KscRs) (response : Buffer) : KscRs := { rs with
    hasData := true
    rsData := fun i => if i < rs.dataSize.toNat then response (3+i) else rs.rsData i }

section Command

variable {σ : Type} (bmc : Bmc σ)

def exchange (fuel : Nat) (inst : Instance) (rq : KscRq) (rs : KscRs) :
    Driver σ (Option (Instance × KscRs)) := do
  let requestSize := rq.dataSize+KCS_REQUEST_HEADER_SIZE
  kcsWriteDataToBmc bmc ((List.range requestSize.toNat).map inst.request)
  match ← kcsReadDataFromBmc bmc fuel inst.response (rs.dataSize+KCS_RESPONSE_HEADER_SIZE) with
  | none => pure none
  | some response =>
    if rs.dataSize > 0 ∧ completionCode response = 0 then
      if rs.hasData then pure (some ({ inst with response := response }, rs.put response))
      else throw .invalidParameter
    else pure (some ({ inst with response := response }, rs))

def ipmiKcsCmd (fuel : Nat) (inst : Instance) (rq : KscRq) (rs : KscRs) :
    Driver σ (Option (Instance × KscRs)) := if rq.dataSize > 0 then
    match rq.data with
    | none => throw .invalidParameter
    | some d => exchange bmc fuel { inst with request := inst.putRequest rq (some d) } rq rs
  else exchange bmc fuel { inst with request := inst.putRequest rq none } rq rs

end Command

variable {σ : Type} {bmc : Bmc σ}

/-- After a control byte the controller clears IBF and then sets OBF, both within the time-outs, in the
given state. -/
def AnswersWith (bmc : Bmc σ) (s : σ) (state : KcsState) (s' : σ) : Prop :=
  ∃ st t st', Settles bmc (fun status => !ibf status) KCS_TIME_OUT_LIMIT s st t ∧
    (stateOf st = .read ∨ stateOf st = .idle) ∧
    Settles bmc obf KCS_TIME_OUT_LIMIT t st' s' ∧ stateOf st' = state

/-- For each `READ` the controller presents the next byte in `READ_STATE`, and after the last it goes to
`IDLE_STATE`. -/
inductive Presents (bmc : Bmc σ) : σ → List UInt8 → Prop
  | idle {s s' : σ} : AnswersWith bmc (bmc.writeData KSC_CRTL_READ s) .idle s' → Presents bmc s []
  | byte {s s' t : σ} {byte : UInt8} {rest : List UInt8} :
      AnswersWith bmc (bmc.writeData KSC_CRTL_READ s) .read s' → bmc.readData s' = (byte,t) →
      Presents bmc t rest → Presents bmc s (byte :: rest)

def Responds (bmc : Bmc σ) (s : σ) (response : List UInt8) : Prop :=
  ∃ st t, Settles bmc (fun status => !ibf status) KCS_TIME_OUT_LIMIT s st t ∧ Presents bmc t response

def StartsWith (data : Buffer) (response : List UInt8) : Prop :=
  ∀ (j : Nat) (h : j < response.length), data j = response[j]

def Delivers (bmc : Bmc σ) (w : World σ) (dataSize : UInt8) (response : List UInt8) : Prop :=
  ∀ data, ∃ fuel data' w',
    exec (kcsReadDataFromBmc bmc fuel data dataSize) w = (.ok (some data'), w') ∧ StartsWith data' response

def HandsOver (bmc : Bmc σ) (w : World σ) (rq : KscRq) (rs : KscRs) (response : List UInt8) : Prop :=
  ∀ inst, ∃ fuel inst' rs' w', exec (ipmiKcsCmd bmc fuel inst rq rs) w = (.ok (some (inst',rs')), w') ∧
      StartsWith inst'.response response

theorem kcsCheckStatus_of_answers {s s' : σ} (ws : List Write) {state : KcsState}
    (h : AnswersWith bmc s state s') :
    ∃ status, stateOf status = state ∧ exec (kcsCheckStatus bmc .read) ⟨s, ws⟩ = (.ok status, ⟨s', ws⟩) := by
  obtain ⟨st,t,st',hibf,hst,hobf,rfl⟩ := h
  refine ⟨st', rfl, (exec_bind_of_ok (waitFor_of_settles (w := ⟨s, ws⟩) hibf)).trans ?_⟩
  rw [if_pos hst]
  exact waitFor_of_settles (w := ⟨t, ws⟩) hobf

theorem readBytes_idle (dataSize i : UInt8) (fuel : Nat) (data : Buffer) {s : σ} (ws : List Write)
    (h : Presents bmc s []) : ∃ w', exec (readBytes bmc dataSize (fuel+1) i data) ⟨s, ws⟩ =
      (.ok (some data), w') := by
  unfold readBytes
  split
  · cases h with
    | @idle _ s' hanswer =>
      obtain ⟨status,hidle,hchk⟩ := kcsCheckStatus_of_answers (ws ++ [.data KSC_CRTL_READ]) hanswer
      refine ⟨⟨s', ws ++ [.data KSC_CRTL_READ]⟩, ?_⟩
      refine (exec_bind_of_ok (exec_writeData bmc _ _)).trans ((exec_bind_of_ok hchk).trans ?_)
      rw [if_pos hidle]
      rfl
  · exact ⟨_, rfl⟩

variable {dataSize : UInt8} {fuel j : Nat} {w w' : World σ}

theorem readBytes_byte {i byte : UInt8} (fuel : Nat) (data : Buffer) {s : σ} (ws : List Write)
    {rest : List UInt8} (h : Presents bmc s (byte :: rest)) (hi : i < dataSize) :
    ∃ t ws', Presents bmc t rest ∧ exec (readBytes bmc dataSize (fuel+1) i data) ⟨s, ws⟩ =
      exec (readBytes bmc dataSize fuel (i+1+1) (Function.update data i.toNat byte)) ⟨t, ws'⟩ := by
  cases h with
  | byte hanswer hread hrest =>
    obtain ⟨status,hst,hchk⟩ := kcsCheckStatus_of_answers (ws ++ [.data KSC_CRTL_READ]) hanswer
    refine ⟨_, ws ++ [.data KSC_CRTL_READ], hrest, ?_⟩
    have hne : stateOf status ≠ .idle := by
      rw [hst]
      decide
    rw [readBytes, if_pos hi]
    refine (exec_bind_of_ok (exec_writeData bmc _ _)).trans ((exec_bind_of_ok hchk).trans ?_)
    rw [if_neg hne, exec_bind, exec_readData, hread]

theorem readBytes_odd {i : UInt8} {data data' : Buffer} (hi : i.toNat % 2 = 0) (hj : j % 2 = 1)
    (h : exec (readBytes bmc dataSize fuel i data) w = (.ok (some data'), w')) : data' j = data j := by
  induction fuel generalizing i data w with
  | zero => cases congrArg Prod.fst h
  | succ fuel ih =>
    unfold readBytes at h
    split at h
    · obtain ⟨_,_,-,h⟩ := exec_bind_ok.mp h
      obtain ⟨status,_,-,h⟩ := exec_bind_ok.mp h
      split at h
      · cases congrArg Prod.fst h
        rfl
      obtain ⟨byte,_,-,h⟩ := exec_bind_ok.mp h
      have hnext : (i+1+1).toNat % 2 = 0 := by
        simp only [UInt8.toNat_add, UInt8.toNat_one]
        omega
      rw [ih hnext h, Function.update_of_ne]
      rintro rfl
      omega
    · cases congrArg Prod.fst h
      rfl

theorem kcsReadDataFromBmc_odd {data data' : Buffer}
    (hj : j % 2 = 1) (h : exec (kcsReadDataFromBmc bmc fuel data dataSize) w = (.ok (some data'), w')) :
    data' j = data j := by
  obtain ⟨_,_,-,h⟩ := exec_bind_ok.mp h
  exact readBytes_odd rfl hj h

section
variable {inst inst' : Instance} {rq : KscRq} {rs rs' : KscRs} (hj : j % 2 = 1)
include hj

theorem exchange_odd (h : exec (exchange bmc fuel inst rq rs) w = (.ok (some (inst',rs')), w')) :
    inst'.response j = inst.response j := by
  simp only [exchange, exec_bind_ok] at h
  obtain ⟨_,_,-,read,_,hread,h⟩ := h
  cases read with
  | none => cases congrArg Prod.fst h
  | some response =>
    have hkept := kcsReadDataFromBmc_odd hj hread
    dsimp only at h
    split at h
    · split at h
      · cases congrArg Prod.fst h
        exact hkept
      · cases congrArg Prod.fst h
    · cases congrArg Prod.fst h
      exact hkept

theorem ipmiKcsCmd_odd (h : exec (ipmiKcsCmd bmc fuel inst rq rs) w = (.ok (some (inst',rs')), w')) :
    inst'.response j = inst.response j := by
  unfold ipmiKcsCmd at h
  split at h
  · split at h
    · cases congrArg Prod.fst h
    · have hkept := exchange_odd hj h
      exact hkept
  · have hkept := exchange_odd hj h
    exact hkept

end

theorem delivers_of_short {response : List UInt8}
    (hresponds : Responds bmc w.bmc response) (hfits : response.length ≤ dataSize.toNat)
    (hshort : response.length ≤ 1) : Delivers bmc w dataSize response := by
  obtain ⟨st,t,hwait,hpresents⟩ := hresponds
  intro data
  have hstart (fuel : Nat) : exec (kcsReadDataFromBmc bmc fuel data dataSize) w =
      exec (readBytes bmc dataSize fuel 0 data) ⟨t, w.written⟩ := exec_bind_of_ok (waitFor_of_settles hwait)
  match response, hshort with
  | [], _ =>
    obtain ⟨w',hw'⟩ := readBytes_idle dataSize 0 0 data w.written hpresents
    refine ⟨1, data, w', (hstart 1).trans hw', ?_⟩
    intro j hj
    exact absurd hj (Nat.not_lt_zero j)
  | [byte], _ =>
    have hi : (0 : UInt8) < dataSize := by
      rw [UInt8.lt_iff_toNat_lt]
      exact hfits
    obtain ⟨s,ws,hrest,hturn⟩ := readBytes_byte 1 data w.written hpresents hi
    obtain ⟨w',hw'⟩ := readBytes_idle dataSize (0+1+1) 0
      (Function.update data (0 : UInt8).toNat byte) ws hrest
    refine ⟨2, _, w', (hstart 2).trans (hturn.trans hw'), ?_⟩
    intro j hj
    have hj0 : j = 0 := by simpa using hj
    subst hj0
    rfl

theorem exists_not_startsWith (response : List UInt8) (h : 1 < response.length) :
    ∃ data : Buffer, ∀ data' : Buffer, data' 1 = data 1 → ¬ StartsWith data' response := by
  have hne (byte : UInt8) : byte+1 ≠ byte := by simp
  refine ⟨fun _ => (response[1] : UInt8) + 1, fun data' hkept hstart => ?_⟩
  exact hne _ (hkept.symm.trans (hstart 1 h))

/-- The read transfer delivers the response of a controller that keeps to the handshake if and only if the
response has at most one byte, and the command never hands over a response with its three header bytes. -/
theorem kcsReadDataFromBmc_delivers {σ : Type} (bmc : Bmc σ) (w : World σ) (response : List UInt8)
    (dataSize : UInt8) (rq : KscRq) (rs : KscRs) :
    (Responds bmc w.bmc response → response.length ≤ dataSize.toNat →
        (Delivers bmc w dataSize response ↔ response.length ≤ 1)) ∧
      (3 ≤ response.length → ¬ HandsOver bmc w rq rs response) := by
  refine ⟨fun hresponds hfits => ?_, fun hlen hhands => ?_⟩
  · refine ⟨fun hdelivers => ?_, delivers_of_short hresponds hfits⟩
    by_contra hlong
    obtain ⟨data,hdata⟩ := exists_not_startsWith response (by omega)
    obtain ⟨fuel,data',w',hrun,hstart⟩ := hdelivers data
    exact hdata data' (kcsReadDataFromBmc_odd rfl hrun) hstart
  · obtain ⟨data,hdata⟩ := exists_not_startsWith response (by omega)
    obtain ⟨fuel,inst',rs',w',hrun,hstart⟩ := hhands ⟨data, data⟩
    exact hdata inst'.response (ipmiKcsCmd_odd rfl hrun) hstart

def answering : Bmc (List UInt8) where
  readStatus s := (if s.isEmpty then 0x01 else 0x41, s)
  readData s := (s.headD 0, s.tail)
  writeControl _ s := s
  writeData _ s := s

theorem answering_settles {ready : UInt8 → Bool} {s : List UInt8} {status : UInt8}
    (hst : answering.readStatus s = (status,s)) (hne : status ≠ KSC_STATUS_UNSPECIFIED_ERROR)
    (hready : ready status = true) : Settles answering ready KCS_TIME_OUT_LIMIT s status s := by
  have hlim : KCS_TIME_OUT_LIMIT = 99999+1 := rfl
  rw [hlim]
  exact .now hst hne hready

theorem answering_presents (response : List UInt8) : Presents answering response response := by
  induction response with
  | nil =>
    have hanswer : AnswersWith answering [] .idle [] :=
      ⟨0x01, [], 0x01, answering_settles rfl (by decide) rfl, .inr rfl,
        answering_settles rfl (by decide) rfl, rfl⟩
    exact .idle hanswer
  | cons byte rest ih =>
    have hanswer : AnswersWith answering (byte :: rest) .read (byte :: rest) :=
      ⟨0x41, byte :: rest, 0x41, answering_settles rfl (by decide) rfl, .inl rfl,
        answering_settles rfl (by decide) rfl, rfl⟩
    exact .byte hanswer rfl ih

theorem answering_responds (response : List UInt8) : Responds answering response response := by
  cases response with
  | nil => exact ⟨0x01, [], answering_settles rfl (by decide) rfl, answering_presents []⟩
  | cons byte rest => exact ⟨0x41, _, answering_settles rfl (by decide) rfl, answering_presents _⟩

/-- A response of one byte arrives, one of two does not, and one of three is not handed over. -/
theorem kcsReadDataFromBmc_delivers_one :
    Delivers answering ⟨[0x1C], []⟩ 1 [0x1C] ∧ ¬ Delivers answering ⟨[0x1C, 0x01], []⟩ 2 [0x1C, 0x01] ∧
      ¬ HandsOver answering ⟨[0x1C, 0x01, 0x00], []⟩ ⟨6, 1, none, 0⟩ ⟨false, fun _ => 0, 0⟩ [0x1C, 0x01, 0x00] := by
  have hdelivers (response : List UInt8) (dataSize : UInt8) :=
    kcsReadDataFromBmc_delivers answering ⟨response, []⟩ response dataSize ⟨6, 1, none, 0⟩ ⟨false, fun _ => 0, 0⟩
  refine ⟨?_, ?_, (hdelivers [0x1C, 0x01, 0x00] 3).2 (by decide)⟩
  · exact ((hdelivers [0x1C] 1).1 (answering_responds _) (by decide)).mpr (by decide)
  · exact mt ((hdelivers [0x1C, 0x01] 2).1 (answering_responds _) (by decide)).mp (by decide)

/-- The header of a response, read into a buffer of `0xEE`: the second byte lands at the third place. -/
theorem kcsReadDataFromBmc_skips : Responds answering [0x1C, 0x01, 0x00] [0x1C, 0x01, 0x00] ∧
      (exec (kcsReadDataFromBmc answering 5 (fun _ => 0xEE) 3) ⟨[0x1C, 0x01, 0x00], []⟩).1.toOption.map
          (Option.map fun data => [data 0, data 1, data 2]) = some (some [0x1C, 0xEE, 0x01]) :=
  ⟨answering_responds _, by decide +kernel⟩

end Liano.Kcs
