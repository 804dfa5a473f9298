import Liano.Lib.Fallible

/-! The KCS system interface of the BMC: its registers, the waits on the status register, the error exit
and the check of the interface state. -/
namespace Liano.Kcs
open Lib (Fallible)
open Lib.Fallible (lift ignoring)

/-- A management controller behind the two I/O ports. It may answer any status, and a state type with
enough history lets it answer differently every time. -/
structure Bmc (σ : Type) where
  readStatus : σ → UInt8 × σ
  readData : σ → UInt8 × σ
  /-- A byte for the command register, which shares its port with the status register. -/
  writeControl : UInt8 → σ → σ
  writeData : UInt8 → σ → σ

inductive KcsState
  | idle
  | read
  | write
  | error
deriving DecidableEq, Repr

/-- `KcsStatus.Bit.State`. -/
def stateOf (status : UInt8) : KcsState := match status.toNat / 64 with
  | 0 => .idle
  | 1 => .read
  | 2 => .write
  | _ => .error

def obf (status : UInt8) : Bool := status.toNat % 2 == 1

def ibf (status : UInt8) : Bool := status.toNat / 2 % 2 == 1

def KSC_CRTL_ABORT : UInt8 := 0x60
def KSC_CRTL_WRITE_START : UInt8 := 0x61
def KSC_CRTL_WRITE_END : UInt8 := 0x62
def KSC_CRTL_READ : UInt8 := 0x68
def KSC_STATUS_UNSPECIFIED_ERROR : UInt8 := 0xFF
def KCS_TIME_OUT_LIMIT : Nat := 100000
def KCS_RETRY_LIMIT : Nat := 3

inductive Write
  | control (byte : UInt8)
  | data (byte : UInt8)
deriving DecidableEq, Repr

structure World (σ : Type) where
  bmc : σ
  written : List Write

inductive KcsError
  | deviceError
  | timeout
  | invalidParameter
deriving DecidableEq, Repr

abbrev Driver (σ : Type) (α : Type) := Fallible KcsError (World σ) α

variable {σ : Type} (bmc : Bmc σ)

def readStatus : Driver σ UInt8 :=
  lift fun w => ((bmc.readStatus w.bmc).1, { w with bmc := (bmc.readStatus w.bmc).2 })

def readData : Driver σ UInt8 :=
  lift fun w => ((bmc.readData w.bmc).1, { w with bmc := (bmc.readData w.bmc).2 })

def writeControl (byte : UInt8) : Driver σ Unit :=
  lift fun w => ((), ⟨bmc.writeControl byte w.bmc, w.written ++ [.control byte]⟩)

def writeData (byte : UInt8) : Driver σ Unit :=
  lift fun w => ((), ⟨bmc.writeData byte w.bmc, w.written ++ [.data byte]⟩)

@[simp] theorem exec_readData (w : World σ) : Lib.Fallible.exec (readData bmc) w =
      (.ok (bmc.readData w.bmc).1, { w with bmc := (bmc.readData w.bmc).2 }) := rfl

@[simp] theorem exec_writeData (byte : UInt8) (w : World σ) : Lib.Fallible.exec (writeData bmc byte) w =
      (.ok (), ⟨bmc.writeData byte w.bmc, w.written ++ [.data byte]⟩) := rfl

def waitFor (ready : UInt8 → Bool) : Nat → Driver σ UInt8
  | 0 => do
      let status ← readStatus bmc
      if status = KSC_STATUS_UNSPECIFIED_ERROR then throw .deviceError else throw .timeout
  | left+1 => do
      let status ← readStatus bmc
      if status = KSC_STATUS_UNSPECIFIED_ERROR then throw .deviceError
      else if ready status then pure status else waitFor ready left

def waitForIbfFalse : Driver σ UInt8 := waitFor bmc (fun status => !ibf status) KCS_TIME_OUT_LIMIT

def waitForObfTrue : Driver σ UInt8 := waitFor bmc obf KCS_TIME_OUT_LIMIT

/-- `if (KcsStatus.Bit.Obf == 1) IoRead8 (IPMI_R_KSC_DATA_OUT)`. -/
def clearObf (status : UInt8) : Driver σ Unit := if obf status then do
    let _ ← readData bmc
    pure ()
  else pure ()

/-- What follows the abort in `KcsErrorExit`: whether the interface is idle at its end. -/
def kcsAbortAnswer : Driver σ Bool := do
  let status ← waitForIbfFalse bmc
  clearObf bmc status
  writeData bmc 0
  let status ← waitForIbfFalse bmc
  if stateOf status = .read then
    let _ ← waitForObfTrue bmc
    let _ ← readData bmc
    writeData bmc KSC_CRTL_READ
    let status ← waitForIbfFalse bmc
    if stateOf status = .idle then
      let _ ← waitForObfTrue bmc
      let _ ← readData bmc
      pure true
    else pure false
  else pure false

def kcsErrorExitTurn : Driver σ Bool := do
  ignoring (waitForIbfFalse bmc)
  writeControl bmc KSC_CRTL_ABORT
  kcsAbortAnswer bmc

def kcsErrorExitLoop : Nat → Driver σ Unit
  | 0 => pure ()
  | left+1 => do
      if ← kcsErrorExitTurn bmc then pure ()
      else if left = 0 then throw .deviceError
      else kcsErrorExitLoop left

def kcsErrorExit : Driver σ Unit := kcsErrorExitLoop bmc KCS_RETRY_LIMIT

def kcsCheckStatus : KcsState → Driver σ UInt8
  | .write => do
      let status ← waitForIbfFalse bmc
      if stateOf status = .write then
        let _ ← readData bmc
        pure status
      else
        kcsErrorExit bmc
        pure status
  | .read => do
      let status ← waitForIbfFalse bmc
      if stateOf status = .read ∨ stateOf status = .idle then waitForObfTrue bmc
      else
        kcsErrorExit bmc
        pure status
  | .idle => waitForIbfFalse bmc
  | .error => do
      let _ ← waitForIbfFalse bmc
      throw .invalidParameter

def sendBytes : List UInt8 → Driver σ Unit
  | [] => pure ()
  | byte :: bytes => do
      let _ ← kcsCheckStatus bmc .write
      writeData bmc byte
      sendBytes bytes

def kcsWriteDataToBmc (data : List UInt8) : Driver σ Unit := do
  let _ ← waitForIbfFalse bmc
  let _ ← readData bmc
  writeControl bmc KSC_CRTL_WRITE_START
  sendBytes bmc data
  let _ ← kcsCheckStatus bmc .write
  writeControl bmc KSC_CRTL_WRITE_END

/-- The controller's first status that is ready, within the time-out and with no unspecified error before. -/
inductive Settles (ready : UInt8 → Bool) : Nat → σ → UInt8 → σ → Prop
  | now {left : Nat} {s s' : σ} {status : UInt8} : bmc.readStatus s = (status,s') →
      status ≠ KSC_STATUS_UNSPECIFIED_ERROR → ready status = true → Settles ready (left+1) s status s'
  | later {left : Nat} {s t s' : σ} {busy status : UInt8} : bmc.readStatus s = (busy,t) →
      busy ≠ KSC_STATUS_UNSPECIFIED_ERROR → ready busy = false → Settles ready left t status s' →
      Settles ready (left+1) s status s'

variable {bmc} {ready : UInt8 → Bool} {left : Nat} {w w' : World σ} {status : UInt8}

theorem waitFor_of_settles {s' : σ} (h : Settles bmc ready left w.bmc status s') :
    Lib.Fallible.exec (waitFor bmc ready left) w = (.ok status, ⟨s', w.written⟩) := by
  generalize hs : w.bmc = s at h
  induction h generalizing w with
  | now hread hne hready =>
    subst hs
    simp [waitFor, readStatus, Lib.Fallible.exec_bind, hread, hne, hready]
  | later hread hne hready _ ih =>
    subst hs
    simp only [waitFor, readStatus, Lib.Fallible.exec_bind, Lib.Fallible.exec_lift, hread, if_neg hne,
      hready, Bool.false_eq_true, if_false]
    exact ih rfl

theorem waitFor_ok : Lib.Fallible.exec (waitFor bmc ready left) w = (.ok status, w') ↔
    Settles bmc ready left w.bmc status w'.bmc ∧ w'.written = w.written := by
  constructor
  · intro h
    induction left generalizing w with
    | zero =>
      simp only [waitFor, readStatus, Lib.Fallible.exec_bind, Lib.Fallible.exec_lift] at h
      split at h <;> cases congrArg Prod.fst h
    | succ left ih =>
      simp only [waitFor, readStatus, Lib.Fallible.exec_bind, Lib.Fallible.exec_lift] at h
      split at h
      · cases congrArg Prod.fst h
      rename_i hne
      split at h
      · rename_i hready
        obtain ⟨rfl,rfl⟩ : (bmc.readStatus w.bmc).1 = status ∧ _ = w' := by simpa using h
        exact ⟨.now rfl hne hready, rfl⟩
      · rename_i hready
        obtain ⟨hsettles,hwritten⟩ := ih h
        exact ⟨.later rfl hne (by simpa using hready) hsettles, hwritten⟩
  · rintro ⟨h,hw⟩
    rw [waitFor_of_settles h, ← hw]

end Liano.Kcs
