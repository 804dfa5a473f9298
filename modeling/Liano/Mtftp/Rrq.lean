import Liano.Lib.Memory
import Liano.Mtftp.BlockRange

/-! The DATA packets of an MTFTP download (Mtftp4Dxe/Mtftp4Rrq.c): the block is saved in the user's
buffer and taken off the holes, and an ACK is sent where one is due. -/
namespace Liano.Mtftp
open Memory

/-- MTFTP4_DATA_HEAD_LEN -/
def dataHeadLen : Nat := 4

/-- A DATA packet: its block number, in the host's byte order, and the address of its data. -/
structure Mtftp4Data where
  block : Nat
  data : Nat
deriving DecidableEq, Repr

/-- MTFTP4_PROTOCOL: the fields that the download reads and writes. -/
structure Mtftp4Protocol where
  blkSize : Nat
  lastBlock : Nat
  blocks : List Mtftp4BlockRange
  windowSize : Nat
  totalBlock : Nat
  ackedBlock : Nat
  master : Bool
deriving DecidableEq, Repr

/-- EFI_MTFTP4_TOKEN: the user's buffer, none where it is NULL. -/
structure Mtftp4Token where
  buffer : Option Nat
  bufferSize : Nat
deriving DecidableEq, Repr

inductive Mtftp4Sent
  | ack (block : Nat)
  | error (code : Nat) (text : String)
deriving DecidableEq, Repr

/-- What the code around a call does: whether memory can be allocated, what the user's CheckPacket
returns (none where it is NULL), the result of the transmission, and what is in the local variable
BlockCounter, which the function does not initialize. -/
structure RrqEnv where
  rangePool : Bool
  packetPool : Bool
  checkPacket : Option EfiStatus
  sendPacket : EfiStatus
  blockCounter : Nat
deriving DecidableEq, Repr

structure RrqResult where
  status : EfiStatus
  memory : Memory
  inst : Mtftp4Protocol
  token : Mtftp4Token
  sent : List Mtftp4Sent
  completed : Bool

def errorCodeDiskFull : Nat := 3
def errorCodeIllegalOperation : Nat := 4

def copyBlock (m : Memory) (inst : Mtftp4Protocol) (token : Mtftp4Token) (packet : Mtftp4Data)
    (dataLen : Nat) (completed : Bool) (blockCounter : Nat) : RrqResult := match token.buffer with
  | none => ⟨.success, m, inst, token, [], false⟩
  | some buffer =>
    let start := toUint64 (toUint64 (blockCounter + (2^64-1)) * inst.blkSize)
    let size := toUint64 (start+dataLen)
    if size ≤ token.bufferSize then
      ⟨.success, copyMem m (buffer+start) packet.data dataLen, inst,
        if inst.lastBlock = packet.block ∧ completed = true then { token with bufferSize := size }
        else token, [], false⟩
    else if inst.lastBlock ≠ 0 then
      ⟨.bufferTooSmall, m, inst, { token with bufferSize := size },
        [.error errorCodeDiskFull "User provided memory block is too small"], false⟩
    else ⟨.success, m, inst, token, [], false⟩

def noteLastBlock (inst : Mtftp4Protocol) (packet : Mtftp4Data) (completed : Bool) : Mtftp4Protocol :=
  if completed = true then
    { inst with
      lastBlock := packet.block
      blocks := mtftp4SetLastBlockNum inst.blocks packet.block }
  else inst

section
variable (env : RrqEnv) (m : Memory) (inst : Mtftp4Protocol) (token : Mtftp4Token)
  (packet : Mtftp4Data) (len : Nat)

def mtftp4RrqSaveBlock : RrqResult := let dataLen := len-dataHeadLen
  let completed := decide (dataLen < inst.blkSize)
  let inst := noteLastBlock inst packet completed
  let removal := mtftp4RemoveBlockNum env.rangePool packet.block completed env.blockCounter inst.blocks
  let inst := { inst with blocks := removal.blocks }
  if removal.status = .notFound then ⟨.success, m, inst, token, [], false⟩
  else if removal.status.isError = true then ⟨removal.status, m, inst, token, [], false⟩
  else if (env.checkPacket.map EfiStatus.isError).getD false = true then
    ⟨.aborted, m, inst, token, [.error errorCodeIllegalOperation "User aborted download"], false⟩
  else copyBlock m inst token packet dataLen completed removal.blockCounter

def mtftp4RrqSendAck (env : RrqEnv) (r : RrqResult) (blkNo : Nat) : RrqResult :=
  if env.packetPool = false then { r with status := .outOfResources }
  else
    { r with
      status := env.sendPacket
      sent := r.sent ++ [.ack blkNo]
      inst := if env.sendPacket.isError = true then r.inst
        else { r.inst with ackedBlock := r.inst.totalBlock } }

/-- `(UINT16) (Expected - 1)` -/
def blockBefore (expected : Nat) : Nat := (expected + (2^16-1)) % 2^16

/-- The end of Mtftp4RrqHandleData: the ACK for what has been saved. -/
def acknowledge (env : RrqEnv) (r : RrqResult) : RrqResult :=
  match mtftp4GetNextBlockNum r.inst.blocks with
  | none => mtftp4RrqSendAck env { r with completed := true } r.inst.lastBlock
  | some expected =>
    if r.inst.master = true ∧
        r.inst.windowSize = toUint64 (r.inst.totalBlock + (2^64-r.inst.ackedBlock)) then
      mtftp4RrqSendAck env r (blockBefore expected)
    else r

def mtftp4RrqHandleData : Option RrqResult := match mtftp4GetNextBlockNum inst.blocks with
  | none => none
  | some expected =>
    if inst.master = true ∧ expected ≠ packet.block then
      some (mtftp4RrqSendAck env ⟨.success, m, inst, token, [], false⟩ (blockBefore expected))
    else
      let r := mtftp4RrqSaveBlock env m inst token packet len
      if r.status.isError = true then some r
      else
        some (acknowledge env
          { r with inst := { r.inst with totalBlock := toUint64 (r.inst.totalBlock+1) } })

end

structure SameDownload (r r' : RrqResult) : Prop where
  memory : r'.memory = r.memory
  token : r'.token = r.token
  blkSize : r'.inst.blkSize = r.inst.blkSize
  lastBlock : r'.inst.lastBlock = r.inst.lastBlock
  blocks : r'.inst.blocks = r.inst.blocks

theorem sendAck_same (env : RrqEnv) (r : RrqResult) (blkNo : Nat) :
    SameDownload r (mtftp4RrqSendAck env r blkNo) ∧
      (mtftp4RrqSendAck env r blkNo).completed = r.completed := by
  unfold mtftp4RrqSendAck
  by_cases hpool : env.packetPool = false
  · rw [if_pos hpool]
    exact ⟨⟨rfl, rfl, rfl, rfl, rfl⟩, rfl⟩
  rw [if_neg hpool]
  by_cases hsend : env.sendPacket.isError = true
  · rw [if_pos hsend]
    exact ⟨⟨rfl, rfl, rfl, rfl, rfl⟩, rfl⟩
  · rw [if_neg hsend]
    exact ⟨⟨rfl, rfl, rfl, rfl, rfl⟩, rfl⟩

theorem acknowledge_same (env : RrqEnv) (r : RrqResult) (hr : r.completed = false) :
    SameDownload r (acknowledge env r) ∧
      ((acknowledge env r).completed = true ↔ r.inst.blocks = []) := by
  unfold acknowledge mtftp4GetNextBlockNum
  cases hblk : r.inst.blocks with
  | nil =>
    obtain ⟨hsame,hcompl⟩ := sendAck_same env { r with completed := true } r.inst.lastBlock
    exact ⟨⟨hsame.memory, hsame.token, hsame.blkSize, hsame.lastBlock, hsame.blocks⟩,
      fun _ => rfl, fun _ => hcompl⟩
  | cons hole rest =>
    have hne : ¬ (hole :: rest) = [] := List.cons_ne_nil _ _
    dsimp only [List.head?_cons, Option.map_some]
    split
    · obtain ⟨hsame,hcompl⟩ := sendAck_same env r (blockBefore hole.start)
      refine ⟨hsame, fun h => ?_, fun h => absurd h hne⟩
      rw [hcompl, hr] at h
      exact absurd h Bool.false_ne_true
    · refine ⟨⟨rfl, rfl, rfl, rfl, rfl⟩, fun h => ?_, fun h => absurd h hne⟩
      rw [hr] at h
      exact absurd h Bool.false_ne_true

end Liano.Mtftp
