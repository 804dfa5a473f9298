import Liano.Xen.Interface
import Liano.Xen.Message

/-! The guest's side of the XenStore rings, one memory access at a time, and a peer that consumes requests and
produces responses between any two of them (OvmfPkg/XenBusDxe/XenStore.c). -/
namespace Liano.Xen
open Lib

/-- Where the loop of XenStoreWriteStore or XenStoreReadStore stands: at its head, with the consumer index
loaded, or in CopyMem with the bytes it has copied. -/
inductive Phase
  | head
  | loaded (cons : Nat)
  | copying (place available : Nat) (copied : Bytes)

/-- A call of XenStoreReadStore for XenStoreProcessMessage: the buffer's size, what is asked for, what has been
read, and the header while the body is read. -/
structure Reading where
  size : Nat
  len : Nat
  data : Bytes
  header : Option XsdSockmsg

structure WatchEvent where
  header : XsdSockmsg
  vector : List Bytes
  handle : Nat

structure XenStore where
  shared : DomainInterface
  /-- The buffer in XenStoreWriteStore, what is left of it. -/
  writing : Option Bytes
  /-- The buffers that XenStoreTalkv has yet to write. -/
  pending : List Bytes
  /-- XenStoreTalkv waits for its reply or is going to. -/
  talking : Bool
  reading : Option Reading
  phase : Phase
  replyList : List XenstoreMessage
  registeredWatches : List Nat
  watchEvents : List WatchEvent
  /-- The concatenation of the buffers given to XenStoreWriteStore. -/
  submitted : Bytes
  consumed : Bytes
  produced : Bytes
  read : Bytes
  /-- The messages that XenStoreProcessMessage has taken from the ring. -/
  processed : List XenstoreMessage
  delivered : List XenstoreMessage
  results : List (XenstoreStatus × Option Bytes)
  ringFault : Bool
  memoryFault : Bool

namespace XenStore

def initial (req rsp : Nat → UInt8) (reqIdx rspIdx : Nat) (registeredWatches : List Nat) : XenStore where
  shared := ⟨req, rsp, reqIdx, reqIdx, rspIdx, rspIdx⟩
  writing := none
  pending := []
  talking := false
  reading := none
  phase := .head
  replyList := []
  registeredWatches := registeredWatches
  watchEvents := []
  submitted := []
  consumed := []
  produced := []
  read := []
  processed := []
  delivered := []
  results := []
  ringFault := false
  memoryFault := false

/-- XENSTORE_STATUS_EIO leaves XenStoreTalkv. -/
def failed (s : XenStore) : XenStore := { s with
    writing := none, pending := [], reading := none, phase := .head, talking := false
    results := s.results ++ if s.talking then [(.eio, none)] else [] }

def writeStore (s : XenStore) (data : Bytes) : XenStore := match s.phase with
  | .head => if data = [] then { s with writing := none } else { s with phase := .loaded s.shared.reqCons }
  | .loaded cons =>
    if idxSub s.shared.reqProd cons = xenstoreRingSize then { s with phase := .head }
    else if xenStoreCheckIndexes cons s.shared.reqProd then
      let (place,available) := xenStoreGetOutputChunk cons s.shared.reqProd
      { s with phase := .copying place (min available data.length) [] }
    else { s with shared := { s.shared with reqCons := 0, reqProd := 0 } }.failed
  | .copying place available copied =>
    if copied.length < available then
      if place+copied.length < xenstoreRingSize then
        let c := data.getD copied.length 0
        { s with
          shared := { s.shared with req := Function.update s.shared.req (place+copied.length) c }
          phase := .copying place available (copied ++ [c]) }
      else { s with ringFault := true }
    else
      { s with
        shared := { s.shared with reqProd := idxAdd s.shared.reqProd available }
        writing := some (data.drop available)
        phase := .head }

section
variable (s : XenStore) (allocated : Bool)

/-- XenStoreProcessMessage, once it has read a message. -/
def messageRead (data : Nat) (message : XenstoreMessage) : XenStore :=
  if message.header.type = XS_WATCH_EVENT then
    match allocated, (split message.body)[XS_WATCH_TOKEN]? with
    | true, some token =>
      { s with
        reading := none
        processed := s.processed ++ [message]
        watchEvents := ((xenStoreFindWatch s.registeredWatches data token).map
          fun handle => ⟨message.header, split message.body, handle⟩).toList ++ s.watchEvents }
    | _, _ => { s with memoryFault := true }
  else
    { s with
      reading := none
      processed := s.processed ++ [message]
      replyList := s.replyList ++ [message] }

/-- XenStoreProcessMessage behind a call of XenStoreReadStore. -/
def bufferRead (data : Nat) (r : Reading) : XenStore := match r.header with
  | none =>
    let header := XsdSockmsg.ofBytes r.data
    let size := if allocated then toUint32 (header.len+1) else 0
    { s with reading := some ⟨size, header.len, [], some header⟩ }
  | some header =>
    if header.len < r.size then s.messageRead allocated data ⟨header, r.data⟩
    else { s with memoryFault := true }

def readStore (data : Nat) (r : Reading) : XenStore := match s.phase with
  | .head => if r.data.length = r.len then s.bufferRead allocated data r else { s with phase := .loaded s.shared.rspCons }
  | .loaded cons =>
    if cons = s.shared.rspProd then { s with phase := .head }
    else if xenStoreCheckIndexes cons s.shared.rspProd then
      let (place,available) := xenStoreGetInputChunk cons s.shared.rspProd
      { s with phase := .copying place (min available (r.len-r.data.length)) [] }
    else { s with shared := { s.shared with rspCons := 0, rspProd := 0 } }.failed
  | .copying place available copied =>
    if copied.length < available then
      if place+copied.length < xenstoreRingSize then
        if r.data.length+copied.length < r.size then
          { s with phase := .copying place available (copied ++ [s.shared.rsp (place+copied.length)]) }
        else { s with memoryFault := true }
      else { s with ringFault := true }
    else
      { s with
        shared := { s.shared with rspCons := idxAdd s.shared.rspCons available }
        reading := some { r with data := r.data ++ copied }
        phase := .head
        read := s.read ++ copied }

/-- XenStoreProcessMessage is called. -/
def processMessage : XenStore :=
  if allocated then { s with reading := some ⟨XsdSockmsg.size, XsdSockmsg.size, [], none⟩ }
  else { s with memoryFault := true }

/-- XenStoreReadReply -/
def readReply : XenStore := match s.replyList with
  | [] => s.processMessage allocated
  | message :: rest =>
    { s with
      replyList := rest
      talking := false
      delivered := s.delivered ++ [message]
      results := s.results ++ [xenStoreTalkvResult message] }

/-- XenStoreTalkv is called. -/
def talkv (s : XenStore) (txId requestType : Nat) (writeRequest : List Bytes) : XenStore :=
  let len := toUint32 (writeRequest.map List.length).sum
  { s with pending := XsdSockmsg.bytes ⟨requestType, 0, txId, len⟩ :: writeRequest, talking := true }

def guest (data : Nat) : XenStore :=
  match s.writing, s.pending, s.reading with
  | some buffer, _, _ => s.writeStore buffer
  | none, buffer :: rest, _ =>
    { s with writing := some buffer, pending := rest, submitted := s.submitted ++ buffer }
  | none, [], some r => s.readStore allocated data r
  | none, [], none => if s.talking then s.readReply allocated else s

end

def Idle (s : XenStore) : Prop :=
  s.writing = none ∧ s.pending = [] ∧ s.reading = none ∧ s.talking = false

instance (s : XenStore) : Decidable s.Idle := by
  unfold Idle
  infer_instance

/-- The peer takes `n` bytes of the requests. -/
def peerConsume (s : XenStore) (n : Nat) : XenStore :=
  { s with
    shared := { s.shared with reqCons := idxAdd s.shared.reqCons n }
    consumed := s.consumed ++ Ring.window xenstoreRingSize s.shared.req s.shared.reqCons n }

def peerProduce (s : XenStore) (b : Bytes) : XenStore :=
  { s with
    shared := { s.shared with
      rsp := Ring.fill xenstoreRingSize s.shared.rsp s.shared.rspProd b
      rspProd := idxAdd s.shared.rspProd b.length }
    produced := s.produced ++ b }

end XenStore

inductive Action
  | talkv (txId requestType : Nat) (writeRequest : List Bytes)
  | processMessage (allocated : Bool)
  | guest (allocated : Bool) (data : Nat)
  /-- Other functions register watches and take events. -/
  | watches (registered : List Nat) (events : List WatchEvent)
  | peerConsume (n : Nat)
  | peerProduce (b : Bytes)

/-- Peers take what is there and produce where there is room; the guest goes on as long as no access has left
its buffer. -/
def step (s : XenStore) : Action → Option XenStore
  | .talkv txId requestType writeRequest => if s.Idle then some (s.talkv txId requestType writeRequest) else none
  | .processMessage allocated => if s.Idle then some (s.processMessage allocated) else none
  | .guest allocated data => if s.ringFault ∨ s.memoryFault then none else some (s.guest allocated data)
  | .watches registered events =>
    if s.Idle then some { s with registeredWatches := registered, watchEvents := events } else none
  | .peerConsume n =>
    if n ≤ idxSub s.shared.reqProd s.shared.reqCons then some (s.peerConsume n) else none
  | .peerProduce b =>
    if idxSub s.shared.rspProd s.shared.rspCons + b.length ≤ xenstoreRingSize then some (s.peerProduce b)
    else none

/-- The steps, with what is tested before each. -/
inductive Stepped (s : XenStore) : Action → XenStore → Prop
  | talkv {txId requestType : Nat} {writeRequest : List Bytes} :
    s.Idle → Stepped s (.talkv txId requestType writeRequest) (s.talkv txId requestType writeRequest)
  | processMessage {allocated : Bool} :
    s.Idle → Stepped s (.processMessage allocated) (s.processMessage allocated)
  | guest {allocated : Bool} {data : Nat} :
    ¬ (s.ringFault ∨ s.memoryFault) → Stepped s (.guest allocated data) (s.guest allocated data)
  | watches {registered : List Nat} {events : List WatchEvent} : s.Idle →
    Stepped s (.watches registered events) { s with registeredWatches := registered, watchEvents := events }
  | peerConsume {n : Nat} : n ≤ idxSub s.shared.reqProd s.shared.reqCons →
    Stepped s (.peerConsume n) (s.peerConsume n)
  | peerProduce {b : Bytes} : idxSub s.shared.rspProd s.shared.rspCons + b.length ≤ xenstoreRingSize →
    Stepped s (.peerProduce b) (s.peerProduce b)

theorem stepped {s s' : XenStore} {a : Action} (hs : step s a = some s') : Stepped s a s' := by
  cases a
  all_goals
    simp only [step, Option.ite_none_right_eq_some, Option.ite_none_left_eq_some, Option.some.injEq] at hs
    obtain ⟨hguard,rfl⟩ := hs
    constructor
    exact hguard

end Liano.Xen
