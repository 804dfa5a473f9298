import Mathlib.Algebra.Ring.Nat
import Mathlib.Data.List.Basic

/-! The control block of a TCP connection (TcpDxe/TcpProto.h) and what the receive side does with a
segment (TcpInput.c). Of a net buffer the segment information and the number of data bytes are kept. -/
namespace Liano.Tcp

/-- TCP_CLOSED to TCP_LAST_ACK -/
inductive TcpState
  | closed | listen | synSent | synRcvd | established | finWait1 | finWait2 | closing | timeWait
  | closeWait | lastAck
deriving DecidableEq, Repr

/-- TCP_CONNECTED -/
def TcpState.connected : TcpState → Bool
  | .closed | .listen | .synSent | .synRcvd => false
  | _ => true

/-- TCP_FIN_RCVD -/
def TcpState.finRcvd : TcpState → Bool
  | .closeWait | .lastAck | .closing | .timeWait => true
  | _ => false

/-- TCP_LOCAL_CLOSED -/
def TcpState.localClosed : TcpState → Bool
  | .finWait1 | .finWait2 | .closing | .timeWait | .lastAck => true
  | _ => false

/-- TCP_SEQ_LT: the difference is negative as an INT32. -/
def tcpSeqLt (a b : UInt32) : Bool := decide (2^31 ≤ (a-b).toNat)

def tcpSeqLeq (a b : UInt32) : Bool := a == b || tcpSeqLt a b

def tcpSeqGt (a b : UInt32) : Bool := tcpSeqLt b a

def tcpSeqGeq (a b : UInt32) : Bool := tcpSeqLeq b a

def tcpSeqBetween (b m e : UInt32) : Bool := decide (m-b ≤ e-b)

/-- TCP_SEG, and TotalSize of the buffer. -/
structure TcpSeg where
  seq : UInt32
  endSeq : UInt32
  ack : UInt32
  wnd : UInt32
  fin : Bool
  syn : Bool
  rst : Bool
  psh : Bool
  ackOn : Bool
  size : UInt32
deriving DecidableEq, Repr

/-- The sequence space of SYN and FIN. -/
def flagLen (flag : Bool) : UInt32 := if flag then 1 else 0

def tcpVerifySegment (seg : TcpSeg) : Bool :=
  seg.seq + (seg.size + flagLen seg.syn + flagLen seg.fin) == seg.endSeq

/-- NetbufTrim, as far as TotalSize goes. -/
def trimSize (size drop : UInt32) : UInt32 := if drop ≤ size then size-drop else 0

def tcpTrimHead (seg : TcpSeg) (left : UInt32) : TcpSeg := if tcpSeqLt seg.seq left then
    { seg with
      seq := left
      syn := false
      size := trimSize seg.size (left-seg.seq - flagLen seg.syn) }
  else seg

def tcpTrimTail (seg : TcpSeg) (right : UInt32) : TcpSeg := if tcpSeqGt seg.endSeq right then
    { seg with
      endSeq := right
      fin := false
      size := trimSize seg.size (seg.endSeq-right - flagLen seg.fin) }
  else seg

def tcpTrimSegment (seg : TcpSeg) (left right : UInt32) : Bool × TcpSeg :=
  if tcpSeqLeq seg.endSeq left || tcpSeqLeq right seg.seq then
    (true, { seg with fin := false, syn := false, seq := seg.endSeq, size := 0 })
  else
    (tcpVerifySegment (tcpTrimTail (tcpTrimHead seg left) right), tcpTrimTail (tcpTrimHead seg left) right)

/-- TCP_CONGEST_RECOVER, TCP_CONGEST_LOSS and TCP_CONGEST_OPEN -/
inductive TcpCongest
  | recover | loss | open
deriving DecidableEq, Repr

/-- What a run shows of a connection: segments that the IP layer took, with the send queue and the
number of unsent bytes of the socket then, new segments that it refused, and acknowledgment numbers that
were accepted. -/
inductive TcpEvent
  | sent (seg : TcpSeg) (sndQue : List TcpSeg) (sndDataSize : UInt32)
  | refused (seg : TcpSeg)
  | accepted (ack : UInt32)
deriving DecidableEq, Repr

/-- TCP_CB with the two buffers of its socket. The outcomes are those of the allocations, of the IP
layer and of NET_BUF_SHARED to come, true where the code goes on. Timers are left out: their handlers
run at any time. -/
structure Tcb where
  state : TcpState
  finSent : Bool
  finAcked : Bool
  ackNow : Bool
  noNagle : Bool
  iss : UInt32
  sndUna : UInt32
  sndNxt : UInt32
  sndWl1 : UInt32
  sndWl2 : UInt32
  sndWnd : UInt32
  sndWndMax : UInt32
  sndWndScale : Nat
  sndMss : UInt32
  cWnd : UInt32
  ssthresh : UInt32
  recover : UInt32
  lossRecover : UInt32
  congestState : TcpCongest
  dupAck : Nat
  retxmitSeqMax : UInt32
  rcvNxt : UInt32
  rcvWnd : UInt32
  rcvWl2 : UInt32
  rcvWndScale : Nat
  rcvMss : UInt32
  delayedAck : Nat
  timeWaitTimeout : Nat
  sndQue : List TcpSeg
  rcvQue : List TcpSeg
  sndDataSize : UInt32
  rcvDataSize : UInt32
  rcvBuffSize : UInt32
  outcomes : List Bool
  log : List TcpEvent
deriving DecidableEq, Repr

section
variable (t : Tcb)

def Tcb.outcome : Bool := t.outcomes.headD true

def Tcb.next : Tcb := { t with outcomes := t.outcomes.tail }

def tcpClose : Tcb := { t with sndQue := [], rcvQue := [], state := .closed }

def tcpRcvWinOld : UInt32 :=
  if tcpSeqGt (t.rcvWl2+t.rcvWnd) t.rcvNxt then t.rcvWl2+t.rcvWnd-t.rcvNxt else 0

def sockGetFreeSpace : UInt32 :=
  if t.rcvBuffSize ≤ t.rcvDataSize then 0 else t.rcvBuffSize-t.rcvDataSize

def winIncrease : UInt32 :=
  if tcpRcvWinOld t < sockGetFreeSpace t then sockGetFreeSpace t - tcpRcvWinOld t else 0

def tcpRcvWinNow : UInt32 :=
  if t.sndMss < winIncrease t ∨ t.rcvBuffSize ≤ 2 * winIncrease t then sockGetFreeSpace t
  else tcpRcvWinOld t

/-- The window of a SYN segment, which is not scaled. -/
def synWnd : UInt32 := min (t.rcvBuffSize >>> UInt32.ofNat t.rcvWndScale) 0xffff

/-- TcpTransmitSegment, with whether the IP layer has taken the segment. -/
def tcpTransmitSegment (seg : TcpSeg) : Bool × Tcb := if tcpVerifySegment seg then
    (t.outcome, { t.next with
        rcvWl2 := t.rcvNxt
        rcvWnd := if seg.syn then synWnd t else tcpRcvWinNow t
        delayedAck := 0
        log := if t.outcome then .sent seg t.sndQue t.sndDataSize :: t.log else t.log })
  else (false,t)

def emptySeg (seq : UInt32) : TcpSeg :=
  { seq := seq, endSeq := seq, ack := 0, wnd := 0, fin := false, syn := false, rst := false, psh := false
    ackOn := true, size := 0 }

def ackSent (r : Bool × Tcb) : Tcb := if r.1 then { r.2 with ackNow := false, delayedAck := 0 } else r.2

def tcpSendAck : Tcb :=
  if t.outcome then ackSent (tcpTransmitSegment t.next (emptySeg t.sndNxt)) else t.next

def tcpSendZeroProbe : Tcb :=
  if t.outcome then (tcpTransmitSegment t.next (emptySeg (t.sndNxt - 1))).2 else t.next

def tcpToSendAck : Tcb := if t.ackNow ∨ 1 ≤ t.delayedAck then tcpSendAck t
  else if tcpRcvWinOld t < tcpRcvWinNow t then tcpSendAck t
  else { t with delayedAck := t.delayedAck + 1 }

def tcpSeqAcceptable (seg : TcpSeg) : Bool :=
  tcpSeqLeq t.rcvNxt seg.endSeq && tcpSeqLt seg.seq (t.rcvWl2+t.rcvWnd)

def tcpTrimInWnd (seg : TcpSeg) : Bool × TcpSeg := tcpTrimSegment seg t.rcvNxt (t.rcvWl2+t.rcvWnd)

/-- The segments behind the insert point: those that the new one covers go, and it ends before the next
one. With the result of the call and the queue from the new segment on. -/
def tcpCheckBehind (seg : TcpSeg) : List TcpSeg → Bool × List TcpSeg
  | [] => (true, [seg])
  | node :: behind =>
    if tcpSeqLeq node.endSeq seg.endSeq then tcpCheckBehind seg behind
    else if tcpSeqLt node.seq seg.endSeq then
      if tcpSeqLeq node.seq seg.seq then (true, node :: behind)
      else if (tcpTrimSegment seg seg.seq node.seq).1 then
        (true, (tcpTrimSegment seg seg.seq node.seq).2 :: node :: behind)
      else (false, node :: behind)
    else (true, seg :: node :: behind)

def tcpInsert (before behind : List TcpSeg) (t : Tcb) (seg : TcpSeg) : Bool × Tcb :=
  ((tcpCheckBehind seg behind).1,
    { t with rcvQue := before ++ (tcpCheckBehind seg behind).2, ackNow := true })

def tcpQueueBehind (before behind : List TcpSeg) (t : Tcb) (seg : TcpSeg) : Bool × Tcb :=
  match before.getLast? with
  | none => tcpInsert before behind t seg
  | some node =>
    if tcpSeqLt seg.seq node.endSeq then
      if tcpSeqLeq seg.endSeq node.endSeq then (true,t)
      else if (tcpTrimSegment seg node.endSeq seg.endSeq).1 then
        tcpInsert before behind t (tcpTrimSegment seg node.endSeq seg.endSeq).2
      else (false,t)
    else tcpInsert before behind t seg

def tcpQueueData (seg : TcpSeg) : Bool × Tcb :=
  if t.rcvQue = [] then (true, { t with rcvQue := [seg] })
  else
    tcpQueueBehind (t.rcvQue.takeWhile fun node => !tcpSeqLt seg.seq node.seq)
      (t.rcvQue.dropWhile fun node => !tcpSeqLt seg.seq node.seq) t seg

/-- The last FIN has come: TIME_WAIT, or the end where the application has disabled it. -/
def tcpTimeWait : Tcb := if t.timeWaitTimeout ≠ 0 then { t with state := .timeWait }
  else tcpClose (tcpSendAck { t with state := .timeWait })

/-- The state that the FIN of the peer leads to; none where there has been one. -/
def tcpFinReceived : Option Tcb := match t.state with
  | .synRcvd | .established => some { t with state := .closeWait }
  | .finWait1 => if !t.finAcked then some { t with state := .closing } else some (tcpTimeWait t)
  | .finWait2 => some (tcpTimeWait t)
  | .closeWait | .closing | .lastAck | .timeWait => none
  | .closed | .listen | .synSent => some t

def sockDataRcvd (seg : TcpSeg) : Tcb :=
  { t with ackNow := t.ackNow || seg.psh || seg.fin, rcvDataSize := t.rcvDataSize + seg.size }

/-- The loop of TcpDeliverData, over the queue. -/
def tcpDeliverLoop (seq : UInt32) : List TcpSeg → Tcb → Bool × Tcb
  | [], t => (true,t)
  | seg :: rest, t =>
    if !tcpVerifySegment seg then (false,t)
    else if tcpSeqGt seg.seq seq then (true,t)
    else if seg.fin then
      if rest ≠ [] then (false, { t with rcvNxt := seg.endSeq, rcvQue := rest })
      else
        match tcpFinReceived { t with rcvNxt := seg.endSeq, rcvQue := rest } with
        | none => (false, { t with rcvNxt := seg.endSeq, rcvQue := rest })
        | some t' => (true, sockDataRcvd t' seg)
    else
      tcpDeliverLoop seg.endSeq rest (sockDataRcvd { t with rcvNxt := seg.endSeq, rcvQue := rest } seg)

/-- TcpDeliverData, with false for -1. -/
def tcpDeliverData : Bool × Tcb :=
  if t.rcvQue = [] ∨ !t.state.connected then (true,t) else tcpDeliverLoop t.rcvNxt t.rcvQue t

end

end Liano.Tcp
