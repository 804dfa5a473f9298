import Liano.Tcp.Output

/-! What a TCP connection does with a segment that comes in (TcpDxe/TcpInput.c), with a call of the
application (TcpDxe/TcpMisc.c) and with a timer that expires (TcpDxe/TcpTimer.c). -/
namespace Liano.Tcp

/-- TCP_HEAD as far as it is read, in host order, and the number of data bytes. -/
structure TcpHead where
  seq : UInt32
  ack : UInt32
  wnd : UInt32
  fin : Bool
  syn : Bool
  rst : Bool
  psh : Bool
  ackOn : Bool
  size : UInt32
deriving DecidableEq, Repr

/-- TCP_OPTION: the options that have come and that are not disabled. -/
structure TcpOption where
  mss : Option UInt32
  wndScale : Option Nat
  timestamp : Bool
deriving DecidableEq, Repr

/-- Len in TcpInput: the sequence space of the segment as it has come. -/
def TcpHead.len (head : TcpHead) : UInt32 := head.size + flagLen head.syn + flagLen head.fin

def tcpFormatNetbuf (t : Tcb) (head : TcpHead) : TcpSeg :=
  { seq := head.seq
    endSeq := head.seq+head.size + flagLen head.syn + flagLen head.fin
    ack := head.ack
    wnd := if head.syn then head.wnd else head.wnd <<< UInt32.ofNat t.sndWndScale
    fin := head.fin
    syn := head.syn
    rst := head.rst
    psh := head.psh
    ackOn := head.ackOn
    size := head.size }

def tcpComputeScale (t : Tcb) : Nat :=
  ((List.range 14).find? fun scale => !decide (0xffff * 2^scale < t.rcvBuffSize.toNat)).getD 14

section
variable (t : Tcb) (seg : TcpSeg)

def tcpInitTcbPeer (option : TcpOption) : Tcb :=
  { t with
    sndWnd := seg.wnd
    sndWndMax := seg.wnd
    sndWl1 := seg.seq
    sndWl2 := if seg.ackOn then seg.ack else t.iss+1
    sndMss := (match option.mss with
      | some mss => min (max 64 mss) t.rcvMss
      | none => t.sndMss) - (if option.timestamp then 12 else 0)
    cWnd := match option.mss with
      | some mss => min (max 64 mss) t.rcvMss
      | none => t.sndMss
    rcvNxt := seg.seq+1
    rcvWl2 := seg.seq+1
    sndWndScale := option.wndScale.getD t.sndWndScale
    rcvWndScale := if option.wndScale.isSome then tcpComputeScale t else 0 }

def tcpFastRecover : Tcb :=
  if t.congestState ≠ .recover then
    { tcpRetransmit
        { t with
          ssthresh := max ((t.sndNxt-t.sndUna) >>> 1) (2*t.sndMss)
          recover := t.sndNxt
          congestState := .recover } t.sndUna with
      cWnd := max ((t.sndNxt-t.sndUna) >>> 1) (2*t.sndMss) + 3 * t.sndMss }
  else if seg.ack = t.sndUna then { t with cWnd := t.cWnd + t.sndMss }
  else if tcpSeqGeq seg.ack t.recover then
    { t with
      cWnd := min t.ssthresh (t.sndNxt-t.sndUna + t.sndMss)
      congestState := .open }
  else
    { tcpRetransmit t seg.ack with
      cWnd := t.cWnd - (if t.sndMss ≤ seg.ack-t.sndUna then seg.ack-t.sndUna-t.sndMss
        else seg.ack-t.sndUna) }

def tcpFastLossRecover : Tcb :=
  if tcpSeqGt seg.ack t.sndUna then
    if tcpSeqGeq seg.ack t.lossRecover then { t with congestState := .open }
    else tcpRetransmit t seg.ack
  else t

def countDupAck (len : UInt32) : Tcb :=
  if seg.ack = t.sndUna ∧ t.sndUna ≠ t.sndNxt ∧ seg.wnd = t.sndWnd ∧ len = 0 then
    { t with dupAck := t.dupAck + 1 }
  else { t with dupAck := 0 }

def growCWnd : Tcb :=
  if tcpSeqGt seg.ack t.sndUna then
    { t with
      cWnd := min
        (if t.cWnd < t.ssthresh then t.cWnd+t.sndMss
          else t.cWnd + max (t.sndMss*t.sndMss / t.cWnd) 1)
        (0xffff <<< UInt32.ofNat t.sndWndScale) }
  else t

def tcpCongest : Tcb :=
  if (t.congestState = .open ∧ t.dupAck < 3) ∨ t.congestState = .loss then
    if (growCWnd t seg).congestState = .loss then tcpFastLossRecover (growCWnd t seg) seg
    else growCWnd t seg
  else tcpFastRecover t seg

end

def tcpAdjustSndQue (ack : UInt32) : List TcpSeg → Bool × List TcpSeg
  | [] => (true, [])
  | node :: rest =>
    if tcpSeqGeq node.seq ack then (true, node :: rest)
    else if tcpSeqLeq node.endSeq ack then tcpAdjustSndQue ack rest
    else ((tcpTrimSegment node ack node.endSeq).1, (tcpTrimSegment node ack node.endSeq).2 :: rest)

section
variable (t : Tcb)

section
variable (seg : TcpSeg)

def tcpAcked : Bool × Tcb :=
  if tcpSeqGt seg.ack t.sndUna then
    if (tcpAdjustSndQue seg.ack t.sndQue).1 then
      (true, { t with sndQue := (tcpAdjustSndQue seg.ack t.sndQue).2, sndUna := seg.ack })
    else (false, { t with sndQue := (tcpAdjustSndQue seg.ack t.sndQue).2 })
  else (true,t)

def updatesWnd : Bool :=
  tcpSeqLt t.sndWl1 seg.seq || (t.sndWl1 == seg.seq && tcpSeqLeq t.sndWl2 seg.ack)

def shrinksWnd : Bool := tcpSeqLt (seg.ack+seg.wnd) (t.sndWl2+t.sndWnd)

def noUpdate (len : UInt32) : Bool :=
  t.sndWl1 == seg.seq && t.sndWl2 == seg.ack && len == 0

/-- SndNxt is out of the new window by more than the window scale. -/
def outOfWnd : Bool :=
  tcpSeqLt (seg.ack+seg.wnd) t.sndNxt && decide ((t.sndNxt - (seg.ack+seg.wnd)).toNat < 2^31) &&
    decide ((t.sndNxt - (seg.ack+seg.wnd)).toNat / 2^t.sndWndScale > 0)

def tcpShrinkWnd : Tcb :=
  { t with
    recover := if t.congestState = .recover ∧ tcpSeqLt (seg.ack+seg.wnd) t.recover then
      seg.ack+seg.wnd else t.recover
    lossRecover := if t.congestState = .loss ∧ tcpSeqLt (seg.ack+seg.wnd) t.lossRecover then
      seg.ack+seg.wnd else t.lossRecover
    sndNxt := if outOfWnd t seg then seg.ack+seg.wnd else t.sndNxt }

def tcpSetWnd : Tcb :=
  { t with sndWnd := seg.wnd, sndWndMax := max seg.wnd t.sndWndMax, sndWl1 := seg.seq, sndWl2 := seg.ack }

def tcpUpdateWnd (len : UInt32) : Tcb :=
  if updatesWnd t seg then
    if shrinksWnd t seg then
      if noUpdate t seg len then t else tcpSetWnd (tcpShrinkWnd t seg) seg
    else tcpSetWnd t seg
  else t

/-- SndNxt goes back to the right edge of the window of the segment. -/
def retracts (len : UInt32) : Bool :=
  updatesWnd t seg && shrinksWnd t seg && !noUpdate t seg len && outOfWnd t seg

/-- TCP_CTRL_FIN_ACKED is set. -/
def tcpFinAck : Tcb :=
  if t.finSent ∧ t.sndUna = t.sndNxt then { t with finAcked := true } else t

def tcpTransit : Tcb :=
  match t.state with
  | .finWait1 => if t.finAcked then { t with state := .finWait2 } else t
  | .closing =>
    if t.finAcked then
      if t.timeWaitTimeout ≠ 0 then { t with state := .timeWait } else tcpClose { t with state := .timeWait }
    else t
  | .lastAck => if t.finAcked then { t with state := .closed } else t
  | .timeWait => if t.timeWaitTimeout ≠ 0 then tcpSendAck t else tcpClose (tcpSendAck t)
  | _ => t

def tcpOutput : Tcb :=
  if t.state = .closed then t
  else if (tcpToSendData t false).1 = 0 ∧ ((tcpToSendData t false).2.ackNow ∨ seg.size ≠ 0) then
    tcpToSendAck (tcpToSendData t false).2
  else (tcpToSendData t false).2

def tcpWantsAck : Tcb := if t.rcvQue ≠ [] then { t with ackNow := true } else t

def tcpStepSix : Bool × Tcb :=
  if seg.endSeq ≠ seg.seq then
    if t.state.finRcvd ∨ (t.state.localClosed ∧ seg.size ≠ 0) then (false, tcpClose t)
    else if !(tcpQueueData t seg).1 then (true, (tcpQueueData t seg).2)
    else if !(tcpDeliverData (tcpQueueData t seg).2).1 then
      (false, tcpClose (tcpDeliverData (tcpQueueData t seg).2).2)
    else (true, tcpOutput (tcpWantsAck (tcpDeliverData (tcpQueueData t seg).2).2) seg)
  else (true, tcpOutput t seg)

/-- An acknowledgment between SndUna and SndNxt, up to the transition of the state; false where the
send queue is broken. -/
def tcpAckStep (len : UInt32) : Bool × Tcb :=
  if (tcpAcked (tcpCongest (countDupAck t seg len) seg) seg).1 then
    (true, tcpTransit (tcpFinAck
      (tcpUpdateWnd (tcpAcked (tcpCongest (countDupAck t seg len) seg) seg).2 seg len)))
  else (false, (tcpAcked (tcpCongest (countDupAck t seg len) seg) seg).2)

def tcpFifthStep (len : UInt32) : Bool × Tcb :=
  if tcpSeqLt seg.ack t.sndUna then tcpStepSix t seg
  else if tcpSeqGt seg.ack t.sndNxt then (true, tcpSendAck t)
  else if (tcpAckStep { t with log := .accepted seg.ack :: t.log } seg len).1 then
    tcpStepSix (tcpAckStep { t with log := .accepted seg.ack :: t.log } seg len).2 seg
  else (true, (tcpAckStep { t with log := .accepted seg.ack :: t.log } seg len).2)

/-- The connection is established by the acknowledgment of the SYN. -/
def tcpEstablish : Tcb :=
  (tcpDeliverData
    { t with
      sndWnd := seg.wnd
      sndWndMax := max seg.wnd t.sndWndMax
      sndWl1 := seg.seq
      sndWl2 := seg.ack
      state := .established }).2

/-- The SYN of the peer has come with the acknowledgment of the own one. -/
def tcpSynAcked : Bool × Tcb :=
  if (tcpTrimInWnd t seg).1 then tcpStepSix { t with ackNow := true } (tcpTrimInWnd t seg).2
  else (true,t)

/-- The SYN of the peer has come alone. -/
def tcpSimultaneousOpen : Bool × Tcb :=
  if (tcpAdjustSndQue t.sndNxt t.sndQue).1 ∧ (tcpTrimInWnd t seg).1 then
    tcpStepSix { t with state := .synRcvd, sndQue := (tcpAdjustSndQue t.sndNxt t.sndQue).2 }
      (tcpTrimInWnd t seg).2
  else (true, { t with state := .synRcvd, sndQue := (tcpAdjustSndQue t.sndNxt t.sndQue).2 })

def tcpSynReceived : Bool × Tcb :=
  if tcpSeqGt t.sndUna t.iss then tcpSynAcked (tcpDeliverData { t with state := .established }).2 seg
  else tcpSimultaneousOpen t seg

/-- TcpInput in SYN_SENT. -/
def tcpInputSynSent (option : TcpOption) : Bool × Tcb :=
  if seg.ackOn ∧ seg.ack ≠ t.iss+1 then (true,t)
  else if seg.rst then if seg.ackOn then (false, tcpClose t) else (true,t)
  else if !seg.syn then (true,t)
  else if seg.ackOn then
    tcpSynReceived
      { tcpInitTcbPeer t seg option with sndUna := seg.ack, log := .accepted seg.ack :: t.log } seg
  else tcpSynReceived (tcpInitTcbPeer t seg option) seg

def tcpInputTrimmed (len : UInt32) : Bool × Tcb :=
  if seg.syn then (false, tcpClose t)
  else if !seg.ackOn then (true,t)
  else if t.state = .synRcvd then
    if tcpSeqLt t.sndUna seg.ack ∧ tcpSeqLeq seg.ack t.sndNxt then
      tcpFifthStep (tcpEstablish t seg) seg len
    else (true,t)
  else tcpFifthStep t seg len

def tcpRepeated : Tcb :=
  if tcpSeqLt seg.seq t.rcvWl2 ∧ t.rcvWl2 = seg.endSeq ∧ !(seg.syn || seg.fin) then
    { t with ackNow := true }
  else t

/-- TcpInput in SYN_RCVD and where the connection is established. -/
def tcpInputConnected (len : UInt32) : Bool × Tcb :=
  if !tcpSeqAcceptable t seg then (true, if seg.rst then t else tcpSendAck t)
  else if seg.rst then (false, tcpClose t)
  else if !(tcpTrimInWnd t seg).1 then (true, tcpRepeated t seg)
  else tcpInputTrimmed (tcpRepeated t seg) (tcpTrimInWnd t seg).2 len

end

/-- TcpInput, with false where the connection is dropped. A listening connection hands a SYN to a child,
and a closed one has no part in it. -/
def tcpInput (head : TcpHead) (option : TcpOption) : Bool × Tcb :=
  match t.state with
  | .closed | .listen => (true,t)
  | .synSent => tcpInputSynSent t (tcpFormatNetbuf t head) option
  | _ => tcpInputConnected t (tcpFormatNetbuf t head) head.len

/-- TcpOnAppSend, behind the data that the socket has taken. -/
def tcpOnAppSend (size : UInt32) : Tcb :=
  match t.state with
  | .established | .closeWait => (tcpToSendData { t with sndDataSize := t.sndDataSize + size } false).2
  | _ => { t with sndDataSize := t.sndDataSize + size }

end

def closeState : TcpState → TcpState
  | .closed | .listen | .synSent => .closed
  | .synRcvd | .established => .finWait1
  | .closeWait => .lastAck
  | state => state

def tcpOnAppClose (t : Tcb) : Tcb :=
  if t.rcvQue ≠ [] ∨ t.rcvDataSize ≠ 0 then tcpClose t
  else (tcpToSendData { t with state := closeState t.state } true).2

def tcpOnAppAbort (t : Tcb) : Tcb := { t with state := .closed }

/-- TcpOnAppConsume, behind the data that the application has taken. -/
def tcpOnAppConsume (t : Tcb) (size : UInt32) : Tcb :=
  if t.state = .established ∧ tcpRcvWinOld t < tcpRcvWinNow { t with rcvDataSize := t.rcvDataSize - size } then
    if tcpRcvWinOld t < t.rcvMss then tcpSendAck { t with rcvDataSize := t.rcvDataSize - size }
    else if t.delayedAck = 0 then { t with rcvDataSize := t.rcvDataSize-size, delayedAck := 1 }
    else { t with rcvDataSize := t.rcvDataSize - size }
  else { t with rcvDataSize := t.rcvDataSize - size }

def tcpConnectTimeout (t : Tcb) : Tcb := if t.state.connected then t else tcpClose t

/-- The congestion window as TcpRexmitTimeout sets it. -/
def rexmitWindow (t : Tcb) : Tcb :=
  { t with
    ssthresh := max (2*t.sndMss) ((t.sndNxt-t.sndUna) / 2)
    cWnd := t.sndMss
    lossRecover := t.sndNxt }

/-- TcpRexmitTimeout, which gives up behind too many losses. -/
def tcpRexmitTimeout (t : Tcb) (giveUp : Bool) : Tcb :=
  if giveUp then tcpClose (rexmitWindow t)
  else { tcpRetransmit (rexmitWindow t) t.sndUna with congestState := .loss }

def tcpProbeTimeout (t : Tcb) : Tcb :=
  if tcpDataToSend t true ≠ 0 then
    if 0 < (tcpToSendData t true).1 then (tcpToSendData t true).2
    else tcpSendZeroProbe (tcpToSendData t true).2
  else tcpSendZeroProbe t

/-- TcpKeepaliveTimeout, which gives up behind too many probes. -/
def tcpKeepaliveTimeout (t : Tcb) (giveUp : Bool) : Tcb :=
  if giveUp then tcpClose t else tcpSendZeroProbe t

/-- TcpTickingDpc, as far as the delayed acknowledgment goes. -/
def tcpTick (t : Tcb) : Tcb := if t.state ≠ .closed ∧ t.delayedAck ≠ 0 then tcpSendAck t else t

inductive TcpAction
  | input (head : TcpHead) (option : TcpOption)
  | appSend (size : UInt32)
  | appClose
  | appAbort
  | appConsume (size : UInt32)
  | connectTimeout
  | rexmitTimeout (giveUp : Bool)
  | probeTimeout
  | keepaliveTimeout (giveUp : Bool)
  | finwait2Timeout
  | msl2Timeout
  | tick
deriving DecidableEq, Repr

/-- One step, with false where TcpInput drops the connection. -/
def tcpStep (t : Tcb) : TcpAction → Bool × Tcb
  | .input head option => tcpInput t head option
  | .appSend size => (true, tcpOnAppSend t size)
  | .appClose => (true, tcpOnAppClose t)
  | .appAbort => (true, tcpOnAppAbort t)
  | .appConsume size => (true, tcpOnAppConsume t size)
  | .connectTimeout => (true, tcpConnectTimeout t)
  | .rexmitTimeout giveUp => (true, tcpRexmitTimeout t giveUp)
  | .probeTimeout => (true, tcpProbeTimeout t)
  | .keepaliveTimeout giveUp => (true, tcpKeepaliveTimeout t giveUp)
  | .finwait2Timeout => (true, tcpClose t)
  | .msl2Timeout => (true, tcpClose t)
  | .tick => (true, tcpTick t)

end Liano.Tcp
