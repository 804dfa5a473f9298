import Liano.Tcp.Tcb

/-! What a TCP connection sends (TcpDxe/TcpOutput.c): data, SYN and FIN, and retransmissions. -/
namespace Liano.Tcp

/-- mTcpOutFlag: where a SYN goes out. -/
def outSyn : TcpState → Bool
  | .synSent | .synRcvd => true
  | _ => false

/-- mTcpOutFlag: where a FIN goes out. -/
def outFin : TcpState → Bool
  | .finWait1 | .closing | .lastAck => true
  | _ => false

/-- mTcpOutFlag: where an ACK goes out. -/
def outAck : TcpState → Bool
  | .closed | .listen | .synSent => false
  | _ => true

section
variable (t : Tcb)

def tcpGetMaxSndNxt : UInt32 := match t.sndQue.getLast? with
  | none => t.sndNxt
  | some node => node.endSeq

def sendLimit : UInt32 :=
  if tcpSeqGt (t.sndWl2+t.sndWnd) (t.sndUna+t.cWnd) then t.sndUna+t.cWnd else t.sndWl2+t.sndWnd

def sendWin : UInt32 := if tcpSeqGt (sendLimit t) t.sndNxt then sendLimit t - t.sndNxt else 0

def sendLeft : UInt32 := t.sndDataSize + (tcpGetMaxSndNxt t - t.sndNxt)

def sendLen : UInt32 := min (min (sendWin t) (sendLeft t)) t.sndMss

def tcpDataToSend (force : Bool) : UInt32 :=
  if force ∨ (sendLen t = 0 ∧ sendLeft t = 0) then sendLen t
  else if sendLen t = 0 then 0
  else if sendLen t = t.sndMss ∨ t.sndWndMax ≤ 2 * sendLen t then sendLen t
  else if sendLen t = sendLeft t ∧ (t.sndNxt = t.sndUna ∨ t.noNagle) then sendLen t
  else 0

structure TcpNbuf where
  seg : TcpSeg
  place : Option Nat
deriving DecidableEq, Repr

section
variable (node : TcpSeg) (seq len : UInt32)

def copyEnd : UInt32 :=
  if tcpSeqLt (seq+len) node.endSeq then seq+len else node.endSeq

def copySyn (node : TcpSeg) (seq : UInt32) : Bool := node.syn && !tcpSeqLt node.seq seq

def copyFin : Bool := node.fin && node.endSeq == copyEnd node seq len

def copyLen : UInt32 :=
  copyEnd node seq len - seq - flagLen (copySyn node seq) - flagLen (copyFin node seq len)

def copyOffset (node : TcpSeg) (seq : UInt32) : UInt32 :=
  seq-node.seq - flagLen (node.syn && tcpSeqLt node.seq seq)

def tcpCopySegment : Option TcpNbuf := if copyLen node seq len ≠ 0 ∧
      node.size.toNat < (copyOffset node seq).toNat + (copyLen node seq len).toNat then none
  else
    some ⟨{ node with
      seq := seq
      endSeq := copyEnd node seq len
      syn := copySyn node seq
      fin := copyFin node seq len
      size := copyLen node seq len }, none⟩

end

def tcpGetSegmentSndQue (seq len : UInt32) : Option TcpNbuf × Tcb :=
  match t.sndQue.findIdx? fun node => tcpSeqLt seq node.endSeq && tcpSeqLeq node.seq seq with
  | none => (none,t)
  | some place =>
    match t.sndQue[place]? with
    | none => (none,t)
    | some node =>
      if node.seq = seq ∧ tcpSeqLeq node.endSeq (node.seq+len) ∧ t.outcome then
        (some ⟨node, some place⟩, t.next)
      else if t.next.outcome then (tcpCopySegment node seq len, t.next.next)
      else (none,t.next.next)

def tcpGetSegmentSock (seq len : UInt32) : Option TcpNbuf × Tcb := if t.outcome then
    (some ⟨{ emptySeg seq with endSeq := seq+len, ackOn := false, size := len }, some t.sndQue.length⟩,
      { t.next with
        sndQue := t.sndQue ++ [{ emptySeg seq with endSeq := seq+len, ackOn := false, size := len }]
        sndDataSize := t.sndDataSize - min len t.sndDataSize })
  else (none,t.next)

/-- Where TcpGetSegment takes the segment from. -/
def tcpFindSegment (seq len : UInt32) : Option TcpNbuf × Tcb :=
  if len ≠ 0 ∧ tcpSeqLt seq (tcpGetMaxSndNxt t) then tcpGetSegmentSndQue t seq len
  else tcpGetSegmentSock t seq len

def tcpGetSegment (seq len : UInt32) : Option TcpNbuf × Tcb :=
  ((tcpFindSegment t seq len).1.filter fun nbuf => tcpVerifySegment nbuf.seg, (tcpFindSegment t seq len).2)

def Tcb.putSegment (place : Option Nat) (seg : TcpSeg) : Tcb := match place with
  | none => t
  | some i => { t with sndQue := t.sndQue.set i seg }

def retransmitLen (seq : UInt32) : Option UInt32 :=
  if t.sndWndScale ≠ 0 ∧ (tcpSeqGt seq t.retxmitSeqMax ∨ tcpSeqBetween (t.sndWl2+t.sndWnd) seq
        (t.sndWl2+t.sndWnd + UInt32.ofNat (2^t.sndWndScale))) then
    some (min (t.sndNxt-seq) t.sndMss)
  else if tcpSeqGeq (t.sndWl2+t.sndWnd) seq then some (min (t.sndWl2+t.sndWnd-seq) t.sndMss)
  else none

def retransmitted (seq : UInt32) (r : Bool × Tcb) : Tcb :=
  if r.1 ∧ tcpSeqGt seq r.2.retxmitSeqMax then { r.2 with retxmitSeqMax := seq } else r.2

def tcpRetransmit (seq : UInt32) : Tcb := match retransmitLen t seq with
  | none => t
  | some len =>
    match (tcpGetSegmentSndQue t seq len).1 with
    | none => (tcpGetSegmentSndQue t seq len).2
    | some nbuf => retransmitted seq (tcpTransmitSegment (tcpGetSegmentSndQue t seq len).2 nbuf.seg)

def chained (seq : UInt32) : List TcpSeg → Bool
  | [] => true
  | node :: rest => tcpVerifySegment node && seq == node.seq && chained node.endSeq rest

def tcpCheckSndQue (sndQue : List TcpSeg) : Bool := match sndQue with
  | [] => true
  | node :: rest => chained node.seq (node :: rest)

/-- Whether the FIN goes out with a segment that ends at the number. -/
def sendsFin (endSeq : UInt32) : Bool :=
  outFin t.state && tcpGetMaxSndNxt t == t.sndNxt && t.sndDataSize == 0 &&
    tcpSeqLt (endSeq+1) (t.sndWnd+t.sndWl2)

/-- The segment as TcpToSendData fills it. -/
def fillSegment (seq : UInt32) (seg : TcpSeg) : TcpSeg := { seg with
    seq := seq
    endSeq := seq+seg.size + flagLen (outSyn t.state) +
      flagLen (sendsFin t (seq+seg.size + flagLen (outSyn t.state)))
    fin := sendsFin t (seq+seg.size + flagLen (outSyn t.state))
    syn := outSyn t.state
    rst := false
    psh := false
    ackOn := outAck t.state }

/-- The IP layer has taken the segment, or it has not; with the number of sequence numbers sent. -/
def segmentSent (seg : TcpSeg) (r : Bool × Tcb) : Option Nat × Tcb :=
  if r.1 then
    (some (seg.endSeq-seg.seq).toNat,
      { r.2 with
        delayedAck := 0
        finSent := r.2.finSent || seg.fin
        sndNxt := if tcpSeqGt seg.endSeq r.2.sndNxt then seg.endSeq else r.2.sndNxt })
  else (none, { r.2 with finSent := r.2.finSent || seg.fin, log := .refused seg :: r.2.log })

def tcpSendSegment (seg : TcpSeg) : Option Nat × Tcb :=
  if !tcpVerifySegment seg || !tcpCheckSndQue t.sndQue then (none,t)
  else if seg.endSeq = seg.seq then (none,t)
  else segmentSent seg (tcpTransmitSegment t seg)

def nextSeq : UInt32 := if outSyn t.state then t.iss else t.sndNxt

def nextLen (force : Bool) : UInt32 := if outSyn t.state then 0 else tcpDataToSend t force

def tcpSendNbuf (seq : UInt32) (nbuf : TcpNbuf) : Option Nat × Tcb :=
  tcpSendSegment (t.putSegment nbuf.place (fillSegment t seq nbuf.seg)) (fillSegment t seq nbuf.seg)

/-- One turn of the loop of TcpToSendData: the number of sequence numbers sent, and the number of bytes;
none where the loop is left. -/
def tcpSendNext (force : Bool) : Option (Nat × UInt32) × Tcb :=
  if nextLen t force = 0 ∧ !outSyn t.state ∧ !outFin t.state then (none,t)
  else
    match (tcpGetSegment t (nextSeq t) (nextLen t force)).1 with
    | none => (none, (tcpGetSegment t (nextSeq t) (nextLen t force)).2)
    | some nbuf =>
      ((tcpSendNbuf (tcpGetSegment t (nextSeq t) (nextLen t force)).2 (nextSeq t) nbuf).1.map
          fun n => (n,nbuf.seg.size),
        (tcpSendNbuf (tcpGetSegment t (nextSeq t) (nextLen t force)).2 (nextSeq t) nbuf).2)

/-- The loop of TcpToSendData, which goes on behind a full segment. -/
def tcpSendLoop (force : Bool) : Nat → Nat → Tcb → Nat × Tcb
  | 0, sent, t => (sent,t)
  | fuel+1, sent, t =>
    match tcpSendNext t force with
    | (none,t') => (sent,t')
    | (some (n,size), t') =>
      if size = t'.sndMss then tcpSendLoop force fuel (sent+n) t' else (sent+n, t')

/-- TcpToSendData. A full segment takes at least one of the bytes that are left. -/
def tcpToSendData (force : Bool) : Nat × Tcb :=
  if t.state = .closed ∨ t.finSent then (0,t)
  else tcpSendLoop force ((sendLeft t).toNat + 2) 0 t

end

end Liano.Tcp
