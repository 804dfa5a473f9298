import Liano.Tcp.Input

/-! The close of a TCP connection: what is known of the own FIN in every state of a run, and what the
code takes for its acknowledgment. -/
namespace Liano.Tcp

open List hiding max

/-- The FIN has been taken by the IP layer when nothing was left to send, and a later segment has been
accepted that acknowledges it. -/
def FinAcknowledged (log : List TcpEvent) : Prop :=
  ∃ later ack earlier seg sndQue, log = later ++ .accepted ack :: earlier ∧
    .sent seg sndQue 0 ∈ earlier ∧ seg.fin = true ∧ tcpCheckSndQue sndQue = true ∧
    sndQue.getLast? = some seg ∧ tcpSeqGt ack seg.seq = true

/-- The IP layer has refused no FIN. -/
def NoFinRefused (log : List TcpEvent) : Prop := ∀ seg, .refused seg ∈ log → seg.fin = false

/-- The states that wait for the acknowledgment of the FIN. -/
def TcpState.WaitsForAck (s : TcpState) : Prop := s = .finWait1 ∨ s = .closing ∨ s = .lastAck

theorem not_waitsForAck {t : Tcb} {s : TcpState} (hst : t.state = s)
    (h : ¬ (s = .finWait1 ∨ s = .closing ∨ s = .lastAck) := by decide) : ¬ t.state.WaitsForAck := hst ▸ h

structure FinInv (t : Tcb) : Prop where
  sent : t.finSent = true → ∃ seg sndQue, .sent seg sndQue 0 ∈ t.log ∧ seg.fin = true ∧
    tcpCheckSndQue sndQue = true ∧ sndQue.getLast? = some seg ∧ t.sndNxt = seg.seq+1
  acked : t.finAcked = true → FinAcknowledged t.log

/-- Nothing happens to what the acknowledgment of the FIN is told by. -/
structure Quiet (t t' : Tcb) : Prop where
  finSent : t'.finSent = t.finSent
  finAcked : t'.finAcked = t.finAcked
  sndUna : t'.sndUna = t.sndUna
  sndNxt : t'.sndNxt = t.sndNxt
  sndWl1 : t'.sndWl1 = t.sndWl1
  sndWl2 : t'.sndWl2 = t.sndWl2
  sndWnd : t'.sndWnd = t.sndWnd
  sndWndScale : t'.sndWndScale = t.sndWndScale
  sndQue : t'.sndQue = t.sndQue
  sndMss : t'.sndMss = t.sndMss
  state : t'.state = t.state
  log : t.log <:+ t'.log

/-- What holds of the FIN goes on to hold, and a state that waits for its acknowledgment is left for
another only with it. -/
structure Advances (t t' : Tcb) : Prop where
  log : t.log <:+ t'.log
  inv : NoFinRefused t'.log → FinInv t → FinInv t'
  waiting : NoFinRefused t'.log → FinInv t → t.state.WaitsForAck →
    t'.state = t.state ∨ (t.state = .finWait1 ∧ t'.state = .closing) ∨ FinAcknowledged t'.log

section
variable {t t' t'' : Tcb} {seg : TcpSeg} {log log' : List TcpEvent}

theorem FinAcknowledged.mono (h : FinAcknowledged log) (hlog : log <:+ log') : FinAcknowledged log' := by
  obtain ⟨later,ack,earlier,seg,sndQue,rfl,hrest⟩ := h
  obtain ⟨new,rfl⟩ := hlog
  exact ⟨new ++ later, ack, earlier, seg, sndQue, (append_assoc _ _ _).symm, hrest⟩

theorem NoFinRefused.mono (h : NoFinRefused log') (hlog : log <:+ log') : NoFinRefused log :=
  fun seg hseg => h seg (hlog.subset hseg)

theorem Quiet.refl (t : Tcb) : Quiet t t :=
  ⟨rfl, rfl, rfl, rfl, rfl, rfl, rfl, rfl, rfl, rfl, rfl, suffix_rfl⟩

theorem Quiet.trans (h : Quiet t t') (h' : Quiet t' t'') : Quiet t t'' where
  finSent := h'.finSent.trans h.finSent
  finAcked := h'.finAcked.trans h.finAcked
  sndUna := h'.sndUna.trans h.sndUna
  sndNxt := h'.sndNxt.trans h.sndNxt
  sndWl1 := h'.sndWl1.trans h.sndWl1
  sndWl2 := h'.sndWl2.trans h.sndWl2
  sndWnd := h'.sndWnd.trans h.sndWnd
  sndWndScale := h'.sndWndScale.trans h.sndWndScale
  sndQue := h'.sndQue.trans h.sndQue
  sndMss := h'.sndMss.trans h.sndMss
  state := h'.state.trans h.state
  log := h.log.trans h'.log

theorem Advances.refl (t : Tcb) : Advances t t := ⟨suffix_rfl, fun _ h => h, fun _ _ _ => .inl rfl⟩

theorem Advances.trans (h : Advances t t') (h' : Advances t' t'') : Advances t t'' where
  log := h.log.trans h'.log
  inv hno hinv := h'.inv hno (h.inv (hno.mono h'.log) hinv)
  waiting hno hinv hwaits := by
    have hno' := hno.mono h'.log
    have hinv' := h.inv hno' hinv
    rcases h.waiting hno' hinv hwaits with hsame | ⟨hfin,hclosing⟩ | hacked
    · rw [← hsame] at hwaits ⊢
      exact h'.waiting hno hinv' hwaits
    · rcases h'.waiting hno hinv' (.inr (.inl hclosing)) with hsame | ⟨hother,-⟩ | hacked
      · exact .inr (.inl ⟨hfin, hsame.trans hclosing⟩)
      · rw [hclosing] at hother
        cases hother
      · exact .inr (.inr hacked)
    · exact .inr (.inr (hacked.mono h'.log))

theorem Advances.of_eq (hsent : t'.finSent = t.finSent) (hacked : t'.finAcked = t.finAcked)
    (hnxt : t'.sndNxt = t.sndNxt) (hlog : t.log <:+ t'.log)
    (hst : t.state.WaitsForAck → t.finAcked = false →
      t'.state = t.state ∨ (t.state = .finWait1 ∧ t'.state = .closing)) : Advances t t' where
  log := hlog
  inv _ h := by
    constructor
    · intro hfin
      rw [hsent] at hfin
      obtain ⟨seg,sndQue,hmem,hrest⟩ := h.sent hfin
      rw [hnxt]
      exact ⟨seg, sndQue, hlog.subset hmem, hrest⟩
    · intro hfin
      rw [hacked] at hfin
      exact (h.acked hfin).mono hlog
  waiting _ h hwaits := by
    cases hfin : t.finAcked with
    | true => exact .inr (.inr ((h.acked hfin).mono hlog))
    | false =>
      rcases hst hwaits hfin with hsame | hclosing
      · exact .inl hsame
      · exact .inr (.inl hclosing)

theorem Quiet.advances (h : Quiet t t') : Advances t t' :=
  Advances.of_eq h.finSent h.finAcked h.sndNxt h.log fun _ _ => .inl h.state

theorem quiet_next (t : Tcb) : Quiet t t.next :=
  ⟨rfl, rfl, rfl, rfl, rfl, rfl, rfl, rfl, rfl, rfl, rfl, suffix_rfl⟩

theorem quiet_transmit (t : Tcb) (seg : TcpSeg) : Quiet t (tcpTransmitSegment t seg).2 := by
  unfold tcpTransmitSegment
  split
  · refine ⟨rfl, rfl, rfl, rfl, rfl, rfl, rfl, rfl, rfl, rfl, rfl, ?_⟩
    dsimp only
    split
    · exact suffix_cons _ _
    · exact suffix_rfl
  · exact Quiet.refl t

theorem quiet_ackSent (r : Bool × Tcb) : Quiet r.2 (ackSent r) := by
  unfold ackSent
  split
  · exact ⟨rfl, rfl, rfl, rfl, rfl, rfl, rfl, rfl, rfl, rfl, rfl, suffix_rfl⟩
  · exact Quiet.refl _

theorem quiet_sendAck (t : Tcb) : Quiet t (tcpSendAck t) := by
  unfold tcpSendAck
  split
  · exact (quiet_next t).trans ((quiet_transmit _ _).trans (quiet_ackSent _))
  · exact quiet_next t

theorem quiet_sendZeroProbe (t : Tcb) : Quiet t (tcpSendZeroProbe t) := by
  unfold tcpSendZeroProbe
  split
  · exact (quiet_next t).trans (quiet_transmit _ _)
  · exact quiet_next t

theorem quiet_toSendAck (t : Tcb) : Quiet t (tcpToSendAck t) := by
  unfold tcpToSendAck
  split
  · exact quiet_sendAck t
  · split
    · exact quiet_sendAck t
    · exact ⟨rfl, rfl, rfl, rfl, rfl, rfl, rfl, rfl, rfl, rfl, rfl, suffix_rfl⟩

theorem quiet_getSegmentSndQue (t : Tcb) (seq len : UInt32) : Quiet t (tcpGetSegmentSndQue t seq len).2 := by
  unfold tcpGetSegmentSndQue
  split
  · exact Quiet.refl t
  split
  · exact Quiet.refl t
  split
  · exact quiet_next t
  · split
    · exact (quiet_next t).trans (quiet_next _)
    · exact (quiet_next t).trans (quiet_next _)

theorem quiet_retransmitted (seq : UInt32) (r : Bool × Tcb) : Quiet r.2 (retransmitted seq r) := by
  unfold retransmitted
  split
  · exact ⟨rfl, rfl, rfl, rfl, rfl, rfl, rfl, rfl, rfl, rfl, rfl, suffix_rfl⟩
  · exact Quiet.refl _

theorem quiet_retransmit (t : Tcb) (seq : UInt32) : Quiet t (tcpRetransmit t seq) := by
  unfold tcpRetransmit
  split
  · exact Quiet.refl t
  split
  · exact quiet_getSegmentSndQue t seq _
  · exact (quiet_getSegmentSndQue t seq _).trans
      ((quiet_transmit _ _).trans (quiet_retransmitted seq _))

section
variable (t : Tcb) (seg : TcpSeg)

theorem quiet_fastRecover : Quiet t (tcpFastRecover t seg) := by
  unfold tcpFastRecover
  split
  · obtain ⟨h1,h2,h3,h4,h5,h6,h7,h8,h9,h10,h11,h12⟩ := quiet_retransmit
      { t with
        ssthresh := max ((t.sndNxt-t.sndUna) >>> 1) (2*t.sndMss)
        recover := t.sndNxt
        congestState := .recover } t.sndUna
    exact ⟨h1, h2, h3, h4, h5, h6, h7, h8, h9, h10, h11, h12⟩
  split
  · exact ⟨rfl, rfl, rfl, rfl, rfl, rfl, rfl, rfl, rfl, rfl, rfl, suffix_rfl⟩
  split
  · exact ⟨rfl, rfl, rfl, rfl, rfl, rfl, rfl, rfl, rfl, rfl, rfl, suffix_rfl⟩
  · obtain ⟨h1,h2,h3,h4,h5,h6,h7,h8,h9,h10,h11,h12⟩ := quiet_retransmit t seg.ack
    exact ⟨h1, h2, h3, h4, h5, h6, h7, h8, h9, h10, h11, h12⟩

theorem quiet_fastLossRecover : Quiet t (tcpFastLossRecover t seg) := by
  unfold tcpFastLossRecover
  split
  · split
    · exact ⟨rfl, rfl, rfl, rfl, rfl, rfl, rfl, rfl, rfl, rfl, rfl, suffix_rfl⟩
    · exact quiet_retransmit t seg.ack
  · exact Quiet.refl t

theorem quiet_growCWnd : Quiet t (growCWnd t seg) := by
  unfold growCWnd
  split
  · exact ⟨rfl, rfl, rfl, rfl, rfl, rfl, rfl, rfl, rfl, rfl, rfl, suffix_rfl⟩
  · exact Quiet.refl t

theorem quiet_countDupAck (len : UInt32) : Quiet t (countDupAck t seg len) := by
  unfold countDupAck
  split
  · exact ⟨rfl, rfl, rfl, rfl, rfl, rfl, rfl, rfl, rfl, rfl, rfl, suffix_rfl⟩
  · exact ⟨rfl, rfl, rfl, rfl, rfl, rfl, rfl, rfl, rfl, rfl, rfl, suffix_rfl⟩

theorem quiet_congest : Quiet t (tcpCongest t seg) := by
  unfold tcpCongest
  split
  · split
    · exact (quiet_growCWnd t seg).trans (quiet_fastLossRecover _ seg)
    · exact quiet_growCWnd t seg
  · exact quiet_fastRecover t seg

end

theorem tcpSeqGt_succ (seq : UInt32) : tcpSeqGt (seq+1) seq = true := by
  unfold tcpSeqGt tcpSeqLt
  have hsub : seq - (seq+1) = 0xffffffff := by grind
  rw [hsub]
  decide

theorem tcpSeqLt_irrefl (seq : UInt32) : tcpSeqLt seq seq = false := by
  unfold tcpSeqLt
  rw [UInt32.sub_self]
  decide

structure Got (t t' : Tcb) : Prop where
  finSent : t'.finSent = t.finSent
  finAcked : t'.finAcked = t.finAcked
  sndNxt : t'.sndNxt = t.sndNxt
  sndMss : t'.sndMss = t.sndMss
  state : t'.state = t.state
  log : t'.log = t.log

theorem got_segmentSndQue (t : Tcb) (seq len : UInt32) : Got t (tcpGetSegmentSndQue t seq len).2 := by
  unfold tcpGetSegmentSndQue
  split
  · exact ⟨rfl, rfl, rfl, rfl, rfl, rfl⟩
  split
  · exact ⟨rfl, rfl, rfl, rfl, rfl, rfl⟩
  split
  · exact ⟨rfl, rfl, rfl, rfl, rfl, rfl⟩
  · split
    · exact ⟨rfl, rfl, rfl, rfl, rfl, rfl⟩
    · exact ⟨rfl, rfl, rfl, rfl, rfl, rfl⟩

theorem got_segment (t : Tcb) (seq len : UInt32) : Got t (tcpGetSegment t seq len).2 := by
  unfold tcpGetSegment tcpFindSegment
  split
  · exact got_segmentSndQue t seq len
  unfold tcpGetSegmentSock
  split
  · exact ⟨rfl, rfl, rfl, rfl, rfl, rfl⟩
  · exact ⟨rfl, rfl, rfl, rfl, rfl, rfl⟩

theorem tcpGetMaxSndNxt_append (t : Tcb) (que : List TcpSeg) (node : TcpSeg)
    (h : t.sndQue = que ++ [node]) : tcpGetMaxSndNxt t = node.endSeq := by
  unfold tcpGetMaxSndNxt
  rw [h, getLast?_concat]

variable {len : UInt32}

theorem tcpGetSegmentSock_some {seq : UInt32} {nbuf : TcpNbuf}
    (h : (tcpGetSegmentSock t seq len).1 = some nbuf) :
    nbuf.seg.size = len ∧ nbuf.seg.endSeq = seq+len ∧ nbuf.place = some t.sndQue.length ∧
      (tcpGetSegmentSock t seq len).2.sndQue = t.sndQue ++ [nbuf.seg] := by
  unfold tcpGetSegmentSock at h ⊢
  split at h
  · rename_i hout
    rw [if_pos hout]
    obtain rfl := Option.some.inj h
    exact ⟨rfl, rfl, rfl, rfl⟩
  · cases h

theorem sendsFin_last {e : UInt32} {nbuf : TcpNbuf} (h : (tcpGetSegment t t.sndNxt len).1 = some nbuf)
    (hfin : sendsFin (tcpGetSegment t t.sndNxt len).2 e = true) :
    nbuf.seg.size = 0 ∧ ∃ que, (tcpGetSegment t t.sndNxt len).2.sndQue = que ++ [nbuf.seg] ∧
      nbuf.place = some que.length := by
  have hmax : tcpGetMaxSndNxt (tcpGetSegment t t.sndNxt len).2 = t.sndNxt := by
    unfold sendsFin at hfin
    simp only [Bool.and_eq_true, beq_iff_eq] at hfin
    exact hfin.1.1.2.trans (got_segment t t.sndNxt len).sndNxt
  have hfnd := (Option.filter_eq_some_iff.mp h).1
  unfold tcpGetSegment at hmax ⊢
  unfold tcpFindSegment at hfnd hmax ⊢
  by_cases hqueued : len ≠ 0 ∧ tcpSeqLt t.sndNxt (tcpGetMaxSndNxt t) = true
  · -- the queue has a segment behind SndNxt, and keeps it
    rw [if_pos hqueued] at hmax
    have hquiet := quiet_getSegmentSndQue t t.sndNxt len
    unfold tcpGetMaxSndNxt at hmax
    rw [hquiet.sndQue, hquiet.sndNxt] at hmax
    have hlt := hqueued.2
    unfold tcpGetMaxSndNxt at hlt
    rw [hmax, tcpSeqLt_irrefl] at hlt
    cases hlt
  · rw [if_neg hqueued] at hfnd hmax ⊢
    obtain ⟨hsize,hend,hplace,hque⟩ := tcpGetSegmentSock_some hfnd
    rw [tcpGetMaxSndNxt_append _ _ _ hque, hend] at hmax
    have hzero : len = 0 := by grind
    exact ⟨hsize.trans hzero, t.sndQue, hque, hplace⟩

theorem tcpDataToSend_zero (hmss : t.sndMss = 0) (force : Bool) : tcpDataToSend t force = 0 := by
  have hlen : sendLen t = 0 := by
    unfold sendLen
    rw [hmss]
    show (if _ ≤ (0 : UInt32) then _ else (0 : UInt32)) = 0
    split
    · rename_i hle
      exact UInt32.le_zero_iff.mp hle
    · rfl
  unfold tcpDataToSend
  rw [hlen, if_pos rfl, ite_self]

/-- In a round of the loop behind a FIN nothing is left: the segment size is zero. -/
def LoopInv (t : Tcb) : Prop := t.finSent = true → t.sndMss = 0 ∧ outFin t.state = true

theorem outSyn_of_outFin {s : TcpState} (h : outFin s = true) : outSyn s = false := by
  cases s
  all_goals first | rfl | cases h

/-- What a round of the loop of TcpToSendData does. -/
structure SendsNext (t t' : Tcb) : Prop where
  state : t'.state = t.state
  sndMss : t'.sndMss = t.sndMss
  finAcked : t'.finAcked = t.finAcked
  log : t.log <:+ t'.log
  inv : NoFinRefused t'.log → FinInv t → FinInv t'

theorem SendsNext.refl (t : Tcb) : SendsNext t t := ⟨rfl, rfl, rfl, suffix_rfl, fun _ h => h⟩

theorem SendsNext.trans (h : SendsNext t t') (h' : SendsNext t' t'') : SendsNext t t'' where
  state := h'.state.trans h.state
  sndMss := h'.sndMss.trans h.sndMss
  finAcked := h'.finAcked.trans h.finAcked
  log := h.log.trans h'.log
  inv hno hinv := h'.inv hno (h.inv (hno.mono h'.log) hinv)

theorem SendsNext.advances (h : SendsNext t t') : Advances t t' where
  log := h.log
  inv := h.inv
  waiting _ _ _ := .inl h.state

theorem SendsNext.of_eq (hst : t'.state = t.state) (hmss : t'.sndMss = t.sndMss)
    (hacked : t'.finAcked = t.finAcked) (hsent : t'.finSent = t.finSent) (hnxt : t'.sndNxt = t.sndNxt)
    (hlog : t.log <:+ t'.log) : SendsNext t t' :=
  ⟨hst, hmss, hacked, hlog, (Advances.of_eq hsent hacked hnxt hlog fun _ _ => .inl hst).inv⟩

theorem Quiet.sendsNext (h : Quiet t t') : SendsNext t t' :=
  SendsNext.of_eq h.state h.sndMss h.finAcked h.finSent h.sndNxt h.log

theorem Got.sendsNext (h : Got t t') : SendsNext t t' :=
  SendsNext.of_eq h.state h.sndMss h.finAcked h.finSent h.sndNxt (h.log ▸ suffix_rfl)

theorem quiet_putSegment_fields (t : Tcb) (place : Option Nat) (seg : TcpSeg) :
    Got t (t.putSegment place seg) ∧ (t.putSegment place seg).sndDataSize = t.sndDataSize := by
  unfold Tcb.putSegment
  split
  · exact ⟨⟨rfl, rfl, rfl, rfl, rfl, rfl⟩, rfl⟩
  · exact ⟨⟨rfl, rfl, rfl, rfl, rfl, rfl⟩, rfl⟩

/-- A segment with a FIN is the last of a send queue that is in good shape, and nothing is behind it. -/
structure LastSegment (t : Tcb) (seg : TcpSeg) : Prop where
  last : t.sndQue.getLast? = some seg
  none : t.sndDataSize = 0
  seq : seg.seq = t.sndNxt
  endSeq : seg.endSeq = seg.seq+1
  size : seg.size = 0

/-- A filled segment goes out. Where the FIN is behind, only an empty one is left to send. -/
theorem tcpSendSegment_spec (hfin : seg.fin = true → LastSegment t seg)
    (hbeh : t.finSent = true → seg.fin = false → seg.endSeq = seg.seq) :
    SendsNext t (tcpSendSegment t seg).2 ∧ ((tcpSendSegment t seg).1.isSome = true →
      (tcpSendSegment t seg).2.finSent = true → seg.fin = true) := by
  unfold tcpSendSegment
  split
  · exact ⟨SendsNext.refl t, fun h => absurd h Bool.false_ne_true⟩
  rename_i hgood
  split
  · exact ⟨SendsNext.refl t, fun h => absurd h Bool.false_ne_true⟩
  rename_i hne
  have hchk : tcpCheckSndQue t.sndQue = true := by
    cases hque : tcpCheckSndQue t.sndQue with
    | true => rfl
    | false => exact absurd (by rw [hque, Bool.not_false, Bool.or_true]) hgood
  have hver : tcpVerifySegment seg = true := by
    cases hseg : tcpVerifySegment seg with
    | true => rfl
    | false => exact absurd (by rw [hseg, Bool.not_false, Bool.true_or]) hgood
  have hquiet := quiet_transmit t seg
  have hsent : (tcpTransmitSegment t seg).1 = true →
      .sent seg t.sndQue t.sndDataSize ∈ (tcpTransmitSegment t seg).2.log := by
    unfold tcpTransmitSegment
    rw [if_pos hver]
    intro htaken
    rw [if_pos htaken]
    exact mem_cons_self
  unfold segmentSent
  split
  · rename_i htaken
    cases hflag : seg.fin with
    | true =>
      -- the FIN has been taken
      have hlast := hfin hflag
      refine ⟨⟨hquiet.state, hquiet.sndMss, hquiet.finAcked, hquiet.log, fun hno hinv => ?_⟩,
        fun _ _ => rfl⟩
      refine ⟨fun _ => ⟨seg, t.sndQue, ?_, hflag, hchk, hlast.last, ?_⟩, ?_⟩
      · rw [← hlast.none]
        exact hsent htaken
      · dsimp only
        rw [hquiet.sndNxt, hlast.endSeq, ← hlast.seq, if_pos (tcpSeqGt_succ _)]
      · intro hacked
        exact (hinv.acked (hquiet.finAcked.symm.trans hacked)).mono hquiet.log
    | false =>
      have hbef : t.finSent = false := by
        cases hsentBef : t.finSent with
        | false => rfl
        | true => exact absurd (hbeh hsentBef hflag) hne
      have hafter : ((tcpTransmitSegment t seg).2.finSent || seg.fin) = false := by
        rw [hquiet.finSent, hbef, hflag]
        rfl
      refine ⟨⟨hquiet.state, hquiet.sndMss, hquiet.finAcked, hquiet.log, fun hno hinv => ?_⟩, ?_⟩
      · refine ⟨fun h => ?_, fun hacked =>
          (hinv.acked (hquiet.finAcked.symm.trans hacked)).mono hquiet.log⟩
        rw [← hflag, hafter] at h
        cases h
      · intro _ h
        rw [← hflag, hafter] at h
        cases h
  · -- the IP layer has refused it
    refine ⟨⟨hquiet.state, hquiet.sndMss, hquiet.finAcked,
      hquiet.log.trans (suffix_cons _ _), fun hno hinv => ?_⟩, fun h => absurd h Bool.false_ne_true⟩
    have hflag := hno seg mem_cons_self
    have hold := (hquiet.advances.inv (hno.mono (suffix_cons _ _)) hinv)
    constructor
    · intro h
      rw [hflag, Bool.or_false] at h
      obtain ⟨fin,sndQue,hmem,hrest⟩ := hold.sent h
      exact ⟨fin, sndQue, mem_cons_of_mem _ hmem, hrest⟩
    · intro h
      exact (hold.acked h).mono (suffix_cons _ _)

theorem tcpSendNext_spec (force : Bool) (hloop : LoopInv t) :
    SendsNext t (tcpSendNext t force).2 ∧ ∀ n size, (tcpSendNext t force).1 = some (n,size) →
      size = (tcpSendNext t force).2.sndMss → LoopInv (tcpSendNext t force).2 := by
  unfold tcpSendNext
  split
  · exact ⟨SendsNext.refl t, fun n size h => by cases h⟩
  have hgot := got_segment t (nextSeq t) (nextLen t force)
  split
  · exact ⟨hgot.sendsNext, fun n size h => by cases h⟩
  rename_i nbuf hnbuf
  have hfinSeq : outFin t.state = true → nextSeq t = t.sndNxt := by
    intro hout
    unfold nextSeq
    rw [outSyn_of_outFin hout, if_neg Bool.false_ne_true]
  have hout : ∀ e, sendsFin (tcpGetSegment t (nextSeq t) (nextLen t force)).2 e = true →
      outFin t.state = true := by
    intro e h
    unfold sendsFin at h
    simp only [Bool.and_eq_true] at h
    rw [← hgot.state]
    exact h.1.1.1
  have hempty : t.finSent = true → nbuf.seg.size = 0 ∧ outSyn t.state = false := by
    intro hsent
    obtain ⟨hmss,hfinSt⟩ := hloop hsent
    have hnosyn := outSyn_of_outFin hfinSt
    have hlen : nextLen t force = 0 := by
      unfold nextLen
      rw [hnosyn, if_neg Bool.false_ne_true]
      exact tcpDataToSend_zero hmss force
    have hfnd := (Option.filter_eq_some_iff.mp hnbuf).1
    unfold tcpFindSegment at hfnd
    rw [if_neg (fun h => h.1 hlen)] at hfnd
    exact ⟨(tcpGetSegmentSock_some hfnd).1.trans hlen, hnosyn⟩
  generalize hget : tcpGetSegment t (nextSeq t) (nextLen t force) = got at hgot hout hnbuf ⊢
  obtain ⟨hput,hdata⟩ := quiet_putSegment_fields got.2 nbuf.place
    (fillSegment got.2 (nextSeq t) nbuf.seg)
  unfold tcpSendNbuf
  have hfin : (fillSegment got.2 (nextSeq t) nbuf.seg).fin = true →
      LastSegment (got.2.putSegment nbuf.place (fillSegment got.2 (nextSeq t) nbuf.seg))
        (fillSegment got.2 (nextSeq t) nbuf.seg) := by
    intro hflag
    have hst := hout _ hflag
    have hseq := hfinSeq hst
    rw [hseq] at hget
    have hlast := @sendsFin_last t (nextLen t force)
      (nextSeq t + nbuf.seg.size + flagLen (outSyn got.2.state)) nbuf
      (by rw [hget]; exact hnbuf) (by rw [hget]; exact hflag)
    rw [hget] at hlast
    obtain ⟨hsize,que,hque,hplace⟩ := hlast
    constructor
    · unfold Tcb.putSegment
      rw [hplace]
      dsimp only
      rw [hque, set_append_right _ _ le_rfl, Nat.sub_self]
      exact getLast?_concat
    · rw [hdata]
      have h := hflag
      unfold fillSegment sendsFin at h
      simp only [Bool.and_eq_true, beq_iff_eq] at h
      exact h.1.2
    · exact hseq.trans (hgot.sndNxt.symm.trans hput.sndNxt.symm)
    · have hsyn : outSyn got.2.state = false := by
        rw [hgot.state]
        exact outSyn_of_outFin hst
      have h := hflag
      unfold fillSegment at h ⊢
      dsimp only at h ⊢
      rw [h, hsyn, hsize]
      show nextSeq t + 0 + 0 + 1 = nextSeq t + 1
      rw [UInt32.add_zero, UInt32.add_zero]
    · exact hsize
  have hbeh : (got.2.putSegment nbuf.place (fillSegment got.2 (nextSeq t) nbuf.seg)).finSent = true →
      (fillSegment got.2 (nextSeq t) nbuf.seg).fin = false →
      (fillSegment got.2 (nextSeq t) nbuf.seg).endSeq = (fillSegment got.2 (nextSeq t) nbuf.seg).seq := by
    intro hsent hflag
    rw [hput.finSent, hgot.finSent] at hsent
    obtain ⟨hsize,hnosyn⟩ := hempty hsent
    have hsyn : outSyn got.2.state = false := by
      rw [hgot.state]
      exact hnosyn
    have h := hflag
    unfold fillSegment at h ⊢
    dsimp only at h ⊢
    rw [h, hsyn, hsize]
    show nextSeq t + 0 + 0 + 0 = nextSeq t
    rw [UInt32.add_zero, UInt32.add_zero, UInt32.add_zero]
  obtain ⟨hsends,honly⟩ := tcpSendSegment_spec hfin hbeh
  have hall := hgot.sendsNext.trans (hput.sendsNext.trans hsends)
  refine ⟨hall, fun n size hsome hfull hsent => ?_⟩
  obtain ⟨n',hn',hpair⟩ := Option.map_eq_some_iff.mp hsome
  have hflag := honly (by rw [hn']; rfl) hsent
  have hsize : nbuf.seg.size = 0 := (hfin hflag).size
  have hst : outFin t.state = true := hout _ hflag
  rw [hall.state]
  refine ⟨?_, hst⟩
  rw [← hfull, ← (Prod.mk.inj hpair).2, hsize]

theorem tcpSendLoop_spec (force : Bool) (fuel sent : Nat) (hloop : LoopInv t) :
    SendsNext t (tcpSendLoop force fuel sent t).2 := by
  induction fuel generalizing sent t with
  | zero => exact SendsNext.refl t
  | succ fuel ih =>
    obtain ⟨hsends,hnext⟩ := tcpSendNext_spec force hloop
    rw [tcpSendLoop]
    split
    · rename_i t' hround
      rw [hround] at hsends
      exact hsends
    rename_i n size t' hround
    rw [hround] at hsends hnext
    split
    · rename_i hfull
      exact hsends.trans (ih _ (hnext n size rfl hfull))
    · exact hsends

theorem tcpToSendData_sendsNext (t : Tcb) (force : Bool) : SendsNext t (tcpToSendData t force).2 := by
  unfold tcpToSendData
  split
  · exact SendsNext.refl t
  · rename_i h
    exact tcpSendLoop_spec force _ _ fun hsent => absurd (.inr hsent) h

/-- The queue of received segments and the socket change, and the FIN of the peer moves the state. -/
structure Receives (t t' : Tcb) : Prop where
  finSent : t'.finSent = t.finSent
  finAcked : t'.finAcked = t.finAcked
  sndNxt : t'.sndNxt = t.sndNxt
  log : t.log <:+ t'.log
  state : t.state.WaitsForAck → t.finAcked = false →
    t'.state = t.state ∨ (t.state = .finWait1 ∧ t'.state = .closing)

theorem Receives.advances (h : Receives t t') : Advances t t' :=
  Advances.of_eq h.finSent h.finAcked h.sndNxt h.log h.state

theorem Receives.refl (t : Tcb) : Receives t t := ⟨rfl, rfl, rfl, suffix_rfl, fun _ _ => .inl rfl⟩

theorem receives_timeWait (h : ¬ (t.state.WaitsForAck ∧ t.finAcked = false)) :
    Receives t (tcpTimeWait t) := by
  unfold tcpTimeWait
  split
  · exact ⟨rfl, rfl, rfl, suffix_rfl, fun hwaits hfin => absurd ⟨hwaits, hfin⟩ h⟩
  · have hquiet := quiet_sendAck { t with state := .timeWait }
    exact ⟨hquiet.finSent, hquiet.finAcked, hquiet.sndNxt, hquiet.log,
      fun hwaits hfin => absurd ⟨hwaits, hfin⟩ h⟩

theorem receives_finReceived (h : tcpFinReceived t = some t') : Receives t t' := by
  unfold tcpFinReceived at h
  split at h
  · rename_i hst
    obtain rfl := Option.some.inj h
    refine ⟨rfl, rfl, rfl, suffix_rfl, fun hwaits _ => ?_⟩
    exact absurd hwaits (not_waitsForAck hst)
  · rename_i hst
    obtain rfl := Option.some.inj h
    refine ⟨rfl, rfl, rfl, suffix_rfl, fun hwaits _ => ?_⟩
    exact absurd hwaits (not_waitsForAck hst)
  · rename_i hst
    split at h
    · obtain rfl := Option.some.inj h
      exact ⟨rfl, rfl, rfl, suffix_rfl, fun _ _ => .inr ⟨hst, rfl⟩⟩
    rename_i hacked
    obtain rfl := Option.some.inj h
    refine receives_timeWait fun hboth => hacked ?_
    rw [hboth.2]
    rfl
  · rename_i hst
    obtain rfl := Option.some.inj h
    refine receives_timeWait fun hboth => ?_
    have hwaits := hboth.1
    exact absurd hwaits (not_waitsForAck hst)
  all_goals first
    | exact Option.some.inj h ▸ Receives.refl t
    | cases h

theorem receives_data (t : Tcb) (seg : TcpSeg) : Receives t (sockDataRcvd t seg) :=
  ⟨rfl, rfl, rfl, suffix_rfl, fun _ _ => .inl rfl⟩

theorem advances_deliverLoop (seq : UInt32) (que : List TcpSeg) (t : Tcb) :
    Advances t (tcpDeliverLoop seq que t).2 := by
  induction que generalizing seq t with
  | nil => exact Advances.refl t
  | cons seg rest ih =>
    have hrest : Advances t { t with rcvNxt := seg.endSeq, rcvQue := rest } :=
      Advances.of_eq rfl rfl rfl suffix_rfl fun _ _ => .inl rfl
    rw [tcpDeliverLoop]
    split
    · exact Advances.refl t
    split
    · exact Advances.refl t
    split
    · split
      · exact hrest
      split
      · exact hrest
      · rename_i t' hfin
        exact hrest.trans ((receives_finReceived hfin).advances.trans (receives_data t' seg).advances)
    · exact hrest.trans ((receives_data _ seg).advances.trans (ih _ _))

theorem advances_deliverData (t : Tcb) : Advances t (tcpDeliverData t).2 := by
  unfold tcpDeliverData
  split
  · exact Advances.refl t
  · exact advances_deliverLoop _ _ t

theorem advances_insert (before behind : List TcpSeg) (t : Tcb) (seg : TcpSeg) :
    Advances t (tcpInsert before behind t seg).2 := Advances.of_eq rfl rfl rfl suffix_rfl fun _ _ => .inl rfl

theorem advances_queueData (t : Tcb) (seg : TcpSeg) : Advances t (tcpQueueData t seg).2 := by
  unfold tcpQueueData
  split
  · exact Advances.of_eq rfl rfl rfl suffix_rfl fun _ _ => .inl rfl
  unfold tcpQueueBehind
  split
  · exact advances_insert _ _ t seg
  split
  · split
    · exact Advances.refl t
    · split
      · exact advances_insert _ _ t _
      · exact Advances.refl t
  · exact advances_insert _ _ t seg

theorem advances_output (t : Tcb) (seg : TcpSeg) : Advances t (tcpOutput t seg) := by
  have hsends := (tcpToSendData_sendsNext t false).advances
  unfold tcpOutput
  split
  · exact Advances.refl t
  · split
    · exact hsends.trans (quiet_toSendAck _).advances
    · exact hsends

/-- What holds of the FIN goes on to hold, whatever becomes of the state. -/
structure Preserves (t t' : Tcb) : Prop where
  log : t.log <:+ t'.log
  inv : NoFinRefused t'.log → FinInv t → FinInv t'

theorem Advances.preserves (h : Advances t t') : Preserves t t' := ⟨h.log, h.inv⟩

theorem Advances.close (h : Advances t t') : Preserves t (tcpClose t') where
  log := h.log
  inv hno hinv := ⟨(h.inv hno hinv).sent, (h.inv hno hinv).acked⟩

def Continues (t : Tcb) (r : Bool × Tcb) : Prop :=
  (r.1 = true → Advances t r.2) ∧ (r.1 = false → Preserves t r.2 ∧ r.2.state = .closed)

theorem continues_true (h : Advances t t') : Continues t (true,t') :=
  ⟨fun _ => h, nofun⟩

theorem continues_close (h : Advances t t') : Continues t (false, tcpClose t') :=
  ⟨nofun, fun _ => ⟨h.close, rfl⟩⟩

theorem Advances.continues {r : Bool × Tcb} (h : Advances t t') (h' : Continues t' r) : Continues t r := by
  refine ⟨fun hr => h.trans (h'.1 hr), fun hr => ?_⟩
  obtain ⟨hpreserves,hclosed⟩ := h'.2 hr
  exact ⟨⟨h.log.trans hpreserves.log, fun hno hinv =>
    hpreserves.inv hno (h.inv (hno.mono hpreserves.log) hinv)⟩, hclosed⟩

theorem continues_stepSix (t : Tcb) (seg : TcpSeg) : Continues t (tcpStepSix t seg) := by
  have hqueue := advances_queueData t seg
  have hdeliver := hqueue.trans (advances_deliverData (tcpQueueData t seg).2)
  unfold tcpStepSix
  split
  · split
    · exact continues_close (Advances.refl t)
    split
    · exact continues_true hqueue
    split
    · exact continues_close hdeliver
    refine continues_true (hdeliver.trans (Advances.trans ?_ (advances_output _ seg)))
    unfold tcpWantsAck
    split
    · exact Advances.of_eq rfl rfl rfl suffix_rfl fun _ _ => .inl rfl
    · exact Advances.refl _
  · exact continues_true (advances_output t seg)

theorem advances_transit (t : Tcb) : Advances t (tcpTransit t) := by
  have hclose : ∀ {t' : Tcb}, Advances t t' → ¬ t.state.WaitsForAck →
      Advances t { t' with sndQue := [], rcvQue := [], state := .closed } := by
    intro t' h hnot
    exact ⟨h.log, fun hno hinv => ⟨(h.inv hno hinv).sent, (h.inv hno hinv).acked⟩,
      fun _ _ hwaits => absurd hwaits hnot⟩
  unfold tcpTransit
  split
  · split
    · rename_i hacked
      exact Advances.of_eq rfl rfl rfl suffix_rfl fun _ hfin => by
        rw [hfin] at hacked
        cases hacked
    · exact Advances.refl t
  · split
    · rename_i hacked
      split
      · exact Advances.of_eq rfl rfl rfl suffix_rfl fun _ hfin => by
          rw [hfin] at hacked
          cases hacked
      · exact Advances.of_eq rfl rfl rfl suffix_rfl fun _ hfin => by
          rw [hfin] at hacked
          cases hacked
    · exact Advances.refl t
  · split
    · rename_i hacked
      exact Advances.of_eq rfl rfl rfl suffix_rfl fun _ hfin => by
        rw [hfin] at hacked
        cases hacked
    · exact Advances.refl t
  · rename_i hst
    split
    · exact (quiet_sendAck t).advances
    refine hclose (quiet_sendAck t).advances fun hwaits => ?_
    exact absurd hwaits (not_waitsForAck hst)
  · exact Advances.refl t

theorem tcpUpdateWnd_spec (t : Tcb) (seg : TcpSeg) (len : UInt32) :
    (tcpUpdateWnd t seg len).finSent = t.finSent ∧ (tcpUpdateWnd t seg len).finAcked = t.finAcked ∧
      (tcpUpdateWnd t seg len).sndUna = t.sndUna ∧ (tcpUpdateWnd t seg len).state = t.state ∧
      (tcpUpdateWnd t seg len).log = t.log ∧
      (retracts t seg len = false → (tcpUpdateWnd t seg len).sndNxt = t.sndNxt) := by
  unfold tcpUpdateWnd retracts
  split
  · rename_i hnewer
    split
    · rename_i hshrinks
      split
      · exact ⟨rfl, rfl, rfl, rfl, rfl, fun _ => rfl⟩
      rename_i hupd
      refine ⟨rfl, rfl, rfl, rfl, rfl, fun hno => ?_⟩
      rw [hnewer, hshrinks, eq_false_of_ne_true hupd] at hno
      have hin : outOfWnd t seg = false := hno
      show (if outOfWnd t seg = true then seg.ack+seg.wnd else t.sndNxt) = t.sndNxt
      rw [hin, if_neg Bool.false_ne_true]
    · exact ⟨rfl, rfl, rfl, rfl, rfl, fun _ => rfl⟩
  · exact ⟨rfl, rfl, rfl, rfl, rfl, fun _ => rfl⟩

theorem retracts_congr (h1 : t'.sndWl1 = t.sndWl1) (h2 : t'.sndWl2 = t.sndWl2)
    (h3 : t'.sndWnd = t.sndWnd) (h4 : t'.sndWndScale = t.sndWndScale) (h5 : t'.sndNxt = t.sndNxt) :
    retracts t' seg len = retracts t seg len := by
  unfold retracts updatesWnd shrinksWnd noUpdate outOfWnd
  rw [h1, h2, h3, h4, h5]

theorem tcpSeq_eq {a b : UInt32} (hlt : tcpSeqLt a b = false) (hgt : tcpSeqGt a b = false) : a = b := by
  unfold tcpSeqGt at hgt
  unfold tcpSeqLt at hlt hgt
  rw [decide_eq_false_iff_not] at hlt hgt
  apply UInt32.toNat_inj.mp
  rw [UInt32.toNat_sub] at hlt hgt
  have ha := a.toNat_lt
  have hb := b.toNat_lt
  omega

theorem tcpAcked_spec (hold : tcpSeqLt seg.ack t.sndUna = false) (hgood : (tcpAcked t seg).1 = true) :
    (tcpAcked t seg).2.sndUna = seg.ack ∧ (tcpAcked t seg).2.finSent = t.finSent ∧
      (tcpAcked t seg).2.finAcked = t.finAcked ∧ (tcpAcked t seg).2.sndNxt = t.sndNxt ∧
      (tcpAcked t seg).2.state = t.state ∧ (tcpAcked t seg).2.log = t.log ∧
      ∀ len, retracts (tcpAcked t seg).2 seg len = retracts t seg len := by
  unfold tcpAcked at hgood ⊢
  split
  · rename_i hnew
    rw [if_pos hnew] at hgood
    split
    · exact ⟨rfl, rfl, rfl, rfl, rfl, rfl, fun _ => rfl⟩
    · rename_i hbroken
      rw [if_neg hbroken] at hgood
      cases hgood
  · rename_i hnot
    refine ⟨?_, rfl, rfl, rfl, rfl, rfl, fun _ => rfl⟩
    exact (tcpSeq_eq hold (eq_false_of_ne_true hnot)).symm

theorem advances_acked (t : Tcb) (seg : TcpSeg) : Advances t (tcpAcked t seg).2 := by
  unfold tcpAcked
  split
  · split
    · exact Advances.of_eq rfl rfl rfl suffix_rfl fun _ _ => .inl rfl
    · exact Advances.of_eq rfl rfl rfl suffix_rfl fun _ _ => .inl rfl
  · exact Advances.refl t

theorem advances_finAck {ack : UInt32} (hlog : ∃ later, t'.log = later ++ .accepted ack :: t.log)
    (hsent : t'.finSent = t.finSent) (hacked : t'.finAcked = t.finAcked) (hst : t'.state = t.state)
    (huna : t'.sndUna = ack) (hnxt : t.finSent = true → t'.sndNxt = t.sndNxt) :
    Advances t (tcpFinAck t') := by
  have hsuf : t.log <:+ t'.log := by
    obtain ⟨later,hlater⟩ := hlog
    rw [hlater]
    exact (suffix_cons _ _).trans (suffix_append _ _)
  have hkeep : ∀ hinv : FinInv t, t'.finSent = true → ∃ seg sndQue, .sent seg sndQue 0 ∈ t'.log ∧
      seg.fin = true ∧ tcpCheckSndQue sndQue = true ∧ sndQue.getLast? = some seg ∧ t'.sndNxt = seg.seq+1 := by
    intro hinv hfin
    rw [hsent] at hfin
    obtain ⟨seg,sndQue,hmem,hrest⟩ := hinv.sent hfin
    rw [hnxt hfin]
    exact ⟨seg, sndQue, hsuf.subset hmem, hrest⟩
  unfold tcpFinAck
  split
  · rename_i hall
    refine ⟨hsuf, fun _ hinv => ⟨hkeep hinv, fun _ => ?_⟩, fun _ _ _ => .inl hst⟩
    have hfin : t.finSent = true := hsent.symm.trans hall.1
    obtain ⟨seg,sndQue,hmem,hflag,hchk,hlast,hseq⟩ := hinv.sent hfin
    obtain ⟨later,hlater⟩ := hlog
    refine ⟨later, ack, t.log, seg, sndQue, hlater, hmem, hflag, hchk, hlast, ?_⟩
    rw [← huna, hall.2, hnxt hfin, hseq]
    exact tcpSeqGt_succ seg.seq
  · exact ⟨hsuf, fun _ hinv => ⟨hkeep hinv, fun hfin => (hinv.acked (hacked.symm.trans hfin)).mono hsuf⟩,
      fun _ _ _ => .inl hst⟩

/-- SndNxt is taken back behind the FIN by the acknowledgment of the segment. -/
def TakesBack (t : Tcb) (seg : TcpSeg) (len : UInt32) : Prop :=
  t.finSent = true ∧ tcpSeqLt seg.ack t.sndUna = false ∧ tcpSeqGt seg.ack t.sndNxt = false ∧
    (tcpSeqGt seg.ack t.sndUna = true → (tcpAdjustSndQue seg.ack t.sndQue).1 = true) ∧
    retracts t seg len = true

theorem advances_ackStep (hold : tcpSeqLt seg.ack t.sndUna = false)
    (hin : tcpSeqGt seg.ack t.sndNxt = false) (hno : ¬ TakesBack t seg len) :
    Advances t (tcpAckStep { t with log := .accepted seg.ack :: t.log } seg len).2 := by
  have hquiet := (quiet_countDupAck { t with log := .accepted seg.ack :: t.log } seg len).trans
    (quiet_congest _ seg)
  have hlogged : Advances t { t with log := .accepted seg.ack :: t.log } :=
    Advances.of_eq rfl rfl rfl (suffix_cons _ _) fun _ _ => .inl rfl
  unfold tcpAckStep
  generalize tcpCongest (countDupAck { t with log := .accepted seg.ack :: t.log } seg len) seg = t2
    at hquiet ⊢
  split
  · rename_i hgood
    obtain ⟨huna,hsent,hacked,hnxt,hst,hlog,hretracts⟩ := tcpAcked_spec (hquiet.sndUna ▸ hold) hgood
    obtain ⟨h1,h2,h3,h4,h5,h6⟩ := tcpUpdateWnd_spec (tcpAcked t2 seg).2 seg len
    refine (@advances_finAck t (tcpUpdateWnd (tcpAcked t2 seg).2 seg len) seg.ack ?_ ?_ ?_ ?_ ?_
      ?_).trans (advances_transit _)
    · obtain ⟨later,hlater⟩ := hquiet.log
      exact ⟨later, h5.trans (hlog.trans hlater.symm)⟩
    · exact h1.trans (hsent.trans hquiet.finSent)
    · exact h2.trans (hacked.trans hquiet.finAcked)
    · exact h4.trans (hst.trans hquiet.state)
    · exact h3.trans huna
    · intro hfin
      refine (h6 ?_).trans (hnxt.trans hquiet.sndNxt)
      have hsame : retracts t2 seg len = retracts t seg len :=
        retracts_congr hquiet.sndWl1 hquiet.sndWl2 hquiet.sndWnd hquiet.sndWndScale hquiet.sndNxt
      rw [hretracts, hsame]
      refine eq_false_of_ne_true fun hback => hno ⟨hfin, hold, hin, fun hnew => ?_, hback⟩
      unfold tcpAcked at hgood
      rw [hquiet.sndUna, hquiet.sndQue, if_pos hnew] at hgood
      split at hgood
      · rename_i hadjusted
        exact hadjusted
      · cases hgood
  · exact hlogged.trans (hquiet.advances.trans (advances_acked _ seg))

theorem continues_fifthStep (hno : ¬ TakesBack t seg len) : Continues t (tcpFifthStep t seg len) := by
  unfold tcpFifthStep
  split
  · exact continues_stepSix t seg
  rename_i hold
  split
  · exact continues_true (quiet_sendAck t).advances
  rename_i hin
  have hstep := advances_ackStep (eq_false_of_ne_true hold) (eq_false_of_ne_true hin) hno
  split
  · exact hstep.continues (continues_stepSix _ seg)
  · exact continues_true hstep

theorem tcpDeliverLoop_wnd (seq : UInt32) (que : List TcpSeg) (t : Tcb) :
    (tcpDeliverLoop seq que t).2.sndWl2 = t.sndWl2 ∧ (tcpDeliverLoop seq que t).2.sndWnd = t.sndWnd := by
  induction que generalizing seq t with
  | nil => exact ⟨rfl, rfl⟩
  | cons seg rest ih =>
    have htimeWait : ∀ t : Tcb, (tcpTimeWait t).sndWl2 = t.sndWl2 ∧ (tcpTimeWait t).sndWnd = t.sndWnd := by
      intro t
      unfold tcpTimeWait
      split
      · exact ⟨rfl, rfl⟩
      · have hquiet := quiet_sendAck { t with state := .timeWait }
        exact ⟨hquiet.sndWl2, hquiet.sndWnd⟩
    have hfin : ∀ {t t' : Tcb}, tcpFinReceived t = some t' → t'.sndWl2 = t.sndWl2 ∧ t'.sndWnd = t.sndWnd := by
      intro t t' h
      unfold tcpFinReceived at h
      split at h
      · obtain rfl := Option.some.inj h
        exact ⟨rfl, rfl⟩
      · obtain rfl := Option.some.inj h
        exact ⟨rfl, rfl⟩
      · split at h
        · obtain rfl := Option.some.inj h
          exact ⟨rfl, rfl⟩
        · obtain rfl := Option.some.inj h
          exact htimeWait t
      · obtain rfl := Option.some.inj h
        exact htimeWait t
      all_goals first
        | exact Option.some.inj h ▸ ⟨rfl, rfl⟩
        | cases h
    rw [tcpDeliverLoop]
    split
    · exact ⟨rfl, rfl⟩
    split
    · exact ⟨rfl, rfl⟩
    split
    · split
      · exact ⟨rfl, rfl⟩
      split
      · exact ⟨rfl, rfl⟩
      · rename_i t' h
        have hmoved := hfin h
        exact hmoved
    · exact ih _ _

theorem not_takesBack_establish (t : Tcb) (seg : TcpSeg) (len : UInt32) :
    ¬ TakesBack (tcpEstablish t seg) seg len := by
  rintro ⟨-,-,-,-,hback⟩
  have hwnd : (tcpEstablish t seg).sndWl2 = seg.ack ∧ (tcpEstablish t seg).sndWnd = seg.wnd := by
    unfold tcpEstablish tcpDeliverData
    split
    · exact ⟨rfl, rfl⟩
    · exact tcpDeliverLoop_wnd _ _ _
  unfold retracts shrinksWnd at hback
  rw [hwnd.1, hwnd.2, tcpSeqLt_irrefl, Bool.and_false, Bool.false_and, Bool.false_and] at hback
  cases hback

/-- The segment is accepted, in a state in which it can acknowledge the FIN, and takes SndNxt back. -/
def InputTakesBack (t : Tcb) (head : TcpHead) : Prop :=
  t.state.connected = true ∧ tcpSeqAcceptable t (tcpFormatNetbuf t head) = true ∧ head.rst = false ∧
    (tcpTrimInWnd t (tcpFormatNetbuf t head)).1 = true ∧
    (tcpTrimInWnd t (tcpFormatNetbuf t head)).2.syn = false ∧ head.ackOn = true ∧
    TakesBack t (tcpTrimInWnd t (tcpFormatNetbuf t head)).2 head.len

theorem advances_repeated (t : Tcb) (seg : TcpSeg) : Advances t (tcpRepeated t seg) := by
  unfold tcpRepeated
  split
  · exact Advances.of_eq rfl rfl rfl suffix_rfl fun _ _ => .inl rfl
  · exact Advances.refl t

theorem tcpRepeated_takesBack (t : Tcb) (seg seg' : TcpSeg) (len : UInt32) :
    TakesBack (tcpRepeated t seg') seg len ↔ TakesBack t seg len := by
  unfold tcpRepeated
  split
  · exact Iff.rfl
  · exact Iff.rfl

theorem continues_inputTrimmed
    (hno : t.state ≠ .synRcvd → seg.syn = false → seg.ackOn = true → ¬ TakesBack t seg len) :
    Continues t (tcpInputTrimmed t seg len) := by
  unfold tcpInputTrimmed
  split
  · exact continues_close (Advances.refl t)
  rename_i hsyn
  split
  · exact continues_true (Advances.refl t)
  rename_i hack
  split
  · rename_i hst
    split
    · have hestablish : Advances t (tcpEstablish t seg) := by
        have hwnd : Advances t
            { t with
              sndWnd := seg.wnd
              sndWndMax := max seg.wnd t.sndWndMax
              sndWl1 := seg.seq
              sndWl2 := seg.ack
              state := .established } := by
          refine Advances.of_eq rfl rfl rfl suffix_rfl fun hwaits _ => ?_
          exact absurd hwaits (not_waitsForAck hst)
        exact hwnd.trans (advances_deliverData _)
      exact hestablish.continues (continues_fifthStep (not_takesBack_establish t seg len))
    · exact continues_true (Advances.refl t)
  · rename_i hst
    refine continues_fifthStep (hno hst (eq_false_of_ne_true hsyn) ?_)
    cases hon : seg.ackOn with
    | true => rfl
    | false => exact absurd (by rw [hon]; rfl) hack

theorem tcpTrimInWnd_ackOn (t : Tcb) (seg : TcpSeg) : (tcpTrimInWnd t seg).2.ackOn = seg.ackOn := by
  unfold tcpTrimInWnd tcpTrimSegment
  split
  · rfl
  unfold tcpTrimTail tcpTrimHead
  split
  · split
    · rfl
    · rfl
  · split
    · rfl
    · rfl

theorem continues_inputConnected {head : TcpHead} (hst : t.state = .synRcvd ∨ t.state.connected = true)
    (hno : ¬ InputTakesBack t head) :
    Continues t (tcpInputConnected t (tcpFormatNetbuf t head) head.len) := by
  unfold tcpInputConnected
  split
  · refine continues_true ?_
    split
    · exact Advances.refl t
    · exact (quiet_sendAck t).advances
  rename_i hacceptable
  split
  · exact continues_close (Advances.refl t)
  rename_i hrst
  split
  · exact continues_true (advances_repeated t _)
  rename_i htrim
  refine (advances_repeated t _).continues (continues_inputTrimmed fun hsyn hflag hack => ?_)
  rw [tcpRepeated_takesBack]
  intro hback
  have hsame : (tcpRepeated t (tcpFormatNetbuf t head)).state = t.state := by
    unfold tcpRepeated
    split
    · rfl
    · rfl
  rw [hsame] at hsyn
  refine hno ⟨hst.resolve_left hsyn, ?_, eq_false_of_ne_true hrst, ?_, hflag, ?_, hback⟩
  · cases h : tcpSeqAcceptable t (tcpFormatNetbuf t head) with
    | true => rfl
    | false => exact absurd (by rw [h]; rfl) hacceptable
  · cases h : (tcpTrimInWnd t (tcpFormatNetbuf t head)).1 with
    | true => rfl
    | false => exact absurd (by rw [h]; rfl) htrim
  · exact (tcpTrimInWnd_ackOn t _).symm.trans hack

theorem Advances.of_synSent (hst : ¬ t.state.WaitsForAck) (hsent : t'.finSent = t.finSent)
    (hacked : t'.finAcked = t.finAcked) (hnxt : t'.sndNxt = t.sndNxt) (hlog : t.log <:+ t'.log) :
    Advances t t' := Advances.of_eq hsent hacked hnxt hlog fun hwaits => absurd hwaits hst

theorem continues_synReceived (hst : t.state = .synSent) (seg : TcpSeg) :
    Continues t (tcpSynReceived t seg) := by
  have hnot := not_waitsForAck hst
  unfold tcpSynReceived
  split
  · have hestablished : Advances t { t with state := .established } :=
      Advances.of_synSent hnot rfl rfl rfl suffix_rfl
    refine (hestablished.trans (advances_deliverData _)).continues ?_
    unfold tcpSynAcked
    split
    · refine Advances.continues ?_ (continues_stepSix _ _)
      exact Advances.of_eq rfl rfl rfl suffix_rfl fun _ _ => .inl rfl
    · exact continues_true (Advances.refl _)
  · unfold tcpSimultaneousOpen
    split
    · refine Advances.continues ?_ (continues_stepSix _ _)
      exact Advances.of_synSent hnot rfl rfl rfl suffix_rfl
    · exact continues_true (Advances.of_synSent hnot rfl rfl rfl suffix_rfl)

theorem continues_inputSynSent (hst : t.state = .synSent) (seg : TcpSeg) (option : TcpOption) :
    Continues t (tcpInputSynSent t seg option) := by
  have hnot := not_waitsForAck hst
  unfold tcpInputSynSent
  split
  · exact continues_true (Advances.refl t)
  split
  · split
    · exact continues_close (Advances.refl t)
    · exact continues_true (Advances.refl t)
  split
  · exact continues_true (Advances.refl t)
  split
  · refine Advances.continues ?_ (continues_synReceived ?_ seg)
    · exact Advances.of_synSent hnot rfl rfl rfl (suffix_cons _ _)
    · exact hst
  · refine Advances.continues ?_ (continues_synReceived ?_ seg)
    · exact Advances.of_synSent hnot rfl rfl rfl suffix_rfl
    · exact hst

theorem continues_input {head : TcpHead} (option : TcpOption) (hno : ¬ InputTakesBack t head) :
    Continues t (tcpInput t head option) := by
  unfold tcpInput
  split
  · exact continues_true (Advances.refl t)
  · exact continues_true (Advances.refl t)
  · rename_i hst
    exact continues_inputSynSent hst _ option
  rename_i hclosed hlisten hsynSent
  refine continues_inputConnected ?_ hno
  cases hst : t.state
  all_goals first
    | exact absurd hst hclosed
    | exact absurd hst hlisten
    | exact absurd hst hsynSent
    | exact .inl rfl
    | exact .inr rfl

def KeepsOrDrops (t t' : Tcb) : Prop := Preserves t t' ∧ (t'.state = t.state ∨ t'.state = .closed)

theorem SendsNext.keepsOrDrops (h : SendsNext t t') : KeepsOrDrops t t' :=
  ⟨h.advances.preserves, .inl h.state⟩

theorem keepsOrDrops_close (t : Tcb) : KeepsOrDrops t (tcpClose t) := ⟨(Advances.refl t).close, .inr rfl⟩

theorem KeepsOrDrops.behind (h : Advances t t') (hst : t'.state = t.state)
    (h' : KeepsOrDrops t' t'') : KeepsOrDrops t t'' := by
  obtain ⟨hpreserves,hor⟩ := h'
  rw [hst] at hor
  exact ⟨⟨h.log.trans hpreserves.log, fun hno hinv =>
    hpreserves.inv hno (h.inv (hno.mono hpreserves.log) hinv)⟩, hor⟩

theorem keepsOrDrops_same (h1 : t'.finSent = t.finSent) (h2 : t'.finAcked = t.finAcked)
    (h3 : t'.sndNxt = t.sndNxt) (h4 : t'.log = t.log) (h5 : t'.state = t.state ∨ t'.state = .closed) :
    KeepsOrDrops t t' := by
  refine ⟨⟨h4 ▸ suffix_rfl, fun _ hinv => ⟨fun hfin => ?_, fun hfin => ?_⟩⟩, h5⟩
  · rw [h3, h4]
    exact hinv.sent (h1.symm.trans hfin)
  · rw [h4]
    exact hinv.acked (h2.symm.trans hfin)

theorem keepsOrDrops_appSend (t : Tcb) (size : UInt32) : KeepsOrDrops t (tcpOnAppSend t size) := by
  have hdata : Advances t { t with sndDataSize := t.sndDataSize + size } :=
    Advances.of_eq rfl rfl rfl suffix_rfl fun _ _ => .inl rfl
  unfold tcpOnAppSend
  split
  · exact KeepsOrDrops.behind hdata rfl (tcpToSendData_sendsNext _ false).keepsOrDrops
  · exact KeepsOrDrops.behind hdata rfl (tcpToSendData_sendsNext _ false).keepsOrDrops
  · exact keepsOrDrops_same rfl rfl rfl rfl (.inl rfl)

theorem keepsOrDrops_appConsume (t : Tcb) (size : UInt32) : KeepsOrDrops t (tcpOnAppConsume t size) := by
  have hdata : Advances t { t with rcvDataSize := t.rcvDataSize - size } :=
    Advances.of_eq rfl rfl rfl suffix_rfl fun _ _ => .inl rfl
  unfold tcpOnAppConsume
  split
  · split
    · exact KeepsOrDrops.behind hdata rfl (quiet_sendAck _).sendsNext.keepsOrDrops
    · split
      · exact keepsOrDrops_same rfl rfl rfl rfl (.inl rfl)
      · exact keepsOrDrops_same rfl rfl rfl rfl (.inl rfl)
  · exact keepsOrDrops_same rfl rfl rfl rfl (.inl rfl)

theorem keepsOrDrops_rexmitTimeout (t : Tcb) (giveUp : Bool) :
    KeepsOrDrops t (tcpRexmitTimeout t giveUp) := by
  unfold tcpRexmitTimeout
  split
  · exact ⟨⟨suffix_rfl, fun _ hinv => ⟨hinv.sent, hinv.acked⟩⟩, .inr rfl⟩
  have hquiet := quiet_retransmit (rexmitWindow t) t.sndUna
  have hsends : SendsNext t { tcpRetransmit (rexmitWindow t) t.sndUna with congestState := .loss } :=
    SendsNext.of_eq hquiet.state hquiet.sndMss hquiet.finAcked hquiet.finSent hquiet.sndNxt hquiet.log
  exact hsends.keepsOrDrops

theorem keepsOrDrops_probeTimeout (t : Tcb) : KeepsOrDrops t (tcpProbeTimeout t) := by
  have hsends := tcpToSendData_sendsNext t true
  unfold tcpProbeTimeout
  split
  · split
    · exact hsends.keepsOrDrops
    · exact (hsends.trans (quiet_sendZeroProbe _).sendsNext).keepsOrDrops
  · exact (quiet_sendZeroProbe t).sendsNext.keepsOrDrops

theorem closeState_waits {s : TcpState} (h : s.WaitsForAck) : closeState s = s := by
  rcases h with rfl | rfl | rfl
  · rfl
  · rfl
  · rfl

theorem appClose_spec (t : Tcb) : Preserves t (tcpOnAppClose t) ∧ (t.state.WaitsForAck →
    (tcpOnAppClose t).state = t.state ∨ (tcpOnAppClose t).state = .closed) := by
  unfold tcpOnAppClose
  split
  · exact ⟨(Advances.refl t).close, fun _ => .inr rfl⟩
  · have hsends := tcpToSendData_sendsNext { t with state := closeState t.state } true
    refine ⟨⟨hsends.log, fun hno hinv => hsends.inv hno ⟨hinv.sent, hinv.acked⟩⟩, fun hwaits => .inl ?_⟩
    exact hsends.state.trans (closeState_waits hwaits)

theorem tcpStep_other (t : Tcb) (action : TcpAction) (hother : ∀ head option, action ≠ .input head option) :
    Preserves t (tcpStep t action).2 ∧ (t.state.WaitsForAck →
      (tcpStep t action).2.state = t.state ∨ (tcpStep t action).2.state = .closed) := by
  have hkeep : ∀ {t' : Tcb}, KeepsOrDrops t t' → Preserves t t' ∧ (t.state.WaitsForAck →
      t'.state = t.state ∨ t'.state = .closed) := fun h => ⟨h.1, fun _ => h.2⟩
  cases action with
  | input head option => exact absurd rfl (hother head option)
  | appSend size => exact hkeep (keepsOrDrops_appSend t size)
  | appClose => exact appClose_spec t
  | appAbort => exact hkeep (keepsOrDrops_same rfl rfl rfl rfl (.inr rfl))
  | appConsume size => exact hkeep (keepsOrDrops_appConsume t size)
  | connectTimeout =>
    refine hkeep ?_
    unfold tcpStep tcpConnectTimeout
    dsimp only
    split
    · exact (SendsNext.refl t).keepsOrDrops
    · exact keepsOrDrops_close t
  | rexmitTimeout giveUp => exact hkeep (keepsOrDrops_rexmitTimeout t giveUp)
  | probeTimeout => exact hkeep (keepsOrDrops_probeTimeout t)
  | keepaliveTimeout giveUp =>
    refine hkeep ?_
    unfold tcpStep tcpKeepaliveTimeout
    dsimp only
    split
    · exact keepsOrDrops_close t
    · exact (quiet_sendZeroProbe t).sendsNext.keepsOrDrops
  | finwait2Timeout => exact hkeep (keepsOrDrops_close t)
  | msl2Timeout => exact hkeep (keepsOrDrops_close t)
  | tick =>
    refine hkeep ?_
    unfold tcpStep tcpTick
    dsimp only
    split
    · exact (quiet_sendAck t).sendsNext.keepsOrDrops
    · exact (SendsNext.refl t).keepsOrDrops

/-- A segment that takes SndNxt back behind the FIN. -/
def TcpAction.TakesBack (t : Tcb) : TcpAction → Prop
  | .input head _ => InputTakesBack t head
  | _ => False

/-- Runs of a connection from its beginning on, with the outcomes that the allocations and the IP layer
have in each step. The IP layer refuses no FIN, and no segment takes SndNxt back behind one. -/
inductive TcpRun : Tcb → Prop
  | start {t : Tcb} : t.finSent = false → t.finAcked = false → t.log = [] → TcpRun t
  | step {t : Tcb} (outcomes : List Bool) (action : TcpAction) : TcpRun t → ¬ action.TakesBack t →
      NoFinRefused (tcpStep { t with outcomes := outcomes } action).2.log →
      TcpRun (tcpStep { t with outcomes := outcomes } action).2

theorem preserves_step {action : TcpAction} (hno : ¬ action.TakesBack t) :
    Preserves t (tcpStep t action).2 := by
  cases action with
  | input head option =>
    have hcontinues := continues_input option hno
    cases hr : (tcpInput t head option).1 with
    | true => exact (hcontinues.1 hr).preserves
    | false => exact (hcontinues.2 hr).1
  | _ => exact (tcpStep_other t _ (fun _ _ => TcpAction.noConfusion)).1

theorem finInv_of_run (hrun : TcpRun t) : FinInv t := by
  induction hrun with
  | start hsent hacked =>
    refine ⟨fun h => ?_, fun h => ?_⟩
    · rw [hsent] at h
      cases h
    · rw [hacked] at h
      cases h
  | @step t outcomes action _ hno hrefused ih =>
    have hpreserves : Preserves { t with outcomes := outcomes }
        (tcpStep { t with outcomes := outcomes } action).2 := by
      apply preserves_step
      cases action with
      | input head option => exact hno
      | _ => exact hno
    exact hpreserves.inv hrefused ⟨ih.sent, ih.acked⟩

/-- In such a run the FIN counts as acknowledged only if the IP layer has taken it, behind all data, and
a later segment has been accepted that acknowledges it; and a state that waits for this acknowledgment
is left for another only then, unless the connection is dropped. -/
theorem tcpClose_of_run (hrun : TcpRun t) : (t.finAcked = true → FinAcknowledged t.log) ∧
    ∀ outcomes action, ¬ action.TakesBack t →
      NoFinRefused (tcpStep { t with outcomes := outcomes } action).2.log → t.state.WaitsForAck →
      (tcpStep { t with outcomes := outcomes } action).2.state = t.state ∨
      (t.state = .finWait1 ∧ (tcpStep { t with outcomes := outcomes } action).2.state = .closing) ∨
      ((∀ head option, action = .input head option →
          (tcpStep { t with outcomes := outcomes } action).1 = false) ∧
        (tcpStep { t with outcomes := outcomes } action).2.state = .closed) ∨
      FinAcknowledged (tcpStep { t with outcomes := outcomes } action).2.log := by
  have hinv := finInv_of_run hrun
  refine ⟨hinv.acked, fun outcomes action hno hrefused hwaits => ?_⟩
  have hinv' : FinInv { t with outcomes := outcomes } := ⟨hinv.sent, hinv.acked⟩
  by_cases hinput : ∃ head option, action = .input head option
  · obtain ⟨head,option,rfl⟩ := hinput
    have hcontinues : Continues { t with outcomes := outcomes }
        (tcpInput { t with outcomes := outcomes } head option) := continues_input option hno
    cases hr : (tcpInput { t with outcomes := outcomes } head option).1 with
    | true =>
      rcases (hcontinues.1 hr).waiting hrefused hinv' hwaits with hsame | hclosing | hacked
      · exact .inl hsame
      · exact .inr (.inl hclosing)
      · exact .inr (.inr (.inr hacked))
    | false =>
      refine .inr (.inr (.inl ⟨fun _ _ _ => hr, ?_⟩))
      exact (hcontinues.2 hr).2
  · have hother : ∀ head option, action ≠ .input head option := fun head option h => hinput ⟨head, option, h⟩
    rcases (tcpStep_other { t with outcomes := outcomes } action hother).2 hwaits with hsame | hclosed
    · exact .inl hsame
    · exact .inr (.inr (.inl ⟨fun head option h => absurd h (hother head option), hclosed⟩))

end

/-! An established connection that has 100 bytes on the way. -/

def sampleTcb : Tcb where
  state := .established
  finSent := false
  finAcked := false
  ackNow := false
  noNagle := false
  iss := 899
  sndUna := 900
  sndNxt := 1000
  sndWl1 := 500
  sndWl2 := 900
  sndWnd := 8192
  sndWndMax := 8192
  sndWndScale := 0
  sndMss := 536
  cWnd := 1072
  ssthresh := 8192
  recover := 0
  lossRecover := 0
  congestState := .open
  dupAck := 0
  retxmitSeqMax := 0
  rcvNxt := 500
  rcvWnd := 8192
  rcvWl2 := 500
  rcvWndScale := 0
  rcvMss := 1460
  delayedAck := 0
  timeWaitTimeout := 1
  sndQue := [{ emptySeg 900 with endSeq := 1000, size := 100 }]
  rcvQue := []
  sndDataSize := 0
  rcvDataSize := 0
  rcvBuffSize := 8192
  outcomes := []
  log := []

def ackHead (ack wnd : UInt32) : TcpHead := ⟨500, ack, wnd, false, false, false, false, true, 0⟩

def noOption : TcpOption := ⟨none, none, false⟩

def tcpSteps (t : Tcb) : List (List Bool × TcpAction) → Tcb
  | [] => t
  | (outcomes,action) :: rest => tcpSteps (tcpStep { t with outcomes := outcomes } action).2 rest

/-- A run in which the FIN has not been acknowledged comes to FIN_WAIT_2. -/
def WronglyAcknowledged (steps : List (List Bool × TcpAction)) : Prop :=
  (tcpSteps sampleTcb steps).finAcked = true ∧ (tcpSteps sampleTcb steps).state = .finWait2 ∧
    ¬ FinAcknowledged (tcpSteps sampleTcb steps).log

theorem not_finAcknowledged {log : List TcpEvent} (h : ∀ ack seg sndQue, .accepted ack ∈ log →
    .sent seg sndQue 0 ∈ log → seg.fin = true → tcpSeqGt ack seg.seq = false) : ¬ FinAcknowledged log := by
  rintro ⟨later,ack,earlier,seg,sndQue,rfl,hmem,hfin,-,-,hgt⟩
  have hnot := h ack seg sndQue (mem_append_right _ mem_cons_self)
    (mem_append_right _ (mem_cons_of_mem _ hmem)) hfin
  rw [hgt] at hnot
  cases hnot

/-- The FIN of the connection, behind its 100 bytes. -/
def sampleFin : TcpSeg := { emptySeg 1000 with endSeq := 1001, fin := true }

/-- The IP layer refuses the FIN, and the acknowledgment of the data counts as one of the FIN. So it does
where the FIN is on the way and the peer shrinks its window below it. -/
theorem wronglyAcknowledged_of_refused :
    WronglyAcknowledged [([true, false], .appClose), ([], .input (ackHead 1000 8192) noOption)] ∧
    WronglyAcknowledged [([], .appClose), ([], .input (ackHead 901 49) noOption),
      ([], .input (ackHead 950 49) noOption)] := by
  constructor
  · refine ⟨by decide +kernel, by decide +kernel, not_finAcknowledged ?_⟩
    have hlog : (tcpSteps sampleTcb
        [([true, false], .appClose), ([], .input (ackHead 1000 8192) noOption)]).log =
        [.accepted 1000, .refused sampleFin] := by decide +kernel
    intro ack seg sndQue _ hsent
    rw [hlog] at hsent
    simp at hsent
  · refine ⟨by decide +kernel, by decide +kernel, not_finAcknowledged ?_⟩
    have hlog : (tcpSteps sampleTcb [([], .appClose), ([], .input (ackHead 901 49) noOption),
        ([], .input (ackHead 950 49) noOption)]).log =
        [.accepted 950, .accepted 901, .sent sampleFin (sampleTcb.sndQue ++ [sampleFin]) 0] := by
      decide +kernel
    intro ack seg sndQue hacc hsent _
    rw [hlog] at hacc hsent
    simp only [mem_cons, not_mem_nil, reduceCtorEq, or_false, false_or,
      TcpEvent.accepted.injEq, TcpEvent.sent.injEq] at hacc hsent
    rw [hsent.1]
    rcases hacc with rfl | rfl
    · decide
    · decide

instance decidableNoFinRefused (log : List TcpEvent) : Decidable (NoFinRefused log) :=
  decidable_of_iff (log.all (fun event => match event with
    | .refused seg => !seg.fin
    | _ => true) = true) (by
      rw [all_eq_true]
      constructor
      · intro h seg hseg
        have hfin := h _ hseg
        rwa [Bool.not_eq_true'] at hfin
      · intro h event hevent
        cases event with
        | refused seg => exact (Bool.not_eq_true' _).mpr (h seg hevent)
        | sent seg sndQue size => rfl
        | accepted ack => rfl)

/-- The FIN goes out and is acknowledged. -/
theorem tcpClose_of_run_acknowledged :
    (tcpSteps sampleTcb [([], .appClose), ([], .input (ackHead 1001 8192) noOption)]).finAcked = true ∧
      FinAcknowledged
        (tcpSteps sampleTcb [([], .appClose), ([], .input (ackHead 1001 8192) noOption)]).log := by
  have hstart : TcpRun sampleTcb := .start rfl rfl rfl
  have hclosed := TcpRun.step [] .appClose hstart id (by decide +kernel)
  have hacked := TcpRun.step [] (.input (ackHead 1001 8192) noOption) hclosed
    (fun h => absurd h.2.2.2.2.2.2.2.2.2.2 (by decide +kernel)) (by decide +kernel)
  have hflag : (tcpSteps sampleTcb
      [([], .appClose), ([], .input (ackHead 1001 8192) noOption)]).finAcked = true := by decide +kernel
  exact ⟨hflag, (tcpClose_of_run hacked).1 hflag⟩

end Liano.Tcp
