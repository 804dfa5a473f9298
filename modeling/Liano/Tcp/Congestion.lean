import Liano.Tcp.Close

/-! The congestion window of a TCP connection over its runs. -/
namespace Liano.Tcp

/-- CWnd, Ssthresh, CongestState, SndMss and SndWndScale. -/
def Tcb.congestion (t : Tcb) : UInt32 × UInt32 × TcpCongest × UInt32 × Nat :=
  (t.cWnd,t.ssthresh,t.congestState,t.sndMss,t.sndWndScale)

section
variable (t : Tcb) (seg : TcpSeg)

@[simp] theorem congestion_next : t.next.congestion = t.congestion := rfl

@[simp] theorem congestion_close : (tcpClose t).congestion = t.congestion := rfl

@[simp] theorem congestion_transmit : (tcpTransmitSegment t seg).2.congestion = t.congestion := by
  unfold tcpTransmitSegment
  split <;> rfl

@[simp] theorem congestion_ackSent (r : Bool × Tcb) : (ackSent r).congestion = r.2.congestion := by
  unfold ackSent
  split <;> rfl

@[simp] theorem congestion_sendAck : (tcpSendAck t).congestion = t.congestion := by
  unfold tcpSendAck
  split <;> simp

@[simp] theorem congestion_sendZeroProbe : (tcpSendZeroProbe t).congestion = t.congestion := by
  unfold tcpSendZeroProbe
  split <;> simp

@[simp] theorem congestion_toSendAck : (tcpToSendAck t).congestion = t.congestion := by
  unfold tcpToSendAck
  split
  · exact congestion_sendAck t
  · split
    · exact congestion_sendAck t
    · rfl

@[simp] theorem congestion_getSegmentSndQue (seq len : UInt32) :
    (tcpGetSegmentSndQue t seq len).2.congestion = t.congestion := by
  unfold tcpGetSegmentSndQue
  repeat' split
  all_goals rfl

@[simp] theorem congestion_retransmitted (seq : UInt32) (r : Bool × Tcb) :
    (retransmitted seq r).congestion = r.2.congestion := by
  unfold retransmitted
  split <;> rfl

@[simp] theorem congestion_retransmit (seq : UInt32) : (tcpRetransmit t seq).congestion = t.congestion := by
  unfold tcpRetransmit
  repeat' split
  all_goals simp

theorem congestion_getSegment (seq len : UInt32) : (tcpGetSegment t seq len).2.congestion = t.congestion := by
  unfold tcpGetSegment tcpFindSegment tcpGetSegmentSock
  repeat' split
  all_goals first | rfl | exact congestion_getSegmentSndQue t seq len

@[simp] theorem congestion_segmentSent (r : Bool × Tcb) :
    (segmentSent seg r).2.congestion = r.2.congestion := by
  unfold segmentSent
  split <;> rfl

@[simp] theorem congestion_putSegment (place : Option Nat) :
    (t.putSegment place seg).congestion = t.congestion := by
  unfold Tcb.putSegment
  split <;> rfl

theorem congestion_sendNext (force : Bool) : (tcpSendNext t force).2.congestion = t.congestion := by
  have hgot := congestion_getSegment t (nextSeq t) (nextLen t force)
  unfold tcpSendNext
  split
  · rfl
  split
  · exact hgot
  rw [← hgot]
  unfold tcpSendNbuf tcpSendSegment
  repeat' split
  all_goals simp

theorem congestion_sendLoop (force : Bool) (fuel sent : Nat) :
    (tcpSendLoop force fuel sent t).2.congestion = t.congestion := by
  induction fuel generalizing sent t with
  | zero => rfl
  | succ fuel ih =>
    have hnext := congestion_sendNext t force
    unfold tcpSendLoop
    split
    · rename_i h
      rwa [h] at hnext
    rename_i h
    rw [h] at hnext
    split
    · exact (ih _ _).trans hnext
    · exact hnext

@[simp] theorem congestion_toSendData (force : Bool) :
    (tcpToSendData t force).2.congestion = t.congestion := by
  unfold tcpToSendData
  split
  · rfl
  · exact congestion_sendLoop t force _ 0

theorem congestion_timeWait : (tcpTimeWait t).congestion = t.congestion := by
  unfold tcpTimeWait
  split
  · rfl
  · exact congestion_sendAck { t with state := .timeWait }

theorem congestion_finReceived {t t' : Tcb} (h : tcpFinReceived t = some t') :
    t'.congestion = t.congestion := by
  unfold tcpFinReceived at h
  repeat' split at h
  all_goals cases h
  any_goals rfl
  all_goals exact congestion_timeWait t

theorem congestion_deliverLoop (seq : UInt32) (que : List TcpSeg) :
    (tcpDeliverLoop seq que t).2.congestion = t.congestion := by
  induction que generalizing seq t with
  | nil => rfl
  | cons seg rest ih =>
    unfold tcpDeliverLoop
    repeat' split
    any_goals rfl
    · rename_i t' h
      exact (congestion_finReceived h :)
    · exact ih _ _

@[simp] theorem congestion_deliverData : (tcpDeliverData t).2.congestion = t.congestion := by
  unfold tcpDeliverData
  split
  · rfl
  · exact congestion_deliverLoop t _ _

@[simp] theorem congestion_queueData : (tcpQueueData t seg).2.congestion = t.congestion := by
  unfold tcpQueueData tcpQueueBehind tcpInsert
  repeat' split
  all_goals rfl

@[simp] theorem congestion_output : (tcpOutput t seg).congestion = t.congestion := by
  unfold tcpOutput
  repeat' split
  all_goals simp

@[simp] theorem congestion_wantsAck : (tcpWantsAck t).congestion = t.congestion := by
  unfold tcpWantsAck
  split <;> rfl

@[simp] theorem congestion_stepSix : (tcpStepSix t seg).2.congestion = t.congestion := by
  unfold tcpStepSix
  repeat' split
  all_goals simp

theorem congestion_acked : (tcpAcked t seg).2.congestion = t.congestion := by
  unfold tcpAcked
  repeat' split
  all_goals rfl

theorem congestion_updateWnd (len : UInt32) : (tcpUpdateWnd t seg len).congestion = t.congestion := by
  unfold tcpUpdateWnd
  repeat' split
  all_goals rfl

theorem congestion_finAck : (tcpFinAck t).congestion = t.congestion := by
  unfold tcpFinAck
  split <;> rfl

theorem congestion_transit : (tcpTransit t).congestion = t.congestion := by
  unfold tcpTransit
  repeat' split
  any_goals rfl
  all_goals exact congestion_sendAck t

theorem congestion_fifthStep (len : UInt32) : (tcpFifthStep t seg len).2.congestion =
      if tcpSeqLt seg.ack t.sndUna || tcpSeqGt seg.ack t.sndNxt then t.congestion
      else (tcpCongest (countDupAck { t with log := .accepted seg.ack :: t.log } seg len) seg).congestion := by
  have hack : (tcpAckStep { t with log := .accepted seg.ack :: t.log } seg len).2.congestion =
      (tcpCongest (countDupAck { t with log := .accepted seg.ack :: t.log } seg len) seg).congestion := by
    unfold tcpAckStep
    split <;> simp only [congestion_transit, congestion_finAck, congestion_updateWnd, congestion_acked]
  unfold tcpFifthStep
  cases tcpSeqLt seg.ack t.sndUna with
  | true => exact congestion_stepSix t seg
  | false =>
    cases tcpSeqGt seg.ack t.sndNxt with
    | true => exact congestion_sendAck t
    | false =>
      simp only [Bool.or_self, Bool.false_eq_true, if_false]
      split
      · exact (congestion_stepSix _ seg).trans hack
      · exact hack

end

def trimmed (t : Tcb) (head : TcpHead) : TcpSeg := (tcpTrimInWnd t (tcpFormatNetbuf t head)).2

def getsToCongest (t : Tcb) (head : TcpHead) : Bool :=
  tcpSeqAcceptable t (tcpFormatNetbuf t head) && !head.rst &&
    (tcpTrimInWnd t (tcpFormatNetbuf t head)).1 && !(trimmed t head).syn && (trimmed t head).ackOn &&
    !tcpSeqLt (trimmed t head).ack t.sndUna && !tcpSeqGt (trimmed t head).ack t.sndNxt

theorem repeated_eq (t : Tcb) (seg : TcpSeg) : ∃ b, tcpRepeated t seg = { t with ackNow := b } := by
  unfold tcpRepeated
  split
  · exact ⟨true, rfl⟩
  · exact ⟨t.ackNow, rfl⟩

theorem countDupAck_eq (t : Tcb) (seg : TcpSeg) (len : UInt32) :
    ∃ n, countDupAck t seg len = { t with dupAck := n } := by
  unfold countDupAck
  split
  · exact ⟨t.dupAck+1, rfl⟩
  · exact ⟨0, rfl⟩

theorem congestion_input {t : Tcb} {head : TcpHead} (option : TcpOption)
    (hconnected : t.state.connected = true) :
    getsToCongest t head = false ∧ (tcpInput t head option).2.congestion = t.congestion ∨
      getsToCongest t head = true ∧ ∃ ackNow dupAck log, (tcpInput t head option).2.congestion =
        (tcpCongest { t with ackNow := ackNow, dupAck := dupAck, log := log }
          (trimmed t head)).congestion := by
  have hinput : tcpInput t head option = tcpInputConnected t (tcpFormatNetbuf t head) head.len := by
    unfold tcpInput
    cases hst : t.state <;> first | rfl | (rw [hst] at hconnected; cases hconnected)
  have hsyn : t.state ≠ .synRcvd := fun h => by rw [h] at hconnected; cases hconnected
  obtain ⟨b,hrepeated⟩ := repeated_eq t (tcpFormatNetbuf t head)
  rw [hinput, tcpInputConnected, hrepeated]
  split
  · rename_i hacceptable
    refine .inl ⟨by simp_all [getsToCongest], ?_⟩
    split
    · rfl
    · exact congestion_sendAck t
  rename_i hacceptable
  split
  · rename_i hrst
    exact .inl ⟨by simp [getsToCongest, show head.rst = true from hrst], rfl⟩
  rename_i hrst
  split
  · rename_i htrim
    exact .inl ⟨by simp_all [getsToCongest], rfl⟩
  rename_i htrim
  unfold tcpInputTrimmed
  split
  · rename_i hseg
    exact .inl ⟨by simp_all [getsToCongest, trimmed], rfl⟩
  rename_i hseg
  split
  · rename_i hack
    exact .inl ⟨by simp_all [getsToCongest, trimmed], rfl⟩
  rename_i hack
  rw [congestion_fifthStep]
  split
  · rename_i hout
    refine .inl ⟨?_, rfl⟩
    rcases Bool.or_eq_true_iff.mp hout with hlow | hhigh
    · simp_all [getsToCongest, trimmed]
    · simp_all [getsToCongest, trimmed]
  rename_i hin
  obtain ⟨n,hcnt⟩ := countDupAck_eq
    { t with ackNow := b, log := .accepted (trimmed t head).ack :: t.log } (trimmed t head) head.len
  refine .inr ⟨?_, b, n, .accepted (trimmed t head).ack :: t.log, ?_⟩
  · have hrst' : head.rst = false := eq_false_of_ne_true hrst
    simp only [Bool.not_eq_true', Bool.not_eq_true, Bool.not_eq_false,
      Bool.or_eq_false_iff] at hacceptable htrim hseg hack hin
    simp only [getsToCongest, trimmed, hacceptable, hrst', htrim, hseg, hack, hin.1,
      hin.2, Bool.not_false, Bool.and_self]
  · exact congrArg (fun s => (tcpCongest s (trimmed t head)).congestion) hcnt

def flight (t : Tcb) : UInt32 := t.sndNxt-t.sndUna

def windowBound (d : Nat) (t : Tcb) : Nat := 0xffff * 2^t.sndWndScale + 2*d + 5*t.sndMss.toNat

structure CongestInv (d : Nat) (lost : Bool) (t : Tcb) : Prop where
  mss_pos : 0 < t.sndMss.toNat
  mss_lt : t.sndMss.toNat < 2^16
  scale : t.sndWndScale ≤ 14
  cWnd_pos : 0 < t.cWnd.toNat
  cWnd_le : t.cWnd.toNat ≤ windowBound d t
  ssthresh : lost = true ∨ t.congestState = .recover → 2*t.sndMss.toNat ≤ t.ssthresh.toNat

def deflation (t : Tcb) (ack : UInt32) : UInt32 :=
  if t.sndMss ≤ ack-t.sndUna then ack-t.sndUna-t.sndMss else ack-t.sndUna

/-- In recovery a duplicate acknowledgment finds room for a segment below the bound, and a partial one
takes less than the congestion window. -/
def RecoveryKept (d : Nat) (t : Tcb) (ack : UInt32) : Prop := t.congestState = .recover →
    (ack = t.sndUna → t.cWnd.toNat+t.sndMss.toNat ≤ windowBound d t) ∧
      (ack ≠ t.sndUna → tcpSeqGeq ack t.recover = false → deflation t ack < t.cWnd)

/-- The acknowledgments of a recovery: the duplicates behind the three that started it, what the partial ones
acknowledged, less a segment each, and the data in flight when it started. -/
structure Episode where
  dups : Nat
  taken : Nat
  flight : Nat
deriving DecidableEq

/-- What a partial acknowledgment adds to `taken`. -/
def takenBy (t : Tcb) (ack : UInt32) : Nat := let acked := (ack-t.sndUna).toNat
  if t.sndMss.toNat ≤ acked then acked-t.sndMss.toNat else acked

def Episode.next (e : Episode) (t : Tcb) (ack : UInt32) : Episode :=
  if ack = t.sndUna then { e with dups := e.dups+1 }
  else if tcpSeqGeq ack t.recover then e
  else { e with taken := e.taken + takenBy t ack }

/-- In recovery the duplicates stand for no more than the data that were in flight, and the partial
acknowledgments take less than half of these data and a segment for each duplicate. -/
def EpisodeKept (e : Episode) (t : Tcb) (ack : UInt32) : Prop := t.congestState = .recover →
    (ack = t.sndUna → (e.dups+1)*t.sndMss.toNat ≤ e.flight) ∧
      (ack ≠ t.sndUna → tcpSeqGeq ack t.recover = false →
        e.taken + takenBy t ack < max (e.flight/2) (2*t.sndMss.toNat) + (3+e.dups)*t.sndMss.toNat)

instance (e : Episode) (t : Tcb) (ack : UInt32) : Decidable (EpisodeKept e t ack) := by
  unfold EpisodeKept
  infer_instance

/-- The window during a recovery, by what has been acknowledged in it. -/
structure Inflated (d : Nat) (e : Episode) (t : Tcb) : Prop where
  window : t.cWnd.toNat + e.taken = t.ssthresh.toNat + (3+e.dups)*t.sndMss.toNat
  ssthresh : t.ssthresh.toNat = max (e.flight/2) (2*t.sndMss.toNat)
  dups : e.dups*t.sndMss.toNat ≤ e.flight
  flight : e.flight ≤ d

def Recovering (d : Nat) (e : Episode) (t : Tcb) : Prop := t.congestState = .recover → Inflated d e t

section
variable {d : Nat} {lost : Bool} {t t' : Tcb}

theorem CongestInv.congr (h : CongestInv d lost t) (heq : t'.congestion = t.congestion) :
    CongestInv d lost t' := by
  simp only [Tcb.congestion, Prod.mk.injEq] at heq
  obtain ⟨hcWnd,hssthresh,hst,hmss,hscale⟩ := heq
  refine ⟨?_, ?_, ?_, ?_, ?_, ?_⟩
  · rw [hmss]
    exact h.mss_pos
  · rw [hmss]
    exact h.mss_lt
  · rw [hscale]
    exact h.scale
  · rw [hcWnd]
    exact h.cWnd_pos
  · rw [hcWnd, windowBound, hscale, hmss]
    exact h.cWnd_le
  · rw [hst, hmss, hssthresh]
    exact h.ssthresh

theorem CongestInv.put (h : CongestInv d lost t) (cWnd ssthresh : UInt32) (congestState : TcpCongest)
    {lost' : Bool} (heq : t'.congestion = (cWnd,ssthresh,congestState,t.sndMss,t.sndWndScale))
    (hpos : 0 < cWnd.toNat) (hle : cWnd.toNat ≤ windowBound d t)
    (hssthresh : lost' = true ∨ congestState = .recover → 2*t.sndMss.toNat ≤ ssthresh.toNat) :
    CongestInv d lost' t' := (⟨h.mss_pos, h.mss_lt, h.scale, hpos, hle, hssthresh⟩ : CongestInv d lost'
    { t with cWnd := cWnd, ssthresh := ssthresh, congestState := congestState }).congr heq

theorem windowLimit_toNat {scale : Nat} (h : scale ≤ 14) :
    ((0xffff : UInt32) <<< UInt32.ofNat scale).toNat = 0xffff * 2^scale := by
  have hall : ∀ n < 15, ((0xffff : UInt32) <<< UInt32.ofNat n).toNat = 0xffff * 2^n := by decide
  exact hall scale (by omega)

theorem toNat_max (a b : UInt32) : (max a b).toNat = max a.toNat b.toNat := by
  show (if a ≤ b then b else a).toNat = max a.toNat b.toNat
  split
  · rename_i h
    exact (Nat.max_eq_right (UInt32.le_iff_toNat_le.mp h)).symm
  · rename_i h
    exact (Nat.max_eq_left (Nat.le_of_not_le (mt UInt32.le_iff_toNat_le.mpr h))).symm

theorem toNat_min (a b : UInt32) : (min a b).toNat = min a.toNat b.toNat := by
  show (if a ≤ b then a else b).toNat = min a.toNat b.toNat
  split
  · rename_i h
    exact (min_eq_left (UInt32.le_iff_toNat_le.mp h)).symm
  · rename_i h
    exact (min_eq_right (Nat.le_of_not_le (mt UInt32.le_iff_toNat_le.mpr h))).symm

theorem windowBound_lt (h : CongestInv d lost t) (hd : d < 2^30) :
    0xffff * 2^t.sndWndScale ≤ windowBound d t ∧ windowBound d t + 2^16 < 2^32 := by
  have hscale : 2^t.sndWndScale ≤ 2^14 := Nat.pow_le_pow_right (by decide) h.scale
  have hmss := h.mss_lt
  unfold windowBound
  omega

theorem add_square_lt {m c : Nat} (hm : m < 2^16) (hpos : 0 < c) (hc : c + 2^16 < 2^32) :
    c + m*m / c < 2^32 := by
  rcases Nat.le_total m c with hle | hle
  · have hdiv : m*m / c ≤ m := Nat.div_le_of_le_mul (Nat.mul_le_mul_right m hle)
    omega
  · have hsquare : m*m ≤ (2^16-1) * (2^16-1) := Nat.mul_le_mul (by omega) (by omega)
    have hdiv := Nat.div_le_self (m*m) c
    omega

theorem CongestInv.grow (h : CongestInv d lost t) (hd : d < 2^30) (seg : TcpSeg) :
    CongestInv d lost (growCWnd t seg) := by
  have hbnd := windowBound_lt h hd
  have hpos := h.cWnd_pos
  have hle := h.cWnd_le
  have hmss := h.mss_lt
  have hlim := windowLimit_toNat h.scale
  have hscale : 0 < 2^t.sndWndScale := Nat.two_pow_pos _
  unfold growCWnd
  split
  · refine h.put _ _ _ rfl ?_ ?_ h.ssthresh
    · rw [toNat_min, hlim, Nat.lt_min]
      refine ⟨?_, by omega⟩
      split
      · rw [UInt32.toNat_add]
        omega
      have hmul : (t.sndMss*t.sndMss).toNat = t.sndMss.toNat*t.sndMss.toNat := by
        exact Nat.mod_eq_of_lt (Nat.mul_lt_mul'' hmss hmss : _ < 2^16 * 2^16)
      have hsum := add_square_lt hmss hpos (by omega)
      rw [UInt32.toNat_add, toNat_max, UInt32.toNat_div, hmul, show (1 : UInt32).toNat = 1 from rfl]
      omega
    · rw [toNat_min, hlim]
      exact le_trans (min_le_right _ _) hbnd.1
  · exact h

theorem deflation_toNat (t : Tcb) (ack : UInt32) : (deflation t ack).toNat = takenBy t ack := by
  unfold deflation takenBy
  by_cases hle : t.sndMss ≤ ack-t.sndUna
  · simp only [if_pos hle, if_pos (UInt32.le_iff_toNat_le.mp hle)]
    exact UInt32.toNat_sub_of_le _ _ hle
  · simp only [if_neg hle, if_neg (mt UInt32.le_iff_toNat_le.mpr hle)]

theorem Inflated.recoveryKept {e : Episode} {ack : UInt32} (h : Recovering d e t) (hep : EpisodeKept e t ack) :
    RecoveryKept d t ack := by
  intro hst
  obtain ⟨hwindow,hssthresh,hdups,hflight⟩ := h hst
  obtain ⟨hduplicate,hbelow⟩ := hep hst
  refine ⟨fun hack => ?_, fun hack hfull => ?_⟩
  · have hnext := hduplicate hack
    rw [Nat.add_mul] at hwindow hnext
    unfold windowBound
    omega
  · have htaken := hbelow hack hfull
    rw [UInt32.lt_iff_toNat_lt, deflation_toNat]
    omega

theorem Recovering.congr {e : Episode} (h : Recovering d e t) (heq : t'.congestion = t.congestion) :
    Recovering d e t' := by
  simp only [Tcb.congestion, Prod.mk.injEq] at heq
  obtain ⟨hcWnd,hssthresh,hst,hmss,hscale⟩ := heq
  intro hrecover
  obtain ⟨h1,h2,h3,h4⟩ := h (hst ▸ hrecover)
  rw [← hcWnd, ← hssthresh, ← hmss] at h1
  rw [← hssthresh, ← hmss] at h2
  rw [← hmss] at h3
  exact ⟨h1, h2, h3, h4⟩

theorem Recovering.put {e : Episode} {cWnd ssthresh mss : UInt32} {congestState : TcpCongest} {scale : Nat}
    (heq : t'.congestion = (cWnd,ssthresh,congestState,mss,scale))
    (h : congestState = .recover → Inflated d e { t with cWnd := cWnd, ssthresh := ssthresh, sndMss := mss }) :
    Recovering d e t' := by
  simp only [Tcb.congestion, Prod.mk.injEq] at heq
  obtain ⟨hcWnd,hssthresh,hst,hmss,-⟩ := heq
  intro hrecover
  obtain ⟨h1,h2,h3,h4⟩ := h (hst ▸ hrecover)
  refine ⟨?_, ?_, ?_, h4⟩
  · rw [hcWnd, hssthresh, hmss]
    exact h1
  · rw [hssthresh, hmss]
    exact h2
  · rw [hmss]
    exact h3

theorem retransmit_fields (t : Tcb) (seq : UInt32) :
    (tcpRetransmit t seq).cWnd = t.cWnd ∧ (tcpRetransmit t seq).ssthresh = t.ssthresh ∧
      (tcpRetransmit t seq).congestState = t.congestState ∧ (tcpRetransmit t seq).sndMss = t.sndMss ∧
      (tcpRetransmit t seq).sndWndScale = t.sndWndScale := by
  simpa only [Tcb.congestion, Prod.mk.injEq] using congestion_retransmit t seq

section
variable (h : CongestInv d lost t)
include h

theorem CongestInv.retransmit (seq : UInt32) :
    CongestInv d lost (tcpRetransmit t seq) := h.congr (congestion_retransmit t seq)

theorem CongestInv.lossRecover (seg : TcpSeg) : CongestInv d lost (tcpFastLossRecover t seg) := by
  unfold tcpFastLossRecover
  split
  · split
    · exact h.put _ _ .open rfl h.cWnd_pos h.cWnd_le
        fun hlost => h.ssthresh (.inl (hlost.resolve_right TcpCongest.noConfusion))
    · exact h.retransmit seg.ack
  · exact h

section
variable (hd : d < 2^30) {seg : TcpSeg} (hflight : (flight t).toNat ≤ d)
  (hkept : RecoveryKept d t seg.ack)
include hd hflight

theorem CongestInv.fastRecover_start (hst : t.congestState ≠ .recover) : ∃ cWnd ssthresh : UInt32,
    (tcpFastRecover t seg).congestion = (cWnd,ssthresh,.recover,t.sndMss,t.sndWndScale) ∧
      ssthresh.toNat = max ((flight t).toNat / 2) (2*t.sndMss.toNat) ∧
      cWnd.toNat = ssthresh.toNat + 3*t.sndMss.toNat := by
  have hmss := h.mss_lt
  have htwo : (2*t.sndMss).toNat = 2*t.sndMss.toNat := by
    rw [UInt32.toNat_mul]
    exact Nat.mod_eq_of_lt (by show 2*_ < _; omega)
  have hshift : (flight t >>> 1).toNat = (flight t).toNat / 2 := by
    simp [UInt32.toNat_shiftRight, Nat.shiftRight_eq_div_pow]
  have hstart : (max (flight t >>> 1) (2*t.sndMss)).toNat =
      max ((flight t).toNat / 2) (2*t.sndMss.toNat) := by rw [toNat_max, hshift, htwo]
  have hthree : (3*t.sndMss).toNat = 3*t.sndMss.toNat := by
    rw [UInt32.toNat_mul]
    exact Nat.mod_eq_of_lt (by show 3*_ < _; omega)
  obtain ⟨-,hssthresh,hstate,hmss',hscale⟩ := retransmit_fields
    { t with
      ssthresh := max (flight t >>> 1) (2*t.sndMss)
      recover := t.sndNxt
      congestState := .recover } t.sndUna
  refine ⟨max (flight t >>> 1) (2*t.sndMss) + 3*t.sndMss, max (flight t >>> 1) (2*t.sndMss), ?_, hstart, ?_⟩
  · unfold tcpFastRecover
    rw [if_pos hst]
    exact congrArg (Prod.mk _) (Prod.ext hssthresh (Prod.ext hstate (Prod.ext hmss' hscale)))
  · rw [UInt32.toNat_add, hthree, hstart]
    omega

include hkept

omit hflight in
theorem CongestInv.fastRecover_duplicate (hst : t.congestState = .recover) (hack : seg.ack = t.sndUna) :
    ∃ cWnd : UInt32, (tcpFastRecover t seg).congestion =
        (cWnd,t.ssthresh,.recover,t.sndMss,t.sndWndScale) ∧
      cWnd.toNat = t.cWnd.toNat + t.sndMss.toNat := by
  have hbnd := windowBound_lt h hd
  have hroom := (hkept hst).1 hack
  refine ⟨t.cWnd+t.sndMss, ?_, ?_⟩
  · unfold tcpFastRecover
    rw [if_neg (not_not.mpr hst), if_pos hack, ← hst]
    rfl
  · rw [UInt32.toNat_add]
    omega

omit h hd hflight in
theorem fastRecover_partial (hst : t.congestState = .recover) (hack : seg.ack ≠ t.sndUna)
    (hbelow : tcpSeqGeq seg.ack t.recover = false) :
    ∃ cWnd : UInt32, (tcpFastRecover t seg).congestion =
        (cWnd,t.ssthresh,.recover,t.sndMss,t.sndWndScale) ∧
      cWnd.toNat + takenBy t seg.ack = t.cWnd.toNat ∧ 0 < cWnd.toNat := by
  have hlt : (deflation t seg.ack).toNat < t.cWnd.toNat := (hkept hst).2 hack hbelow
  have hdeflate : (t.cWnd - deflation t seg.ack).toNat =
      t.cWnd.toNat - (deflation t seg.ack).toNat := UInt32.toNat_sub_of_le _ _ (le_of_lt hlt)
  have hflds := retransmit_fields t seg.ack
  rw [deflation_toNat] at hlt hdeflate
  refine ⟨t.cWnd - deflation t seg.ack, ?_, by omega, by omega⟩
  unfold tcpFastRecover
  rw [if_neg (not_not.mpr hst), if_neg hack, hbelow, if_neg Bool.false_ne_true]
  exact congrArg (Prod.mk _) (Prod.ext hflds.2.1
    (Prod.ext (hflds.2.2.1.trans hst) (Prod.ext hflds.2.2.2.1 hflds.2.2.2.2)))

omit hkept in
theorem CongestInv.fastRecover_full (hst : t.congestState = .recover) (hack : seg.ack ≠ t.sndUna)
    (hfull : tcpSeqGeq seg.ack t.recover = true) :
    ∃ cWnd : UInt32, (tcpFastRecover t seg).congestion = (cWnd,t.ssthresh,.open,t.sndMss,t.sndWndScale) ∧
      cWnd.toNat = min t.ssthresh.toNat ((flight t).toNat + t.sndMss.toNat) := by
  have hbnd := windowBound_lt h hd
  have hmss := h.mss_lt
  have hsum : (flight t + t.sndMss).toNat = (flight t).toNat + t.sndMss.toNat := by
    rw [UInt32.toNat_add]
    omega
  refine ⟨min t.ssthresh (flight t + t.sndMss), ?_, by rw [toNat_min, hsum]⟩
  unfold tcpFastRecover
  rw [if_neg (not_not.mpr hst), if_neg hack, if_pos hfull]
  rfl

theorem CongestInv.fastRecover : CongestInv d lost (tcpFastRecover t seg) := by
  have hpos := h.mss_pos
  have hcWnd := h.cWnd_le
  by_cases hst : t.congestState = .recover
  · have hssthresh := h.ssthresh (.inr hst)
    by_cases hack : seg.ack = t.sndUna
    · obtain ⟨cWnd,heq,hval⟩ := h.fastRecover_duplicate hd hkept hst hack
      have hroom := (hkept hst).1 hack
      exact h.put cWnd _ _ heq (by omega) (by omega) fun _ => hssthresh
    cases hfull : tcpSeqGeq seg.ack t.recover with
    | true =>
      obtain ⟨cWnd,heq,hval⟩ := h.fastRecover_full hd hflight hst hack hfull
      refine h.put cWnd _ .open heq (by omega) ?_ fun _ => hssthresh
      unfold windowBound
      omega
    | false =>
      obtain ⟨cWnd,heq,hval,hleft⟩ := fastRecover_partial hkept hst hack hfull
      exact h.put cWnd _ _ heq hleft (by omega) fun _ => hssthresh
  · obtain ⟨cWnd,ssthresh,heq,hstart,hval⟩ := @fastRecover_start _ _ _ h hd seg hflight hst
    refine h.put cWnd ssthresh .recover heq (by omega) ?_ fun _ => by omega
    unfold windowBound
    omega

omit hkept in
theorem CongestInv.fastRecover_episode {e : Episode} (hrec : Recovering d e t) (hep : EpisodeKept e t seg.ack) :
    Recovering d (if t.congestState = .recover then e.next t seg.ack else ⟨0, 0, (flight t).toNat⟩)
      (tcpFastRecover t seg) := by
  have hkept := Inflated.recoveryKept hrec hep
  by_cases hst : t.congestState = .recover
  · obtain ⟨hwindow,hssthresh,hdups,hold⟩ := hrec hst
    rw [if_pos hst, Episode.next]
    by_cases hack : seg.ack = t.sndUna
    · obtain ⟨cWnd,heq,hval⟩ := h.fastRecover_duplicate hd hkept hst hack
      have hnext := (hep hst).1 hack
      rw [if_pos hack]
      refine .put (t := t) heq fun _ => ⟨?_, hssthresh, hnext, hold⟩
      simp only [Nat.add_mul] at hwindow ⊢
      omega
    rw [if_neg hack]
    cases hfull : tcpSeqGeq seg.ack t.recover with
    | true =>
      obtain ⟨cWnd,heq,-⟩ := h.fastRecover_full hd hflight hst hack hfull
      exact .put (t := t) heq TcpCongest.noConfusion
    | false =>
      obtain ⟨cWnd,heq,hval,-⟩ := fastRecover_partial hkept hst hack hfull
      refine .put (t := t) heq fun _ => ⟨?_, hssthresh, hdups, hold⟩
      simp only [Bool.false_eq_true, if_false]
      omega
  · obtain ⟨cWnd,ssthresh,heq,hstart,hval⟩ := @fastRecover_start _ _ _ h hd seg hflight hst
    rw [if_neg hst]
    refine .put (t := t) heq fun _ => ⟨hval, hstart, ?_, hflight⟩
    rw [Nat.zero_mul]
    exact Nat.zero_le _

omit h hd hflight hkept in
theorem lossRecover_state (hst : t.congestState ≠ .recover) :
    (tcpFastLossRecover t seg).congestState ≠ .recover := by
  unfold tcpFastLossRecover
  split
  · split
    · exact TcpCongest.noConfusion
    · rw [(retransmit_fields t seg.ack).2.2.1]
      exact hst
  · exact hst

omit hkept in
theorem CongestInv.congest_episode {e : Episode} (hrec : Recovering d e t) (hep : EpisodeKept e t seg.ack) :
    Recovering d (if t.congestState = .recover then e.next t seg.ack else ⟨0, 0, (flight t).toNat⟩)
      (tcpCongest t seg) := by
  by_cases hopen : (t.congestState = .open ∧ t.dupAck < 3) ∨ t.congestState = .loss
  · have hst : t.congestState ≠ .recover := by
      rcases hopen with ⟨hst,-⟩ | hst
      · rw [hst]
        exact TcpCongest.noConfusion
      · rw [hst]
        exact TcpCongest.noConfusion
    have hgrown : (growCWnd t seg).congestState ≠ .recover := by
      unfold growCWnd
      split <;> exact hst
    refine fun hrecover => absurd hrecover ?_
    rw [tcpCongest, if_pos hopen]
    split
    · exact lossRecover_state hgrown
    · exact hgrown
  · rw [tcpCongest, if_neg hopen]
    exact h.fastRecover_episode hd hflight hrec hep

theorem CongestInv.congest : CongestInv d lost (tcpCongest t seg) := by
  unfold tcpCongest
  split
  · split
    · exact (h.grow hd seg).lossRecover seg
    · exact h.grow hd seg
  · exact h.fastRecover hd hflight hkept

end

theorem CongestInv.rexmit (giveUp : Bool) : CongestInv d true (tcpRexmitTimeout t giveUp) := by
  have hle : t.sndMss.toNat ≤ windowBound d t := by
    unfold windowBound
    omega
  have hmss := h.mss_lt
  have hssthresh : 2*t.sndMss.toNat ≤ (max (2*t.sndMss) (flight t / 2)).toNat := by
    rw [toNat_max, UInt32.toNat_mul, Nat.mod_eq_of_lt (by show 2*_ < _; omega)]
    exact le_max_left _ _
  unfold tcpRexmitTimeout
  split
  · exact h.put t.sndMss _ _ rfl h.mss_pos hle fun _ => hssthresh
  have hflds := retransmit_fields (rexmitWindow t) t.sndUna
  have hlost : CongestInv d true (rexmitWindow t) := h.put t.sndMss _ _ rfl h.mss_pos hle fun _ => hssthresh
  have hsent := hlost.retransmit t.sndUna
  exact hsent.put _ _ .loss rfl hsent.cWnd_pos hsent.cWnd_le fun _ => hsent.ssthresh (.inl rfl)

end

end

def lossEvent (t t' : Tcb) : TcpAction → Bool
  | .rexmitTimeout _ => true
  | _ => t.congestState != .recover && t'.congestState == .recover

/-- The episode behind a step: a segment that is looked at in recovery belongs to it, and one that is looked at
elsewhere may start one. -/
def Episode.after (e : Episode) (t : Tcb) : TcpAction → Episode
  | .input head _ =>
    if getsToCongest t head then
      if t.congestState = .recover then e.next t (trimmed t head).ack else ⟨0, 0, (t.sndNxt-t.sndUna).toNat⟩
    else e
  | _ => e

def WindowKept (e : Episode) (t : Tcb) : TcpAction → Prop
  | .input head _ => getsToCongest t head = true → EpisodeKept e t (trimmed t head).ack
  | _ => True

instance (e : Episode) (t : Tcb) : (action : TcpAction) → Decidable (WindowKept e t action)
  | .input head _ =>
    inferInstanceAs (Decidable (getsToCongest t head = true → EpisodeKept e t (trimmed t head).ack))
  | .appSend _ | .appClose | .appAbort | .appConsume _ | .connectTimeout | .rexmitTimeout _ | .probeTimeout
  | .keepaliveTimeout _ | .finwait2Timeout | .msl2Timeout | .tick => .isTrue trivial

structure Opened (t : Tcb) : Prop where
  mss_pos : 0 < t.sndMss
  mss_lt : t.sndMss.toNat < 2^16
  scale : t.sndWndScale ≤ 14
  cWnd_pos : 0 < t.cWnd
  cWnd_le : t.cWnd ≤ 0xffff <<< UInt32.ofNat t.sndWndScale
  not_recover : t.congestState ≠ .recover

/-- Runs of a connected TCP connection with at most `d` bytes in flight, whose steps meet `P`, with what the
recovery that goes on has seen, and whether there was a loss. -/
inductive CongestRun (d : Nat) (P : Episode → Tcb → TcpAction → Prop) : Bool → Episode → Tcb → Prop
  | start {t : Tcb} : Opened t → CongestRun d P false ⟨0, 0, 0⟩ t
  | step {lost : Bool} {e : Episode} {t : Tcb} (outcomes : List Bool) (action : TcpAction) :
      CongestRun d P lost e t → t.state.connected = true → (flight t).toNat ≤ d → P e t action →
      CongestRun d P (lost || lossEvent t (tcpStep { t with outcomes := outcomes } action).2 action)
        (e.after t action) (tcpStep { t with outcomes := outcomes } action).2

theorem Opened.congestInv {t : Tcb} (h : Opened t) (d : Nat) : CongestInv d false t := by
  refine ⟨h.mss_pos, h.mss_lt, h.scale, h.cWnd_pos, ?_, fun hlost => ?_⟩
  · have hle := UInt32.le_iff_toNat_le.mp h.cWnd_le
    rw [windowLimit_toNat h.scale] at hle
    unfold windowBound
    omega
  · exact absurd (hlost.resolve_left Bool.noConfusion) h.not_recover

theorem CongestInv.seen {d : Nat} {lost : Bool} {t' : Tcb} (h : CongestInv d lost t') (t : Tcb) :
    CongestInv d (lost || (t.congestState != .recover && t'.congestState == .recover)) t' := { h with
    ssthresh := fun hseen => by
      simp only [Bool.or_eq_true, Bool.and_eq_true, beq_iff_eq] at hseen
      exact h.ssthresh (hseen.elim (fun hlost => hlost.imp_right And.right) .inr) }

theorem congestion_other (t : Tcb) (action : TcpAction)
    (hinput : ∀ head option, action ≠ .input head option)
    (hrexmit : ∀ giveUp, action ≠ .rexmitTimeout giveUp) :
    (tcpStep t action).2.congestion = t.congestion := by
  cases action with
  | input head option => exact absurd rfl (hinput head option)
  | rexmitTimeout giveUp => exact absurd rfl (hrexmit giveUp)
  | appSend size =>
    show (tcpOnAppSend t size).congestion = t.congestion
    unfold tcpOnAppSend
    split
    · exact congestion_toSendData _ false
    · exact congestion_toSendData _ false
    · rfl
  | appClose =>
    show (tcpOnAppClose t).congestion = t.congestion
    unfold tcpOnAppClose
    split
    · rfl
    · exact congestion_toSendData _ true
  | appConsume size =>
    show (tcpOnAppConsume t size).congestion = t.congestion
    unfold tcpOnAppConsume
    repeat' split
    any_goals rfl
    exact congestion_sendAck _
  | connectTimeout =>
    show (tcpConnectTimeout t).congestion = t.congestion
    unfold tcpConnectTimeout
    split <;> rfl
  | probeTimeout =>
    show (tcpProbeTimeout t).congestion = t.congestion
    unfold tcpProbeTimeout
    repeat' split
    all_goals simp
  | keepaliveTimeout giveUp =>
    show (tcpKeepaliveTimeout t giveUp).congestion = t.congestion
    unfold tcpKeepaliveTimeout
    split <;> simp
  | tick =>
    show (tcpTick t).congestion = t.congestion
    unfold tcpTick
    split <;> simp
  | _ => rfl

theorem CongestInv.step {d : Nat} {lost : Bool} {e : Episode} {t : Tcb} {action : TcpAction}
    (h : CongestInv d lost t) (hrec : Recovering d e t) (hd : d < 2^30) (hconnected : t.state.connected = true)
    (hflight : (flight t).toNat ≤ d) (hkept : WindowKept e t action) :
    CongestInv d (lost || lossEvent t (tcpStep t action).2 action) (tcpStep t action).2 ∧
      ((tcpStep t action).2.state.connected = true → Recovering d (e.after t action) (tcpStep t action).2) := by
  cases action with
  | input head option =>
    rcases @congestion_input t head option hconnected with ⟨hgets,hsame⟩ | ⟨hgets,b,n,log,heq⟩
    · refine ⟨(h.congr hsame).seen t, fun _ => ?_⟩
      rw [Episode.after, if_neg (by rw [hgets]; exact Bool.false_ne_true)]
      exact hrec.congr hsame
    · have hnew : CongestInv d lost { t with ackNow := b, dupAck := n, log := log } := h.congr rfl
      have hrec' : Recovering d e { t with ackNow := b, dupAck := n, log := log } := hrec.congr rfl
      refine ⟨((hnew.congest hd hflight (Inflated.recoveryKept hrec' (hkept hgets))).congr heq).seen t,
        fun _ => ?_⟩
      rw [Episode.after, if_pos hgets]
      exact (hnew.congest_episode hd hflight hrec' (hkept hgets)).congr heq
  | rexmitTimeout giveUp =>
    rw [lossEvent, Bool.or_true]
    refine ⟨h.rexmit giveUp, fun hopen hrecover => ?_⟩
    cases giveUp with
    | true => cases hopen
    | false => exact TcpCongest.noConfusion (show TcpCongest.loss = .recover from hrecover)
  | _ => exact ⟨(h.congr (congestion_other t _ (fun _ _ => TcpAction.noConfusion)
      fun _ => TcpAction.noConfusion)).seen t, fun _ => hrec.congr (congestion_other t _
        (fun _ _ => TcpAction.noConfusion) fun _ => TcpAction.noConfusion)⟩

/-- While in each recovery the duplicate acknowledgments stand for no more than the data that were in flight,
and the partial ones take less than half of these and a segment for each duplicate, the congestion window
stays between one and the bound, so that congestion avoidance never divides by zero, and the slow start
threshold is at least two segments after a loss. -/
theorem cWnd_bounded_of_run {d : Nat} {lost : Bool} {e : Episode} {t : Tcb} (hd : d < 2^30)
    (hrun : CongestRun d WindowKept lost e t) :
    1 ≤ t.cWnd.toNat ∧ t.cWnd.toNat ≤ windowBound d t ∧ t.cWnd ≠ 0 ∧
      (lost = true → 2*t.sndMss.toNat ≤ t.ssthresh.toNat) := by
  have hinv : CongestInv d lost t ∧ (t.state.connected = true → Recovering d e t) := by
    induction hrun with
    | start hopened => exact ⟨hopened.congestInv d, fun _ hrecover => absurd hrecover hopened.not_recover⟩
    | @step lost e t outcomes action _ hconnected hflight hkept ih =>
      have hwindow : CongestInv d lost { t with outcomes := outcomes } := ih.1.congr rfl
      have hepisode : Recovering d e { t with outcomes := outcomes } := (ih.2 hconnected).congr rfl
      have hstep := @CongestInv.step d lost e { t with outcomes := outcomes } action hwindow hepisode hd
        hconnected hflight
      cases action with
      | input head option => exact hstep hkept
      | _ => exact hstep trivial
  have hwindow := hinv.1
  refine ⟨hwindow.cWnd_pos, hwindow.cWnd_le, fun hzero => ?_, fun hlost => hwindow.ssthresh (.inl hlost)⟩
  have hpos := hwindow.cWnd_pos
  rw [hzero] at hpos
  exact absurd hpos (by decide)

def flightTcb : Tcb := { sampleTcb with
    sndNxt := 7300
    sndMss := 64
    cWnd := 6400
    sndQue := [{ emptySeg 900 with endSeq := 7300, size := 6400 }] }

theorem opened_flightTcb : Opened flightTcb :=
  ⟨by decide, by decide, by decide, by decide, by decide, by decide⟩

/-- Three duplicate acknowledgments, one more in the recovery, a partial one of two segments and a full one. -/
theorem cWnd_bounded_of_run_recovery : ∃ lost e t, CongestRun 6400 WindowKept lost e t ∧ lost = true ∧
    e = ⟨1, 64, 6400⟩ ∧ t.cWnd = 3200 ∧ 1 ≤ t.cWnd.toNat ∧ t.cWnd.toNat ≤ windowBound 6400 t ∧
      2 * t.sndMss.toNat ≤ t.ssthresh.toNat := by
  have hone := @CongestRun.step 6400 WindowKept _ _ _ [] (.input (ackHead 900 8192) noOption)
    (.start opened_flightTcb) rfl (by decide) (by decide +kernel)
  have htwo := hone.step [] (.input (ackHead 900 8192) noOption) (by decide +kernel) (by decide +kernel)
    (by decide +kernel)
  have hthree := htwo.step [] (.input (ackHead 900 8192) noOption) (by decide +kernel) (by decide +kernel)
    (by decide +kernel)
  have hfour := hthree.step [] (.input (ackHead 900 8192) noOption) (by decide +kernel) (by decide +kernel)
    (by decide +kernel)
  have hfive := hfour.step [] (.input (ackHead 1028 8192) noOption) (by decide +kernel) (by decide +kernel)
    (by decide +kernel)
  have hsix := hfive.step [] (.input (ackHead 7300 8192) noOption) (by decide +kernel) (by decide +kernel)
    (by decide +kernel)
  obtain ⟨hpos,hle,-,hssthresh⟩ := cWnd_bounded_of_run (by decide) hsix
  have hlost := hssthresh (by decide +kernel)
  refine ⟨_, _, _, hsix, ?_, ?_, ?_, hpos, hle, hlost⟩
  · decide +kernel
  · decide +kernel
  · decide +kernel

/-- Behind three duplicate acknowledgments a partial one of 99 segments takes 98 segments from a window of
53. -/
theorem partialAck_wraps : ¬ ∀ lost e t, CongestRun 6400 (fun _ _ _ => True) lost e t →
    1 ≤ t.cWnd.toNat ∧ t.cWnd.toNat ≤ windowBound 6400 t := by
  intro hclaim
  have hone := @CongestRun.step 6400 (fun _ _ _ => True) _ _ _ [] (.input (ackHead 900 8192) noOption)
    (.start opened_flightTcb) rfl (by decide) trivial
  have htwo := hone.step [] (.input (ackHead 900 8192) noOption) (by decide +kernel) (by decide +kernel)
    trivial
  have hthree := htwo.step [] (.input (ackHead 900 8192) noOption) (by decide +kernel) (by decide +kernel)
    trivial
  have hfour := hthree.step [] (.input (ackHead 7236 8192) noOption) (by decide +kernel)
    (by decide +kernel) trivial
  exact absurd (hclaim _ _ _ hfour).2 (by decide +kernel)

end Liano.Tcp
