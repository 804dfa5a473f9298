import Liano.Lib.Run
import Liano.Xen.Store

/-! The rings carry what is written to them: requests to the peer and responses to the guest, in any
interleaving of the two. -/
namespace Liano.Xen

open List hiding cons head min

open Lib Bytes

variable {s s' : XenStore} {reqBase rspBase : Nat} {sent : Bytes}

/-- XenStoreWriteStore with `data` left to write. The peer may have consumed more since the index was loaded. -/
def WritingAt (reqBase : Nat) (sent : Bytes) (s : XenStore) (data : Bytes) : Phase → Prop
  | .head => True
  | .loaded cons => ∃ c, cons = (reqBase+c) % idxWidth ∧ c ≤ s.consumed.length ∧
      sent.length ≤ c+xenstoreRingSize
  | .copying place available copied =>
    place = (reqBase+sent.length) % xenstoreRingSize ∧ place+available ≤ xenstoreRingSize ∧
    sent.length+available ≤ s.consumed.length+xenstoreRingSize ∧
    copied.length ≤ available ∧ available ≤ data.length ∧ copied = data.take copied.length ∧
    Ring.window xenstoreRingSize s.shared.req (reqBase+sent.length) copied.length = copied

/-- XenStoreReadStore. -/
def ReadingAt (rspBase : Nat) (s : XenStore) (r : Reading) : Phase → Prop
  | .head => True
  | .loaded cons => cons = s.shared.rspCons
  | .copying place available copied =>
    place = (rspBase+s.read.length) % xenstoreRingSize ∧ place+available ≤ xenstoreRingSize ∧
    s.read.length+available ≤ s.produced.length ∧
    copied.length ≤ available ∧ available ≤ r.len-r.data.length ∧
    copied = Ring.window xenstoreRingSize s.shared.rsp (rspBase+s.read.length) copied.length

def Running (reqBase rspBase : Nat) (sent : Bytes) (s : XenStore) : Prop := match s.writing, s.reading with
  | some data, none => WritingAt reqBase sent s data s.phase
  | none, some r => ReadingAt rspBase s r s.phase ∧ s.pending = []
  | none, none => s.phase = .head
  | some _, some _ => False

structure Streams (reqBase rspBase : Nat) (sent : Bytes) (s : XenStore) : Prop where
  req : Ring.Carries xenstoreRingSize idxWidth s.shared.req s.shared.reqProd s.shared.reqCons reqBase sent
    s.consumed
  rsp : Ring.Carries xenstoreRingSize idxWidth s.shared.rsp s.shared.rspProd s.shared.rspCons rspBase
    s.produced s.read
  submitted : s.submitted = sent ++ s.writing.getD []
  running : Running reqBase rspBase sent s
  ringFault : s.ringFault = false

theorem Streams.initial {req rsp : Nat → UInt8} {watches : List Nat} (hreq : reqBase < idxWidth)
    (hrsp : rspBase < idxWidth) : Streams reqBase rspBase [] (.initial req rsp reqBase rspBase watches) where
  req := Ring.Carries.initial hreq
  rsp := Ring.Carries.initial hrsp
  submitted := rfl
  running := rfl
  ringFault := rfl

section Indices

variable {ring : Nat → UInt8} {prod cons base : Nat} {received : Bytes}

section
variable (h : Ring.Carries xenstoreRingSize idxWidth ring prod cons base sent received)
include h

theorem idxSub_carries : idxSub prod cons = sent.length-received.length := by
  have hle := h.length_le
  have hroom := h.room
  rw [h.prod_eq, h.cons_eq, idxSub_ring (by omega) (by omega)]
  omega

theorem conserved_idxSub : sent = received ++ Ring.window xenstoreRingSize ring cons (idxSub prod cons) := by
  have hslot : cons % xenstoreRingSize = (base+received.length) % xenstoreRingSize := by
    rw [h.cons_eq, Ring.slot_register ringSize_dvd]
  rw [idxSub_carries h, Ring.window_congr hslot]
  exact h.conserved

end

end Indices

variable {data : Bytes}

theorem WritingAt.peerConsume {phase : Phase} {n : Nat}
    (h : WritingAt reqBase sent s data phase) : WritingAt reqBase sent (s.peerConsume n) data phase := by
  have hle : s.consumed.length ≤ (s.peerConsume n).consumed.length := by simp [XenStore.peerConsume]
  cases phase with
  | head => trivial
  | loaded cons =>
    obtain ⟨c,hcons,hc,hroom⟩ := h
    exact ⟨c, hcons, hc.trans hle, hroom⟩
  | copying place available copied =>
    obtain ⟨hplace,hlinear,hroom,hrest⟩ := h
    exact ⟨hplace, hlinear, hroom.trans (Nat.add_le_add_right hle _), hrest⟩

theorem Streams.peerConsume {n : Nat} (h : Streams reqBase rspBase sent s)
    (hn : n ≤ idxSub s.shared.reqProd s.shared.reqCons) : Streams reqBase rspBase sent (s.peerConsume n) where
  req := by
    rw [idxSub_carries h.req] at hn
    have hslot : s.shared.reqCons % xenstoreRingSize = (reqBase+s.consumed.length) % xenstoreRingSize := by
      rw [h.req.cons_eq, Ring.slot_register ringSize_dvd]
    simp only [XenStore.peerConsume, Ring.window_congr hslot]
    exact h.req.receive hn
  rsp := h.rsp
  submitted := h.submitted
  running := by
    have hrun := h.running
    simp only [Running, XenStore.peerConsume] at hrun ⊢
    split
    · rename_i data hw hr
      rw [hw, hr] at hrun
      exact WritingAt.peerConsume hrun
    · rename_i r hw hr
      rw [hw, hr] at hrun
      refine ⟨?_, hrun.2⟩
      cases hp : s.phase with
      | head => trivial
      | loaded cons => simpa [ReadingAt, hp] using hrun.1
      | copying place available copied => simpa [ReadingAt, hp] using hrun.1
    · rename_i hw hr
      simpa only [hw, hr] using hrun
    · rename_i hw hr
      simp only [hw, hr] at hrun
  ringFault := h.ringFault

variable {r : Reading}

theorem ReadingAt.peerProduce {phase : Phase} {b : Bytes} (h : ReadingAt rspBase s r phase)
    (hcarries : Ring.Carries xenstoreRingSize idxWidth s.shared.rsp s.shared.rspProd s.shared.rspCons rspBase
      s.produced s.read) (hb : s.produced.length+b.length ≤ s.read.length+xenstoreRingSize) :
    ReadingAt rspBase (s.peerProduce b) r phase := by
  cases phase with
  | head => trivial
  | loaded cons => exact h
  | copying place available copied =>
    obtain ⟨hplace,hlinear,havail,hcopied,hlen,hwindow⟩ := h
    have hslot : s.shared.rspProd % xenstoreRingSize = (rspBase+s.produced.length) % xenstoreRingSize := by
      rw [hcarries.prod_eq, Ring.slot_register ringSize_dvd]
    refine ⟨hplace, hlinear, ?_, hcopied, hlen, ?_⟩
    · simp only [XenStore.peerProduce, length_append]
      omega
    · simp only [XenStore.peerProduce, Ring.fill_congr hslot]
      rw [Ring.window_fill (by omega) (by omega)]
      exact hwindow

section
variable (h : Streams reqBase rspBase sent s)
include h

theorem Streams.peerProduce {b : Bytes}
    (hb : idxSub s.shared.rspProd s.shared.rspCons + b.length ≤ xenstoreRingSize) :
    Streams reqBase rspBase sent (s.peerProduce b) := by
  rw [idxSub_carries h.rsp] at hb
  have hroom : s.produced.length+b.length ≤ s.read.length+xenstoreRingSize := by omega
  have hslot : s.shared.rspProd % xenstoreRingSize = (rspBase+s.produced.length) % xenstoreRingSize := by
    rw [h.rsp.prod_eq, Ring.slot_register ringSize_dvd]
  refine ⟨h.req, ?_, h.submitted, ?_, h.ringFault⟩
  · simp only [XenStore.peerProduce, Ring.fill_congr hslot]
    exact h.rsp.send hroom
  · have hrun := h.running
    simp only [Running, XenStore.peerProduce] at hrun ⊢
    split
    · rename_i data hw hr
      rw [hw, hr] at hrun
      cases hp : s.phase with
      | head => trivial
      | loaded cons => simpa [WritingAt, hp] using hrun
      | copying place available copied => simpa [WritingAt, hp] using hrun
    · rename_i r hw hr
      rw [hw, hr] at hrun
      exact ⟨hrun.1.peerProduce h.rsp hroom, hrun.2⟩
    · rename_i hw hr
      simpa only [hw, hr] using hrun
    · rename_i hw hr
      simp only [hw, hr] at hrun

section
variable (hw : s.writing = some data)
include hw

theorem Streams.writingAt : s.reading = none ∧ WritingAt reqBase sent s data s.phase := by
  have hrun := h.running
  simp only [Running, hw] at hrun
  cases hr : s.reading with
  | none => exact ⟨rfl, by simpa only [hr] using hrun⟩
  | some r => simp only [hr] at hrun

theorem Streams.writeOn
    {req : Nat → UInt8} {phase : Phase}
    (hreq : Ring.Carries xenstoreRingSize idxWidth req s.shared.reqProd s.shared.reqCons reqBase sent
      s.consumed)
    (hphase : WritingAt reqBase sent { s with shared := { s.shared with req := req }, phase := phase } data phase) :
    Streams reqBase rspBase sent { s with shared := { s.shared with req := req }, phase := phase } where
  req := hreq
  rsp := h.rsp
  submitted := h.submitted
  running := by
    simp only [Running, hw, (h.writingAt hw).1]
    exact hphase
  ringFault := h.ringFault

theorem Streams.checkIndexes_req
    {cons : Nat} (hp : s.phase = .loaded cons) : xenStoreCheckIndexes cons s.shared.reqProd = true := by
  have hat := (h.writingAt hw).2
  rw [hp] at hat
  obtain ⟨c,hcons,hc,hroom⟩ := hat
  have hle := h.req.length_le
  simp only [xenStoreCheckIndexes, decide_eq_true_eq]
  rw [h.req.prod_eq, hcons, idxSub_ring (by omega) (by omega)]
  omega

theorem Streams.writeLoaded
    {cons : Nat} (hp : s.phase = .loaded cons) : Streams reqBase rspBase sent (s.writeStore data) := by
  have hat := (h.writingAt hw).2
  rw [hp] at hat
  obtain ⟨c,hcons,hc,hroom⟩ := hat
  have hle := h.req.length_le
  have hprod := h.req.prod_eq
  obtain ⟨hplace,hlinear,hfree,-⟩ := outputChunk_spec
    (Nat.add_le_add_left (hc.trans hle) reqBase) (by omega : reqBase+sent.length ≤ reqBase+c+xenstoreRingSize)
  rw [← hprod, ← hcons] at hplace hlinear hfree
  simp only [XenStore.writeStore, hp]
  split
  · exact h.writeOn hw h.req trivial
  rw [if_pos (h.checkIndexes_req hw hp)]
  apply h.writeOn hw h.req
  refine ⟨hplace, ?_, ?_, Nat.zero_le _, min_le_right _ _, rfl, rfl⟩
  · rw [hplace]
    omega
  · show sent.length + min _ data.length ≤ s.consumed.length+xenstoreRingSize
    omega

theorem Streams.writeCopying
    {place available : Nat} {copied : Bytes} (hp : s.phase = .copying place available copied) :
    ∃ sent', Streams reqBase rspBase sent' (s.writeStore data) := by
  have hat := (h.writingAt hw).2
  rw [hp] at hat
  obtain ⟨hplace,hlinear,hroom,hcopied,havail,hdata,hwindow⟩ := hat
  simp only [XenStore.writeStore, hp]
  split
  · rename_i hmore
    have hslot : place+copied.length = (reqBase+sent.length+copied.length) % xenstoreRingSize := by
      rw [hplace] at hlinear ⊢
      exact Ring.slot_linear hlinear hmore
    have hin : place+copied.length < xenstoreRingSize := by omega
    have hlt : copied.length < data.length := by omega
    have hnext : copied ++ [data.getD copied.length 0] = data.take (copied.length+1) := by
      rw [take_add_one, ← hdata, getD_eq_getElem?_getD, getElem?_eq_getElem hlt]
      rfl
    rw [if_pos hin, hslot]
    refine ⟨sent, h.writeOn hw (h.req.write _ (by omega) (by omega)) ?_⟩
    refine ⟨hplace, hlinear, hroom, ?_, havail, ?_, ?_⟩
    · rw [length_append]
      exact hmore
    · rw [length_append]
      exact hnext
    · rw [length_append]
      refine (Ring.window_update_next (by omega)).trans ?_
      rw [hwindow]
  · have hall : copied.length = available := by omega
    refine ⟨sent ++ copied, ?_, h.rsp, ?_, ?_, h.ringFault⟩
    · rw [← hall]
      exact h.req.publish hwindow (by omega)
    · have hsubmitted := h.submitted
      have hparts : copied ++ data.drop copied.length = data := by
        nth_rewrite 1 [hdata]
        exact take_append_drop _ _
      rw [hw, Option.getD_some] at hsubmitted
      rw [Option.getD_some, append_assoc, hsubmitted, ← hall, hparts]
    · simp only [Running, (h.writingAt hw).1]
      trivial

theorem Streams.writeStore : ∃ sent', Streams reqBase rspBase sent' (s.writeStore data) := by
  cases hp : s.phase with
  | head =>
    refine ⟨sent, ?_⟩
    simp only [XenStore.writeStore, hp]
    split
    · rename_i hnil
      refine ⟨h.req, h.rsp, ?_, ?_, h.ringFault⟩
      · simpa [hw, hnil] using h.submitted
      · simp only [Running, (h.writingAt hw).1]
    · apply h.writeOn hw h.req
      refine ⟨s.consumed.length, h.req.cons_eq, le_rfl, h.req.room⟩
  | loaded cons => exact ⟨sent, h.writeLoaded hw hp⟩
  | copying place available copied => exact h.writeCopying hw hp

end

theorem Streams.readingAt (hw : s.writing = none)
    (hr : s.reading = some r) : ReadingAt rspBase s r s.phase ∧ s.pending = [] := by
  have hrun := h.running
  simpa only [Running, hw, hr] using hrun

theorem Streams.reading_none {buffer : Bytes} {buffers : List Bytes} (hw : s.writing = none)
    (hpend : s.pending = buffer :: buffers) : s.reading = none := by
  cases hr : s.reading with
  | none => rfl
  | some r => simp [(h.readingAt hw hr).2] at hpend

theorem Streams.readOn (hw : s.writing = none)
    (hr : s.reading = some r) {phase : Phase} (hphase : ReadingAt rspBase { s with phase := phase } r phase) :
    Streams reqBase rspBase sent { s with phase := phase } where
  req := h.req
  rsp := h.rsp
  submitted := h.submitted
  running := by
    simp only [Running, hw, hr]
    exact ⟨hphase, (h.readingAt hw hr).2⟩
  ringFault := h.ringFault

theorem Streams.checkIndexes_rsp : xenStoreCheckIndexes s.shared.rspCons s.shared.rspProd = true := by
  have hroom := h.rsp.room
  simp only [xenStoreCheckIndexes, decide_eq_true_eq, idxSub_carries h.rsp]
  omega

section
variable (hw : s.writing = none)
include hw

section
variable (hr : s.reading = some r)
include hr

theorem Streams.readLoaded {cons : Nat} (hp : s.phase = .loaded cons) (allocated : Bool) (data : Nat) :
    Streams reqBase rspBase sent (s.readStore allocated data r) := by
  have hat := (h.readingAt hw hr).1
  rw [hp] at hat
  subst hat
  have hle := h.rsp.length_le
  have hroom := h.rsp.room
  have hprod := h.rsp.prod_eq
  have hcons := h.rsp.cons_eq
  obtain ⟨hplace,hlinear,hfilled,-⟩ := inputChunk_spec (Nat.add_le_add_left hle rspBase)
    (by omega : rspBase+s.produced.length ≤ rspBase+s.read.length+xenstoreRingSize)
  rw [← hprod, ← hcons] at hplace hlinear hfilled
  simp only [XenStore.readStore, hp]
  split
  · exact h.readOn hw hr trivial
  rw [if_pos h.checkIndexes_rsp]
  apply h.readOn hw hr
  refine ⟨hplace, ?_, ?_, Nat.zero_le _, min_le_right _ _, rfl⟩
  · rw [hplace]
    omega
  · show s.read.length + min _ (r.len-r.data.length) ≤ s.produced.length
    omega

theorem Streams.readCopying {place available : Nat} {copied : Bytes}
    (hp : s.phase = .copying place available copied) (allocated : Bool) (data : Nat) :
    Streams reqBase rspBase sent (s.readStore allocated data r) := by
  obtain ⟨hat,hpend⟩ := h.readingAt hw hr
  rw [hp] at hat
  obtain ⟨hplace,hlinear,hfilled,hcopied,havail,hwindow⟩ := hat
  simp only [XenStore.readStore, hp]
  split
  · rename_i hmore
    have hslot : place+copied.length = (rspBase+s.read.length+copied.length) % xenstoreRingSize := by
      rw [hplace] at hlinear ⊢
      exact Ring.slot_linear hlinear hmore
    have hin : place+copied.length < xenstoreRingSize := by omega
    rw [if_pos hin, hslot]
    split
    · apply h.readOn hw hr
      refine ⟨hplace, hlinear, hfilled, ?_, havail, ?_⟩
      · rw [length_append]
        exact hmore
      · rw [length_append]
        refine Eq.trans ?_ Ring.window_succ.symm
        rw [← hwindow]
    · refine ⟨h.req, h.rsp, h.submitted, ?_, h.ringFault⟩
      simp only [Running, hw, hr]
      exact ⟨⟨hplace, hlinear, hfilled, hcopied, havail, hwindow⟩, hpend⟩
  · have hall : copied.length = available := by omega
    refine ⟨h.req, ?_, h.submitted, ?_, h.ringFault⟩
    · have hreceive := h.rsp.receive (n := copied.length) (by omega)
      rw [← hwindow, hall] at hreceive
      exact hreceive
    · simp only [Running, hw]
      exact ⟨trivial, hpend⟩

theorem Streams.bufferRead (hp : s.phase = .head) (allocated : Bool) (data : Nat) :
    Streams reqBase rspBase sent (s.bufferRead allocated data r) := by
  have hpend := (h.readingAt hw hr).2
  have hfault : Streams reqBase rspBase sent { s with memoryFault := true } :=
    ⟨h.req, h.rsp, h.submitted, h.running, h.ringFault⟩
  cases hhdr : r.header with
  | none =>
    simp only [XenStore.bufferRead, hhdr]
    refine ⟨h.req, h.rsp, h.submitted, ?_, h.ringFault⟩
    simp only [Running, hw, hp]
    exact ⟨trivial, hpend⟩
  | some header =>
    simp only [XenStore.bufferRead, hhdr, XenStore.messageRead]
    split
    · split
      · split
        · refine ⟨h.req, h.rsp, h.submitted, ?_, h.ringFault⟩
          simp only [Running, hw, hp]
        · exact hfault
      · refine ⟨h.req, h.rsp, h.submitted, ?_, h.ringFault⟩
        simp only [Running, hw, hp]
    · exact hfault

theorem Streams.readStore (allocated : Bool) (data : Nat) :
    Streams reqBase rspBase sent (s.readStore allocated data r) := by
  cases hp : s.phase with
  | head =>
    simp only [XenStore.readStore, hp]
    split
    · exact h.bufferRead hw hr hp allocated data
    · exact h.readOn hw hr rfl
  | loaded cons => exact h.readLoaded hw hr hp allocated data
  | copying place available copied => exact h.readCopying hw hr hp allocated data

end

theorem Streams.phase_head
    (hr : s.reading = none) : s.phase = .head := by
  have hrun := h.running
  simpa only [Running, hw, hr] using hrun

theorem Streams.processMessage
    (hr : s.reading = none) (hpend : s.pending = []) (allocated : Bool) :
    Streams reqBase rspBase sent (s.processMessage allocated) := by
  have hp := h.phase_head hw hr
  simp only [XenStore.processMessage]
  split
  · refine ⟨h.req, h.rsp, h.submitted, ?_, h.ringFault⟩
    simp only [Running, hw, hp]
    exact ⟨trivial, hpend⟩
  · exact ⟨h.req, h.rsp, h.submitted, h.running, h.ringFault⟩

end

theorem Streams.guest (allocated : Bool) (data : Nat) :
    ∃ sent', Streams reqBase rspBase sent' (s.guest allocated data) := by
  cases hw : s.writing with
  | some buffer =>
    simp only [XenStore.guest, hw]
    exact h.writeStore hw
  | none =>
    refine ⟨sent, ?_⟩
    cases hpend : s.pending with
    | cons buffer rest =>
      have hr := h.reading_none hw hpend
      simp only [XenStore.guest, hw, hpend]
      refine ⟨h.req, h.rsp, ?_, ?_, h.ringFault⟩
      · simp [h.submitted, hw]
      · simp only [Running, hr, h.phase_head hw hr]
        trivial
    | nil =>
      cases hr : s.reading with
      | some r =>
        simp only [XenStore.guest, hw, hpend, hr]
        exact h.readStore hw hr allocated data
      | none =>
        simp only [XenStore.guest, hw, hpend, hr, XenStore.readReply]
        split
        · split
          · exact h.processMessage hw hr hpend allocated
          · refine ⟨h.req, h.rsp, ?_, ?_, h.ringFault⟩
            · simpa [hw] using h.submitted
            · simpa only [Running] using h.phase_head hw hr
        · exact h

theorem Streams.step {a : Action} (hs : step s a = some s') : ∃ sent', Streams reqBase rspBase sent' s' := by
  cases stepped hs with
  | talkv hidle =>
    obtain ⟨hw,-,hr,-⟩ := hidle
    refine ⟨sent, h.req, h.rsp, h.submitted, ?_, h.ringFault⟩
    simp only [Running, XenStore.talkv, hw, hr, h.phase_head hw hr]
  | processMessage hidle =>
    obtain ⟨hw,hpend,hr,-⟩ := hidle
    exact ⟨sent, h.processMessage hw hr hpend _⟩
  | guest _ => exact h.guest _ _
  | watches _ => exact ⟨sent, h.req, h.rsp, h.submitted, h.running, h.ringFault⟩
  | peerConsume hn => exact ⟨sent, h.peerConsume hn⟩
  | peerProduce hb => exact ⟨sent, h.peerProduce hb⟩

end

end Liano.Xen
