import Liano.Xen.Messages

/-! The reply to XenStoreTalkv arrives: a rank that no step raises, and that each step of the guest lowers
which does not have to wait for the peer. -/
namespace Liano.Xen

open List hiding cons head min

open Lib Bytes

variable {s s' : XenStore} {reqBase rspBase : Nat} {sent : Bytes} {messages rest : List XenstoreMessage}

/-- The guest does not have to wait: there is room for what it writes and there are data for what it reads. -/
structure XenStore.Served (s : XenStore) : Prop where
  room : ∀ data ∈ s.writing, s.submitted.length < s.consumed.length+data.length+xenstoreRingSize
  data : ∀ r ∈ s.reading, r.data.length < r.len → s.read.length < s.produced.length

instance (s : XenStore) : Decidable s.Served :=
  decidable_of_iff ((∀ data ∈ s.writing, s.submitted.length < s.consumed.length+data.length+xenstoreRingSize) ∧
    ∀ r ∈ s.reading, r.data.length < r.len → s.read.length < s.produced.length)
    ⟨fun h => ⟨h.1, h.2⟩, fun h => ⟨h.room, h.data⟩⟩

def Advances (s : XenStore) : Action → Prop
  | .guest _ _ => s.Served
  | _ => False

instance (s : XenStore) : (a : Action) → Decidable (Advances s a)
  | .guest _ _ => inferInstanceAs (Decidable s.Served)
  | .talkv _ _ _ | .processMessage _ | .watches _ _ | .peerConsume _ | .peerProduce _ => .isFalse id

/-- The loops only leave their head while something is left, and find at least one byte. -/
def LeftHead (left : Nat) : Phase → Prop
  | .head => True
  | .loaded _ => 0 < left
  | .copying _ available _ => 0 < available

structure Busy (s : XenStore) : Prop where
  writing : ∀ data ∈ s.writing, LeftHead data.length s.phase
  reading : ∀ r ∈ s.reading, LeftHead (r.len-r.data.length) s.phase
  /-- XenStoreReadReply only reads on while there is no reply. -/
  replies : s.talking = true → s.reading ≠ none → s.replyList = []

def writePhase (s : XenStore) (left : Nat) : Phase → Nat
  | .head => 5*left + if idxSub s.shared.reqProd s.shared.reqCons = xenstoreRingSize then 4 else 3
  | .loaded cons => 5*left + if idxSub s.shared.reqProd cons = xenstoreRingSize then 4 else 2
  | .copying _ _ copied => 5*left+1-copied.length

def writeWork (s : XenStore) : Nat :=
  s.writing.elim 0 (fun data => writePhase s data.length s.phase) +
    (s.pending.map fun buffer => 5*buffer.length+5).sum

def readPhase (s : XenStore) (left : Nat) : Phase → Nat
  | .head => 5*left+3
  | .loaded cons => 5*left + if cons = s.shared.rspProd then 3 else 2
  | .copying _ _ copied => 5*left+1-copied.length

def readWork (messages : List XenstoreMessage) (s : XenStore) : Nat :=
  let left := (stream messages).length-s.read.length
  let messagesLeft := messages.length-s.processed.length
  match s.reading with
  | none => 10*messagesLeft+5*left
  | some r => 10*(messagesLeft-1) + (if r.header = none then 5 else 1) + readPhase s left s.phase

def work (messages : List XenstoreMessage) (s : XenStore) : Nat := writeWork s + readWork messages s

/-- A step of XenStoreTalkv before its reply: nothing is lost, and less is left unless it has to wait. -/
structure Works (messages : List XenstoreMessage) (s s' : XenStore) : Prop where
  busy : Busy s'
  talking : s'.talking = s.talking
  delivered : s'.delivered = s.delivered
  le : work messages s' ≤ work messages s
  lt : s.Served → work messages s' < work messages s

theorem Busy.initial {req rsp : Nat → UInt8} {reqIdx rspIdx : Nat} {watches : List Nat} :
    Busy (.initial req rsp reqIdx rspIdx watches) where
  writing := by simp [XenStore.initial]
  reading := by simp [XenStore.initial]
  replies := by simp [XenStore.initial]

section Writing

variable {data : Bytes} (h : Streams reqBase rspBase sent s) (hw : s.writing = some data)
include h hw

theorem Streams.not_full (hserved : s.Served) : idxSub s.shared.reqProd s.shared.reqCons ≠ xenstoreRingSize := by
  have hroom := hserved.room data hw
  have hsubmitted := congrArg length h.submitted
  rw [hw, Option.getD_some, length_append] at hsubmitted
  have hle := h.req.length_le
  rw [idxSub_carries h.req]
  omega

theorem Streams.chunk_pos (hb : Busy s) {cons : Nat} (hp : s.phase = .loaded cons)
    (hfull : idxSub s.shared.reqProd cons ≠ xenstoreRingSize) :
    0 < min (xenStoreGetOutputChunk cons s.shared.reqProd).2 data.length := by
  have hdata : 0 < data.length := by
    have hleft := hb.writing data hw
    rwa [hp] at hleft
  have hat := (h.writingAt hw).2
  rw [hp] at hat
  obtain ⟨c,hcons,hc,hroom⟩ := hat
  have hle := h.req.length_le
  have hprod := h.req.prod_eq
  obtain ⟨-,-,-,hpos⟩ := outputChunk_spec
    (Nat.add_le_add_left (hc.trans hle) reqBase) (by omega : reqBase+sent.length ≤ reqBase+c+xenstoreRingSize)
  rw [hprod, hcons, idxSub_ring (by omega) (by omega)] at hfull
  rw [← hprod, ← hcons] at hpos
  have := hpos (by omega)
  omega

/-- Where a step of XenStoreWriteStore leaves the loop, and what it has done. -/
theorem Streams.writeWork_writeStore (hb : Busy s) :
    Busy (s.writeStore data) ∧ writeWork (s.writeStore data) ≤ writeWork s ∧
      (s.Served → writeWork (s.writeStore data) < writeWork s) := by
  have hr := (h.writingAt hw).1
  have hwork : writeWork s = writePhase s data.length s.phase +
      (s.pending.map fun buffer => 5*buffer.length+5).sum := by rw [writeWork, hw]; rfl
  rw [hwork]
  cases hp : s.phase with
  | head =>
    simp only [XenStore.writeStore, hp]
    split
    · refine ⟨⟨by simp, by simp [hr], hb.replies⟩, ?_, ?_⟩
      all_goals
        simp only [writeWork, writePhase, Option.elim_none]
        split <;> omega
    · rename_i hne
      have hpos := length_pos_iff.mpr hne
      refine ⟨⟨?_, by simp [hr], hb.replies⟩, ?_, ?_⟩
      · simp only [hw, Option.mem_def, Option.some.injEq]
        rintro _ rfl
        exact hpos
      · simp only [writeWork, hw, writePhase, Option.elim_some]
        split <;> omega
      · intro hserved
        simp only [writeWork, hw, writePhase, Option.elim_some, if_neg (h.not_full hw hserved)]
        omega
  | loaded cons =>
    simp only [XenStore.writeStore, hp]
    split
    · rename_i hfull
      refine ⟨⟨by simp [LeftHead], by simp [hr], hb.replies⟩, ?_, ?_⟩
      · simp only [writeWork, hw, writePhase, Option.elim_some, if_pos hfull]
        split <;> omega
      · intro hserved
        simp only [writeWork, hw, writePhase, Option.elim_some, if_pos hfull,
          if_neg (h.not_full hw hserved)]
        omega
    · rename_i hfull
      have hpos := h.chunk_pos hw hb hp hfull
      rw [if_pos (h.checkIndexes_req hw hp)]
      refine ⟨⟨?_, by simp [hr], hb.replies⟩, ?_, ?_⟩
      · simp only [hw, Option.mem_def, Option.some.injEq]
        rintro _ rfl
        exact hpos
      all_goals
        simp only [writeWork, hw, writePhase, Option.elim_some, if_neg hfull, length_nil]
        omega
  | copying place available copied =>
    have hat := (h.writingAt hw).2
    rw [hp] at hat
    obtain ⟨-,hlinear,-,hcopied,havail,-⟩ := hat
    have hpos : 0 < available := by
      have hleft := hb.writing data hw
      rwa [hp] at hleft
    simp only [XenStore.writeStore, hp]
    split
    · rw [if_pos (by omega)]
      refine ⟨⟨?_, by simp [hr], hb.replies⟩, ?_, ?_⟩
      · simpa [LeftHead] using fun _ _ => hpos
      all_goals
        simp only [writeWork, hw, writePhase, Option.elim_some, length_append, length_singleton]
        omega
    · refine ⟨⟨by simp [LeftHead], by simp [hr], hb.replies⟩, ?_, ?_⟩
      all_goals
        simp only [writeWork, writePhase, Option.elim_some, length_drop]
        split <;> omega

theorem Streams.writeStore_works (hb : Busy s) : Works messages s (s.writeStore data) := by
  obtain ⟨hbusy,hle,hlt⟩ := h.writeWork_writeStore hw hb
  obtain ⟨shared,writing,phase,heq⟩ := h.writeStore_frame hw
  have hread : readWork messages (s.writeStore data) = readWork messages s := by
    simp only [heq, readWork, (h.writingAt hw).1]
  refine ⟨hbusy, by rw [heq], by rw [heq], ?_, ?_⟩
  · rw [work, work, hread]
    omega
  · intro hserved
    have := hlt hserved
    rw [work, work, hread]
    omega

end Writing

section Reading

variable (h : Streams reqBase rspBase sent s) (hm : Messages messages rest s)
include h

theorem Streams.empty_iff : s.shared.rspCons = s.shared.rspProd ↔ s.read.length = s.produced.length := by
  have hle := h.rsp.length_le
  have hroom := h.rsp.room
  have hwidth : xenstoreRingSize < idxWidth := by decide
  rw [h.rsp.cons_eq, h.rsp.prod_eq, eq_comm, Ring.register_eq_iff (by omega) (by omega)]
  omega

include hm

theorem Streams.read_le : s.read.length ≤ s.produced.length ∧ s.produced.length ≤ (stream messages).length :=
  ⟨h.rsp.length_le, hm.produced.length_le⟩

variable {r : Reading} (hb : Busy s) (hw : s.writing = none) (hr : s.reading = some r)
include hb hw hr

omit hm in
theorem Streams.input_pos {cons : Nat} (hp : s.phase = .loaded cons) (hdata : cons ≠ s.shared.rspProd) :
    0 < min (xenStoreGetInputChunk cons s.shared.rspProd).2 (r.len-r.data.length) := by
  have hleft := hb.reading r hr
  have hat := (h.readingAt hw hr).1
  rw [hp] at hleft hat
  subst hat
  have hle := h.rsp.length_le
  have hroom := h.rsp.room
  have hne := mt h.empty_iff.mpr hdata
  obtain ⟨-,-,-,hpos⟩ := inputChunk_spec (Nat.add_le_add_left hle rspBase)
    (by omega : rspBase+s.produced.length ≤ rspBase+s.read.length+xenstoreRingSize)
  rw [← h.rsp.prod_eq, ← h.rsp.cons_eq] at hpos
  have := hpos (by omega)
  simp only [LeftHead] at hleft
  omega

theorem Streams.bufferRead_works (hwell : ∀ m ∈ messages, m.WellFormed)
    (hacc : ∀ m ∈ messages, m.Acceptable) (hp : s.phase = .head) (hlen : r.data.length = r.len)
    (data : Nat) : Works messages s (s.bufferRead true data r) := by
  cases hhdr : r.header with
  | none =>
    simp only [XenStore.bufferRead, hhdr]
    refine ⟨⟨by simp [hw], by simp [hp, LeftHead], ?_⟩, rfl, rfl, ?_, ?_⟩
    · intro ht _
      exact hb.replies ht (by simp [hr])
    all_goals
      simp only [work, writeWork, readWork, hw, hr, hp, hhdr, readPhase]
      simp
  | some header =>
    obtain ⟨m,ms,rfl,hmem,hsize,hmsg⟩ := hm.message_read h.rsp.received_prefix hwell hr hhdr hlen
    have hleft : messages.length = s.processed.length + (ms.length+1) := by
      rw [hm.split, length_append, length_cons]
    simp only [XenStore.bufferRead, hhdr, hsize, if_true]
    rw [hmsg]
    simp only [XenStore.messageRead]
    split
    · rename_i htype
      simp only [getElem?_eq_getElem ((hacc m hmem).token htype)]
      refine ⟨⟨by simp [hw], by simp, by simp⟩, rfl, rfl, ?_, ?_⟩
      all_goals
        simp only [work, writeWork, readWork, hw, hr, hp, hhdr, readPhase, length_append, length_singleton]
        simp
        omega
    · refine ⟨⟨by simp [hw], by simp, by simp⟩, rfl, rfl, ?_, ?_⟩
      all_goals
        simp only [work, writeWork, readWork, hw, hr, hp, hhdr, readPhase, length_append, length_singleton]
        simp
        omega

theorem Streams.readStore_works (hwell : ∀ m ∈ messages, m.WellFormed)
    (hacc : ∀ m ∈ messages, m.Acceptable) (data : Nat) : Works messages s (s.readStore true data r) := by
  obtain ⟨hat,hpend⟩ := h.readingAt hw hr
  obtain ⟨hle,hle'⟩ := h.read_le hm
  have hdata := (hm.reading r hr).1
  have hreplies := hb.replies
  cases hp : s.phase with
  | head =>
    simp only [XenStore.readStore, hp]
    split
    · rename_i hlen
      exact h.bufferRead_works hm hb hw hr hwell hacc hp hlen data
    · refine ⟨⟨by simp [hw], ?_, hreplies⟩, rfl, rfl, ?_, ?_⟩
      · simp only [hr, Option.mem_def, Option.some.injEq, LeftHead]
        rintro _ rfl
        omega
      · simp only [work, writeWork, readWork, hw, hr, hp, readPhase, Option.elim_none]
        split <;> split <;> omega
      · intro hserved
        have hsome := hserved.data r hr (by omega)
        have hne : s.shared.rspCons ≠ s.shared.rspProd := fun heq => by
          have := h.empty_iff.mp heq
          omega
        simp only [work, writeWork, readWork, hw, hr, hp, readPhase, if_neg hne]
        simp
  | loaded cons =>
    have hcons := hat
    rw [hp] at hcons
    simp only [ReadingAt] at hcons
    simp only [XenStore.readStore, hp]
    split
    · rename_i hempty
      refine ⟨⟨by simp [hw], by simp [LeftHead], hreplies⟩, rfl, rfl, ?_, ?_⟩
      · simp only [work, writeWork, readWork, hw, hr, hp, readPhase, if_pos hempty]
        simp
      · intro hserved
        have hloaded := hb.reading r hr
        rw [hp] at hloaded
        simp only [LeftHead] at hloaded
        have hsome := hserved.data r hr (by omega)
        have := h.empty_iff.mp (hcons ▸ hempty)
        omega
    · rename_i hne
      have hpos := h.input_pos hb hw hr hp hne
      rw [if_pos (by rw [hcons]; exact h.checkIndexes_rsp)]
      refine ⟨⟨by simp [hw], ?_, hreplies⟩, rfl, rfl, ?_, ?_⟩
      · simp only [hr, Option.mem_def, Option.some.injEq, LeftHead]
        rintro _ rfl
        exact hpos
      all_goals
        simp only [work, writeWork, readWork, hw, hr, hp, readPhase, if_neg hne, length_nil]
        simp
  | copying place available copied =>
    rw [hp] at hat
    obtain ⟨-,hlinear,hfilled,hcopied,havail,-⟩ := hat
    have hsize := (hm.reading r hr).2.1
    have hpos := hb.reading r hr
    rw [hp] at hpos
    simp only [LeftHead] at hpos
    simp only [XenStore.readStore, hp]
    split
    · rw [if_pos (by omega), if_pos (by omega)]
      refine ⟨⟨by simp [hw], ?_, hreplies⟩, rfl, rfl, ?_, ?_⟩
      · simpa [LeftHead] using fun _ _ => hpos
      all_goals
        simp only [work, writeWork, readWork, hw, hr, hp, readPhase, length_append, length_singleton]
        simp
        omega
    · refine ⟨⟨by simp [hw], by simp [LeftHead], fun ht _ => hreplies ht (by simp [hr])⟩, rfl, rfl, ?_, ?_⟩
      all_goals
        simp only [work, writeWork, readWork, hw, hr, hp, readPhase, length_append]
        simp
        omega

end Reading

section Steps

variable (h : Streams reqBase rspBase sent s) (hb : Busy s)
include h hb

theorem Streams.peerConsume_works {n : Nat} (hn : n ≤ idxSub s.shared.reqProd s.shared.reqCons) :
    Busy (s.peerConsume n) ∧ work messages (s.peerConsume n) ≤ work messages s := by
  refine ⟨⟨hb.writing, hb.reading, hb.replies⟩, Nat.add_le_add (Nat.add_le_add_right ?_ _) ?_⟩
  · cases hw : s.writing with
    | none => simp [XenStore.peerConsume, hw]
    | some data =>
      cases hp : s.phase with
      | head =>
        have hless : idxSub (s.peerConsume n).shared.reqProd (s.peerConsume n).shared.reqCons ≤
            idxSub s.shared.reqProd s.shared.reqCons := by
          rw [idxSub_carries (h.peerConsume hn).req, idxSub_carries h.req]
          simp only [XenStore.peerConsume, length_append]
          omega
        have hroom := h.req.room
        have hcarries := idxSub_carries h.req
        simp only [XenStore.peerConsume] at hless
        simp only [XenStore.peerConsume, hw, hp, Option.elim_some, writePhase]
        split <;> split <;> omega
      | _ => simp [XenStore.peerConsume, hw, hp, writePhase]
  · cases hr : s.reading with
    | none => simp [XenStore.peerConsume, readWork, hr]
    | some r =>
      cases hp : s.phase <;> simp [XenStore.peerConsume, readWork, hr, hp, readPhase]

theorem Streams.peerProduce_works {b : Bytes}
    (hroom : idxSub s.shared.rspProd s.shared.rspCons + b.length ≤ xenstoreRingSize) :
    Busy (s.peerProduce b) ∧ work messages (s.peerProduce b) ≤ work messages s := by
  refine ⟨⟨hb.writing, hb.reading, hb.replies⟩, Nat.add_le_add (Nat.add_le_add_right ?_ _) ?_⟩
  · cases hw : s.writing with
    | none => simp [XenStore.peerProduce, hw]
    | some data =>
      cases hp : s.phase <;> simp [XenStore.peerProduce, hw, hp, writePhase]
  · cases hr : s.reading with
    | none => simp [XenStore.peerProduce, readWork, hr]
    | some r =>
      cases hp : s.phase with
      | head => simp [XenStore.peerProduce, readWork, hr, hp, readPhase]
      | loaded cons =>
        have hw : s.writing = none := by
          cases hw : s.writing with
          | none => rfl
          | some data => simpa [hr] using (h.writingAt hw).1
        have hcons := (h.readingAt hw hr).1
        rw [hp] at hcons
        simp only [ReadingAt] at hcons
        -- Data stay available while more are produced.
        have hkept : cons = (s.peerProduce b).shared.rspProd → cons = s.shared.rspProd := by
          intro heq
          have hempty := (h.peerProduce hroom).empty_iff.mp (hcons ▸ heq)
          have hle := h.rsp.length_le
          simp only [XenStore.peerProduce, length_append] at hempty
          exact hcons ▸ h.empty_iff.mpr (by omega)
        have hphase : (if cons = (s.peerProduce b).shared.rspProd then 3 else 2) ≤
            if cons = s.shared.rspProd then 3 else 2 := by
          split
          · rename_i heq
            rw [if_pos (hkept heq)]
          · split <;> omega
        simp only [readWork, XenStore.peerProduce, hr, hp, readPhase]
        exact Nat.add_le_add_left (Nat.add_le_add_left hphase _) _
      | copying place available copied => simp [XenStore.peerProduce, readWork, hr, hp, readPhase]

section
variable (hm : Messages messages rest s) (hwell : ∀ m ∈ messages, m.WellFormed)
  (hacc : ∀ m ∈ messages, m.Acceptable)
include hm hwell hacc

theorem Streams.guest_busy (data : Nat) : Busy (s.guest true data) := by
  cases hw : s.writing with
  | some buffer =>
    simp only [XenStore.guest, hw]
    exact (h.writeWork_writeStore hw hb).1
  | none =>
    cases hpend : s.pending with
    | cons buffer buffers =>
      have hr := h.reading_none hw hpend
      simp only [XenStore.guest, hw, hpend]
      exact ⟨by simp [h.phase_head hw hr, LeftHead], by simp [hr], hb.replies⟩
    | nil =>
      cases hr : s.reading with
      | some r =>
        simp only [XenStore.guest, hw, hpend, hr]
        exact (h.readStore_works hm hb hw hr hwell hacc data).busy
      | none =>
        have hp := h.phase_head hw hr
        simp only [XenStore.guest, hw, hpend, hr]
        split
        · cases hlist : s.replyList with
          | nil =>
            simp only [XenStore.readReply, hlist, XenStore.processMessage, if_true]
            exact ⟨by simp [hw], by simp [hp, LeftHead], fun _ _ => rfl⟩
          | cons m ms =>
            simp only [XenStore.readReply, hlist]
            exact ⟨by simp [hw], by simp [hr], by simp⟩
        · exact hb

/-- While XenStoreTalkv waits for a reply that the peer sends, each step delivers it or works towards it. -/
theorem Streams.guest_works (htalk : s.talking = true)
    (hreply : s.delivered.length < (messages.filter XenstoreMessage.isReply).length) (data : Nat) :
    s.delivered.length < (s.guest true data).delivered.length ∨ Works messages s (s.guest true data) := by
  -- With no reply in the list the one to come is among the messages left.
  have hleft : s.replyList = [] → s.processed.length < messages.length := by
    intro hnone
    have hlen := congrArg length hm.split
    cases rest with
    | nil =>
      have hreplies := hm.replies
      have hall : messages = s.processed := by simpa using hm.split
      rw [hnone, append_nil, ← hall] at hreplies
      rw [hreplies] at hreply
      exact absurd hreply (lt_irrefl _)
    | cons m ms =>
      simp only [length_append, length_cons] at hlen
      omega
  cases hw : s.writing with
  | some buffer =>
    right
    simp only [XenStore.guest, hw]
    exact h.writeStore_works hw hb
  | none =>
    cases hpend : s.pending with
    | cons buffer buffers =>
      have hr := h.reading_none hw hpend
      have hp := h.phase_head hw hr
      right
      simp only [XenStore.guest, hw, hpend]
      refine ⟨⟨by simp [hp, LeftHead], by simp [hr], hb.replies⟩, rfl, rfl, ?_, ?_⟩
      all_goals
        simp only [work, writeWork, readWork, hw, hr, hp, hpend, writePhase, Option.elim_some, Option.elim_none,
          map_cons, sum_cons]
        split <;> omega
    | nil =>
      cases hr : s.reading with
      | some r =>
        right
        simp only [XenStore.guest, hw, hpend, hr]
        exact h.readStore_works hm hb hw hr hwell hacc data
      | none =>
        have hp := h.phase_head hw hr
        simp only [XenStore.guest, hw, hpend, hr, htalk, if_true]
        cases hlist : s.replyList with
        | cons m ms =>
          left
          simp [XenStore.readReply, hlist]
        | nil =>
          right
          have hone := Nat.sub_pos_of_lt (hleft hlist)
          simp only [XenStore.readReply, hlist, XenStore.processMessage, if_true]
          refine ⟨⟨by simp [hw], by simp [hp, LeftHead], fun _ _ => rfl⟩, rfl, rfl, ?_, ?_⟩
          all_goals
            simp only [work, writeWork, readWork, hw, hr, hp, readPhase]
            simp
            omega

theorem Busy.step {a : Action} (hsends : Sends messages s a) (hs : step s a = some s') : Busy s' := by
  cases stepped hs with
  | talkv hidle =>
    obtain ⟨hw,-,hr,-⟩ := hidle
    exact ⟨by simp [XenStore.talkv, hw], by simp [XenStore.talkv, hr], by simp [XenStore.talkv, hr]⟩
  | processMessage hidle =>
    obtain ⟨hw,-,hr,htalk⟩ := hidle
    have halloc : _ = true := hsends
    subst halloc
    simp only [XenStore.processMessage, if_true]
    exact ⟨by simp [hw], by simp [h.phase_head hw hr, LeftHead], by simp [htalk]⟩
  | guest _ =>
    have halloc : _ = true := hsends
    subst halloc
    exact h.guest_busy hb hm hwell hacc _
  | _ => exact ⟨hb.writing, hb.reading, hb.replies⟩

end

end Steps

/-- What holds of every state that the guest and a peer with these messages reach. -/
structure Delivering (reqBase rspBase : Nat) (messages : List XenstoreMessage) (s : XenStore) : Prop where
  streams : ∃ sent, Streams reqBase rspBase sent s
  messages : ∃ rest, Messages messages rest s
  busy : Busy s

section Runs

variable (hwell : ∀ m ∈ messages, m.WellFormed) (hacc : ∀ m ∈ messages, m.Acceptable)
include hwell hacc

theorem Delivering.step (h : Delivering reqBase rspBase messages s) {a : Action} (hsends : Sends messages s a)
    (hs : step s a = some s') : Delivering reqBase rspBase messages s' := by
  obtain ⟨⟨sent,hstreams⟩,⟨rest,hm⟩,hb⟩ := h
  exact ⟨hstreams.step hs, hm.step hstreams hwell hacc hsends hs, hb.step hstreams hm hwell hacc hsends hs⟩

theorem delivering_of_reaches {s₀ : XenStore} (h₀ : Delivering reqBase rspBase messages s₀)
    (h : Run.Reaches step (Sends messages) s₀ s) : Delivering reqBase rspBase messages s :=
  h.invariant h₀ fun _ _ _ hi hsends hs => hi.step hwell hacc hsends hs

/-- One step while XenStoreTalkv waits: the reply is delivered or the rank says how far it is. -/
theorem Delivering.step_works (h : Delivering reqBase rspBase messages s) (htalk : s.talking = true)
    (hreply : s.delivered.length < (messages.filter XenstoreMessage.isReply).length) {a : Action}
    (hsends : Sends messages s a) (hs : Xen.step s a = some s') :
    s.delivered.length < s'.delivered.length ∨
      (s'.talking = true ∧ s'.delivered.length = s.delivered.length) ∧ work messages s' ≤ work messages s ∧
        (Advances s a → work messages s' < work messages s) := by
  obtain ⟨⟨sent,hstreams⟩,⟨rest,hm⟩,hb⟩ := h
  cases stepped hs with
  | guest _ =>
    have halloc : _ = true := hsends
    subst halloc
    obtain hdone | hworks := hstreams.guest_works hb hm hwell hacc htalk hreply _
    · exact .inl hdone
    · exact .inr ⟨⟨hworks.talking.trans htalk, congrArg length hworks.delivered⟩, hworks.le, hworks.lt⟩
  | peerConsume hn => exact .inr ⟨⟨htalk, rfl⟩, (hstreams.peerConsume_works hb hn).2, False.elim⟩
  | peerProduce hroom => exact .inr ⟨⟨htalk, rfl⟩, (hstreams.peerProduce_works hb hroom).2, False.elim⟩
  -- the other steps are those of an idle guest
  | _ => exact absurd htalk (by simp [(‹s.Idle› : s.Idle).2.2.2])

end Runs

@[simp] theorem delivered_failed : s.failed.delivered = s.delivered := rfl

@[simp] theorem delivered_writeStore (data : Bytes) : (s.writeStore data).delivered = s.delivered := by
  unfold XenStore.writeStore
  split
  · split <;> rfl
  · split
    · rfl
    · split <;> rfl
  · split
    · split <;> rfl
    · rfl

section
variable (allocated : Bool) (data : Nat)

@[simp] theorem delivered_messageRead (message : XenstoreMessage) :
    (s.messageRead allocated data message).delivered = s.delivered := by
  unfold XenStore.messageRead
  split
  · split <;> rfl
  · rfl

@[simp] theorem delivered_bufferRead (r : Reading) :
    (s.bufferRead allocated data r).delivered = s.delivered := by
  unfold XenStore.bufferRead
  split
  · rfl
  · split
    · exact delivered_messageRead _ _ _
    · rfl

@[simp] theorem delivered_readStore (r : Reading) :
    (s.readStore allocated data r).delivered = s.delivered := by
  unfold XenStore.readStore
  split
  · split
    · exact delivered_bufferRead _ _ _
    · rfl
  · split
    · rfl
    · split <;> rfl
  · split
    · split
      · split <;> rfl
      · rfl
    · rfl

theorem delivered_guest : s.delivered <+: (s.guest allocated data).delivered := by
  unfold XenStore.guest
  split
  · simp
  · exact prefix_refl _
  · simp
  · split
    · unfold XenStore.readReply
      split
      · unfold XenStore.processMessage
        split <;> exact prefix_refl _
      · exact prefix_append _ _
    · exact prefix_refl _

end

/-- What has been delivered stays delivered. -/
theorem delivered_step {a : Action} (hs : step s a = some s') : s.delivered <+: s'.delivered := by
  cases stepped hs with
  | processMessage _ =>
    unfold XenStore.processMessage
    split <;> exact prefix_refl _
  | guest _ => exact delivered_guest _ _
  | _ => exact prefix_refl _

/-- Neither side can keep a reply from XenStoreTalkv: the guest can always go on, and however the peer's steps
come in between, a bounded number of steps that need not wait for it delivers the next reply that it sends. -/
structure RepliesArrive (messages : List XenstoreMessage) (s : XenStore) : Prop where
  enabled : ∀ allocated data, (step s (.guest allocated data)).isSome
  arrives : s.talking = true → s.delivered.length < (messages.filter XenstoreMessage.isReply).length →
    ∃ n, ∀ actions s', Run.run step s actions = some s' → Run.Along step (Sends messages) s actions →
      n < Run.count step Advances s actions → s.delivered.length < s'.delivered.length

theorem Delivering.repliesArrive (hwell : ∀ m ∈ messages, m.WellFormed) (hacc : ∀ m ∈ messages, m.Acceptable)
    (h : Delivering reqBase rspBase messages s) : RepliesArrive messages s where
  enabled := by
    obtain ⟨⟨sent,hstreams⟩,⟨rest,hm⟩,-⟩ := h
    simp [Xen.step, hstreams.ringFault, hm.memoryFault]
  arrives := by
    intro htalk hreply
    refine ⟨work messages s, fun actions s' hrun halong hcount => ?_⟩
    refine Run.goal_of_count (I := fun t => Delivering reqBase rspBase messages t ∧ t.talking = true ∧
      t.delivered.length = s.delivered.length) (G := fun t => s.delivered.length < t.delivered.length)
      ?_ ?_ ⟨h, htalk, rfl⟩ hrun halong hcount
    · intro t a t' hlt hs
      exact hlt.trans_le (delivered_step hs).length_le
    · rintro t a t' ⟨hi,ht,heq⟩ hsends hs
      obtain hdone | ⟨⟨ht',heq'⟩,hle,hlt⟩ := hi.step_works hwell hacc ht (heq ▸ hreply) hsends hs
      · exact .inl (heq ▸ hdone)
      · exact .inr ⟨⟨hi.step hwell hacc hsends hs, ht', heq'.trans heq⟩, hle, hlt⟩

structure ReliableStreams (s : XenStore) : Prop where
  consumed_prefix : s.consumed <+: s.submitted
  read_prefix : s.read <+: s.produced
  /-- What is in the request ring and what is left to write follow what the peer has consumed. -/
  requests : s.consumed ++ Ring.window xenstoreRingSize s.shared.req s.shared.reqCons
    (idxSub s.shared.reqProd s.shared.reqCons) ++ s.writing.getD [] = s.submitted
  /-- What is in the response ring follows what the guest has read. -/
  responses : s.read ++ Ring.window xenstoreRingSize s.shared.rsp s.shared.rspCons
    (idxSub s.shared.rspProd s.shared.rspCons) = s.produced
  ringFault : s.ringFault = false

/-- The responses are split into the messages sent, and each reply is delivered once and in order. -/
structure MessagesDelivered (messages : List XenstoreMessage) (s : XenStore) : Prop where
  processed : s.processed <+: messages
  read : s.read = stream s.processed ++ messagePart s.reading
  /-- Once all is read, all is processed. -/
  complete : s.read = stream messages → s.reading = none → s.processed = messages
  replies : s.delivered ++ s.replyList = s.processed.filter XenstoreMessage.isReply
  results : s.results = s.delivered.map xenStoreTalkvResult
  memoryFault : s.memoryFault = false

theorem Streams.reliable (h : Streams reqBase rspBase sent s) : ReliableStreams s where
  consumed_prefix := by
    rw [h.submitted]
    exact h.req.received_prefix.trans (prefix_append _ _)
  read_prefix := h.rsp.received_prefix
  requests := by
    rw [← conserved_idxSub h.req]
    exact h.submitted.symm
  responses := (conserved_idxSub h.rsp).symm
  ringFault := h.ringFault

theorem Messages.delivered (h : Messages messages rest s) : MessagesDelivered messages s where
  processed := ⟨rest, h.split.symm⟩
  read := h.read
  complete := by
    intro hread hr
    have hrest : stream rest = [] := by
      have heq : stream s.processed ++ stream rest = stream s.processed ++ messagePart s.reading := by
        rw [← h.read, hread]
        simp only [h.split, stream, flatMap_append]
      rw [append_cancel_left heq, hr]
      rfl
    cases rest with
    | nil => simpa using h.split.symm
    | cons m ms =>
      have hlen := congrArg length hrest
      simp [stream, XenstoreMessage.bytes, XsdSockmsg.size] at hlen
  replies := h.replies
  results := h.results
  memoryFault := h.memoryFault

theorem streams_of_reaches {P : XenStore → Action → Prop} {s₀ : XenStore}
    (h₀ : Streams reqBase rspBase [] s₀) (h : Run.Reaches step P s₀ s) :
    ∃ sent, Streams reqBase rspBase sent s :=
  h.invariant (I := fun s => ∃ sent, Streams reqBase rspBase sent s) ⟨[], h₀⟩
    fun _ _ _ ⟨_, hi⟩ _ hs => hi.step hs

/-- In every interleaving the rings are reliable byte streams, from any indices on; as long as memory is
allocated and the messages of the peer are acceptable, they are processed one by one, and each reply arrives. -/
theorem xenStore_reliable (req rsp : Nat → UInt8) (reqIdx rspIdx : Nat) (watches : List Nat)
    (hreq : reqIdx < idxWidth) (hrsp : rspIdx < idxWidth) (s : XenStore)
    (h : Run.Reaches step (fun _ _ => True) (.initial req rsp reqIdx rspIdx watches) s) :
    ReliableStreams s ∧ ∀ messages : List XenstoreMessage, (∀ m ∈ messages, m.WellFormed) →
      (∀ m ∈ messages, m.Acceptable) →
      Run.Reaches step (Sends messages) (.initial req rsp reqIdx rspIdx watches) s →
      MessagesDelivered messages s ∧ RepliesArrive messages s := by
  obtain ⟨sent,hstreams⟩ := streams_of_reaches (Streams.initial hreq hrsp) h
  refine ⟨hstreams.reliable, ?_⟩
  intro messages hwell hacc hsends
  have hdelivering := delivering_of_reaches hwell hacc
    ⟨⟨[], Streams.initial hreq hrsp⟩, ⟨messages, .initial⟩, .initial⟩ hsends
  obtain ⟨rest,hmsgs⟩ := hdelivering.messages
  exact ⟨hmsgs.delivered, hdelivering.repliesArrive hwell hacc⟩

def nameReply : List XenstoreMessage := [⟨⟨2, 0, 0, 0⟩, []⟩]

/-- XenStoreTalkv is writing its request over the end of the ring when the reply to it is produced. -/
def replied : List Action :=
  [.talkv 0 2 []] ++ replicate 10 (.guest true 0) ++ [.peerProduce (stream nameReply)]

/-- A reply without a body is awaited, and read over the wrap-around of the indices. -/
theorem xenStore_reliable_wrapped :
    (∃ s, s.talking = true ∧ s.writing ≠ none ∧ s.delivered = [] ∧ ReliableStreams s ∧
      RepliesArrive nameReply s) ∧
    ∃ s, s.shared.reqProd = 11 ∧ s.shared.rspCons = 13 ∧ s.delivered = nameReply ∧ ReliableStreams s ∧
      MessagesDelivered nameReply s := by
  have hwell : ∀ m ∈ nameReply, m.WellFormed := by
    simp only [nameReply, mem_singleton]
    rintro m rfl
    exact ⟨by decide, by decide, by decide, by decide, rfl⟩
  have hacc : ∀ m ∈ nameReply, m.Acceptable := by
    simp only [nameReply, mem_singleton]
    rintro m rfl
    exact ⟨by decide, by decide⟩
  constructor
  · have hobserved : (Run.run step (.initial (fun _ => 0) (fun _ => 0) (2^32-5) (2^32-3) [])
        replied).map (fun s => (s.talking,s.writing.isSome,s.delivered)) = some (true, true, []) := by
      decide +kernel
    obtain ⟨s,hrun,hs⟩ := Option.map_eq_some_iff.mp hobserved
    simp only [Prod.mk.injEq] at hs
    have hreliable := xenStore_reliable (fun _ => 0) (fun _ => 0) (2^32-5) (2^32-3) [] (by decide) (by decide) s
      (Run.reaches_of_run hrun)
    refine ⟨s, hs.1, Option.isSome_iff_ne_none.mp hs.2.1, hs.2.2, hreliable.1, ?_⟩
    exact (hreliable.2 _ hwell hacc (Run.reaches_of_run_along hrun (by decide +kernel))).2
  · have hobserved : (Run.run step (.initial (fun _ => 0) (fun _ => 0) (2^32-5) (2^32-3) [])
        (replied ++ replicate 40 (.guest true 0))).map
          (fun s => (s.shared.reqProd,s.shared.rspCons,s.delivered)) = some (11, 13, nameReply) := by
      decide +kernel
    obtain ⟨s,hrun,hs⟩ := Option.map_eq_some_iff.mp hobserved
    simp only [Prod.mk.injEq] at hs
    have hreliable := xenStore_reliable (fun _ => 0) (fun _ => 0) (2^32-5) (2^32-3) [] (by decide) (by decide) s
      (Run.reaches_of_run hrun)
    exact ⟨s, hs.1, hs.2.1, hs.2.2, hreliable.1,
      (hreliable.2 _ hwell hacc (Run.reaches_of_run_along hrun (by decide +kernel))).1⟩

def watchWithoutToken : List XenstoreMessage := [⟨⟨15, 0, 0, 2⟩, [97, 0]⟩, ⟨⟨2, 0, 0, 0⟩, []⟩]

/-- The token is looked for behind the strings of the event, and the reply that follows it is never
delivered. -/
theorem xenStore_watch_without_token : (∀ m ∈ watchWithoutToken, m.WellFormed) ∧
    ∃ s, Run.Reaches step (Sends watchWithoutToken) (.initial (fun _ => 0) (fun _ => 0) 0 0 []) s ∧
      s.produced = stream watchWithoutToken ∧ s.delivered = [] ∧
      (∀ allocated data, step s (.guest allocated data) = none) ∧ ¬ MessagesDelivered watchWithoutToken s := by
  have hobserved : (Run.run step (.initial (fun _ => 0) (fun _ => 0) 0 0 [])
      ([.peerProduce (stream watchWithoutToken), .processMessage true] ++
        replicate 26 (.guest true 0))).map (fun s => (s.produced,s.delivered,s.memoryFault)) =
      some (stream watchWithoutToken, [], true) := by decide +kernel
  obtain ⟨s,hrun,hs⟩ := Option.map_eq_some_iff.mp hobserved
  simp only [Prod.mk.injEq] at hs
  obtain ⟨hproduced,hdelivered,hfault⟩ := hs
  refine ⟨?_, s, Run.reaches_of_run_along hrun ?_, hproduced, hdelivered, ?_, ?_⟩
  · simp only [watchWithoutToken, mem_cons, not_mem_nil, or_false]
    rintro m (rfl | rfl)
    · exact ⟨by decide, by decide, by decide, by decide, rfl⟩
    · exact ⟨by decide, by decide, by decide, by decide, rfl⟩
  · exact ⟨prefix_refl _, Run.along_of_forall (by simp [Sends]) _⟩
  · intro allocated data
    simp [step, hfault]
  · intro h
    exact absurd h.memoryFault (by simp [hfault])

end Liano.Xen
