import Liano.Xen.Streams

/-! The response stream is split into the messages that the peer sent, and each reply is delivered once and
in order, as long as memory is allocated for the messages and the messages are acceptable. -/
namespace Liano.Xen

open List

open Lib Bytes

variable {s s' : XenStore} {reqBase rspBase : Nat} {sent : Bytes} {messages rest : List XenstoreMessage}

/-- What XenStoreProcessMessage takes for granted: the pool for the body is as large as `len + 1`, and a watch
event has a path and a token. -/
structure XenstoreMessage.Acceptable (message : XenstoreMessage) : Prop where
  len_ne : message.header.len ≠ 2^32-1
  token : message.header.type = XS_WATCH_EVENT → XS_WATCH_TOKEN < (split message.body).length

def stream (messages : List XenstoreMessage) : Bytes := messages.flatMap XenstoreMessage.bytes

def Sends (messages : List XenstoreMessage) (s : XenStore) : Action → Prop
  | .processMessage allocated => allocated = true
  | .guest allocated _ => allocated = true
  | .peerProduce b => s.produced ++ b <+: stream messages
  | _ => True

instance (s : XenStore) : (a : Action) → Decidable (Sends messages s a)
  | .processMessage allocated | .guest allocated _ => inferInstanceAs (Decidable (allocated = true))
  | .peerProduce b => inferInstanceAs (Decidable (s.produced ++ b <+: stream messages))
  | .talkv _ _ _ | .watches _ _ | .peerConsume _ => .isTrue trivial

def messagePart : Option Reading → Bytes
  | none => []
  | some r => ((r.header.map XsdSockmsg.bytes).getD []) ++ r.data

/-- XenStoreProcessMessage is reading the first of the messages left. -/
def ReadingOf (rest : List XenstoreMessage) (r : Reading) : Prop :=
  r.data.length ≤ r.len ∧ r.len ≤ r.size ∧ match r.header with
    | none => r.len = XsdSockmsg.size
    | some header => header.len = r.len ∧ header.len < r.size ∧ ∃ m ms, rest = m :: ms ∧ m.header = header

structure Messages (messages rest : List XenstoreMessage) (s : XenStore) : Prop where
  split : messages = s.processed ++ rest
  read : s.read = stream s.processed ++ messagePart s.reading
  produced : s.produced <+: stream messages
  reading : ∀ r ∈ s.reading, ReadingOf rest r
  replies : s.delivered ++ s.replyList = s.processed.filter XenstoreMessage.isReply
  results : s.results = s.delivered.map xenStoreTalkvResult
  memoryFault : s.memoryFault = false

theorem Messages.initial {req rsp : Nat → UInt8} {reqIdx rspIdx : Nat} {watches : List Nat} :
    Messages messages messages (.initial req rsp reqIdx rspIdx watches) where
  split := rfl
  read := rfl
  produced := nil_prefix
  reading := by simp [XenStore.initial]
  replies := rfl
  results := rfl
  memoryFault := rfl

theorem Streams.writeStore_frame (h : Streams reqBase rspBase sent s) {data : Bytes}
    (hw : s.writing = some data) : ∃ shared writing phase,
      s.writeStore data = { s with shared := shared, writing := writing, phase := phase } := by
  cases hp : s.phase with
  | head =>
    simp only [XenStore.writeStore, hp]
    split
    · exact ⟨s.shared, none, .head, by rw [← hp]⟩
    · exact ⟨s.shared, s.writing, _, rfl⟩
  | loaded cons =>
    simp only [XenStore.writeStore, hp]
    split
    · exact ⟨s.shared, s.writing, _, rfl⟩
    · rw [if_pos (h.checkIndexes_req hw hp)]
      exact ⟨s.shared, s.writing, _, rfl⟩
  | copying place available copied =>
    have hat := (h.writingAt hw).2
    rw [hp] at hat
    obtain ⟨-,hlinear,-⟩ := hat
    simp only [XenStore.writeStore, hp]
    split
    · rw [if_pos (by omega)]
      exact ⟨_, s.writing, _, rfl⟩
    · exact ⟨_, _, _, rfl⟩

theorem Messages.part_prefix (h : Messages messages rest s) (hread : s.read <+: s.produced) :
    messagePart s.reading <+: stream rest := by
  have hall := hread.trans h.produced
  rw [h.read, h.split] at hall
  simp only [stream, flatMap_append] at hall
  exact (prefix_append_right_inj _).mp hall

theorem header_of_part {data : Bytes} (h : data <+: stream rest) (hlen : data.length = XsdSockmsg.size) :
    ∃ m ms, rest = m :: ms ∧ data = m.header.bytes := by
  cases rest with
  | nil =>
    have hnil : data = [] := prefix_nil.mp h
    simp [hnil, XsdSockmsg.size] at hlen
  | cons m ms =>
    refine ⟨m, ms, rfl, ?_⟩
    rw [stream, flatMap_cons, XenstoreMessage.bytes, append_assoc] at h
    have heq := prefix_iff_eq_take.mp h
    rwa [hlen, take_left' m.header.length_bytes] at heq

theorem body_of_part {m : XenstoreMessage} {data : Bytes} (hm : m.WellFormed)
    (h : m.header.bytes ++ data <+: stream (m :: rest)) (hlen : data.length = m.header.len) :
    data = m.body := by
  rw [stream, flatMap_cons, XenstoreMessage.bytes, append_assoc] at h
  have heq := prefix_iff_eq_take.mp ((prefix_append_right_inj _).mp h)
  rwa [hlen, take_left' hm.length_body] at heq

theorem Messages.messageRead {m : XenstoreMessage} (h : Messages messages (m :: rest) s)
    (hread : s.read = stream (s.processed ++ [m])) (hacc : m.Acceptable) (data : Nat) :
    Messages messages rest (s.messageRead true data m) := by
  have hsplit : messages = (s.processed ++ [m]) ++ rest := by
    rw [append_assoc]
    exact h.split
  have hstream : s.read = stream (s.processed ++ [m]) ++ messagePart none := by
    rw [hread]
    exact (append_nil _).symm
  simp only [XenStore.messageRead]
  split
  · rename_i htype
    have htoken := hacc.token htype
    simp only [getElem?_eq_getElem htoken]
    refine ⟨hsplit, hstream, h.produced, by simp, ?_, h.results, h.memoryFault⟩
    simpa [filter_append, XenstoreMessage.isReply, htype] using h.replies
  rename_i htype
  refine ⟨hsplit, hstream, h.produced, by simp, ?_, h.results, h.memoryFault⟩
  have hreply : m.isReply = true := by simp [XenstoreMessage.isReply, htype]
  rw [filter_append, ← h.replies, ← append_assoc]
  simp [hreply]

section
variable (h : Messages messages rest s)
include h

/-- The body that has been read is that of the first message left. -/
theorem Messages.message_read (hread : s.read <+: s.produced) (hwell : ∀ m ∈ messages, m.WellFormed)
    {r : Reading} (hr : s.reading = some r) {header : XsdSockmsg} (hhdr : r.header = some header)
    (hlen : r.data.length = r.len) :
    ∃ m ms, rest = m :: ms ∧ m ∈ messages ∧ header.len < r.size ∧ (⟨header, r.data⟩ : XenstoreMessage) = m := by
  have hpart := h.part_prefix hread
  obtain ⟨-,-,hat⟩ := h.reading r hr
  simp only [hhdr] at hat
  obtain ⟨hlen',hsize,m,ms,rfl,rfl⟩ := hat
  have hmem : m ∈ messages := by
    rw [h.split]
    simp
  simp only [hr, messagePart, hhdr, Option.map_some, Option.getD_some] at hpart
  have hdata := body_of_part (hwell m hmem) hpart (hlen.trans hlen'.symm)
  exact ⟨m, ms, rfl, hmem, hsize, by rw [hdata]⟩

theorem Messages.bufferRead (hread : s.read <+: s.produced)
    (hwell : ∀ m ∈ messages, m.WellFormed) (hacc : ∀ m ∈ messages, m.Acceptable) {r : Reading}
    (hr : s.reading = some r) (hlen : r.data.length = r.len) (data : Nat) :
    ∃ rest', Messages messages rest' (s.bufferRead true data r) := by
  have hpart := h.part_prefix hread
  obtain ⟨-,-,hat⟩ := h.reading r hr
  cases hhdr : r.header with
  | none =>
    simp only [hhdr] at hat
    simp only [hr, messagePart, hhdr, Option.map_none, Option.getD_none, nil_append] at hpart
    obtain ⟨m,ms,rfl,hdata⟩ := header_of_part hpart (hlen.trans hat)
    have hmem : m ∈ messages := by
      rw [h.split]
      simp
    have hof : XsdSockmsg.ofBytes r.data = m.header := by
      rw [hdata]
      exact XsdSockmsg.ofBytes_bytes (hwell m hmem)
    have hfits : toUint32 (m.header.len+1) = m.header.len+1 := by
      have hlt := (hwell m hmem).len_lt
      have hne := (hacc m hmem).len_ne
      exact Nat.mod_eq_of_lt (by omega)
    simp only [XenStore.bufferRead, hhdr, hof, if_true, hfits]
    refine ⟨m :: ms, h.split, ?_, h.produced, ?_, h.replies, h.results, h.memoryFault⟩
    · rw [h.read]
      simp [hr, messagePart, hhdr, hdata]
    · simp only [Option.mem_def, Option.some.injEq]
      rintro _ rfl
      exact ⟨Nat.zero_le _, Nat.le_succ _, rfl, Nat.lt_succ_self _, m, ms, rfl, rfl⟩
  | some header =>
    obtain ⟨m,ms,rfl,hmem,hsize,hmsg⟩ := h.message_read hread hwell hr hhdr hlen
    have hread' : s.read = stream (s.processed ++ [m]) := by
      rw [h.read, hr, ← hmsg]
      simp [messagePart, hhdr, stream, XenstoreMessage.bytes]
    simp only [XenStore.bufferRead, hhdr, hsize, if_true]
    rw [hmsg]
    exact ⟨ms, h.messageRead hread' (hacc m hmem) data⟩

theorem Messages.readStore (hstreams : Streams reqBase rspBase sent s)
    (hwell : ∀ m ∈ messages, m.WellFormed) (hacc : ∀ m ∈ messages, m.Acceptable)
    (hw : s.writing = none) {r : Reading} (hr : s.reading = some r) (data : Nat) :
    ∃ rest', Messages messages rest' (s.readStore true data r) := by
  obtain ⟨hle,hsize,hat⟩ := h.reading r hr
  cases hp : s.phase with
  | head =>
    simp only [XenStore.readStore, hp]
    split
    · rename_i hlen
      exact h.bufferRead hstreams.rsp.received_prefix hwell hacc hr hlen data
    · exact ⟨rest, h.split, h.read, h.produced, h.reading, h.replies, h.results, h.memoryFault⟩
  | loaded cons =>
    have hcons := (hstreams.readingAt hw hr).1
    rw [hp] at hcons
    subst hcons
    refine ⟨rest, ?_⟩
    simp only [XenStore.readStore, hp]
    split
    · exact ⟨h.split, h.read, h.produced, h.reading, h.replies, h.results, h.memoryFault⟩
    · rw [if_pos hstreams.checkIndexes_rsp]
      exact ⟨h.split, h.read, h.produced, h.reading, h.replies, h.results, h.memoryFault⟩
  | copying place available copied =>
    have hcopying := (hstreams.readingAt hw hr).1
    rw [hp] at hcopying
    obtain ⟨-,hlinear,-,hcopied,havail,-⟩ := hcopying
    refine ⟨rest, ?_⟩
    simp only [XenStore.readStore, hp]
    split
    · have hring : place+copied.length < xenstoreRingSize := by omega
      have hbuf : r.data.length+copied.length < r.size := by omega
      rw [if_pos hring, if_pos hbuf]
      exact ⟨h.split, h.read, h.produced, h.reading, h.replies, h.results, h.memoryFault⟩
    refine ⟨h.split, ?_, h.produced, ?_, h.replies, h.results, h.memoryFault⟩
    · rw [h.read]
      simp [hr, messagePart]
    · simp only [Option.mem_def, Option.some.injEq]
      rintro _ rfl
      refine ⟨?_, hsize, hat⟩
      simp only [length_append]
      omega

theorem Messages.processMessage (hr : s.reading = none) : Messages messages rest (s.processMessage true) := by
  simp only [XenStore.processMessage, if_true]
  refine ⟨h.split, ?_, h.produced, ?_, h.replies, h.results, h.memoryFault⟩
  · rw [h.read, hr]
    rfl
  · simp only [Option.mem_def, Option.some.injEq]
    rintro _ rfl
    exact ⟨Nat.zero_le _, le_rfl, rfl⟩

theorem Messages.readReply (hr : s.reading = none) : Messages messages rest (s.readReply true) := by
  cases hl : s.replyList with
  | nil =>
    simp only [XenStore.readReply, hl]
    exact h.processMessage hr
  | cons m ms =>
    simp only [XenStore.readReply, hl]
    refine ⟨h.split, h.read, h.produced, h.reading, ?_, ?_, h.memoryFault⟩
    · rw [← h.replies, hl]
      simp
    · rw [h.results]
      simp

section
variable (hstreams : Streams reqBase rspBase sent s) (hwell : ∀ m ∈ messages, m.WellFormed)
  (hacc : ∀ m ∈ messages, m.Acceptable)
include hstreams hwell hacc

theorem Messages.guest (data : Nat) : ∃ rest', Messages messages rest' (s.guest true data) := by
  cases hw : s.writing with
  | some buffer =>
    obtain ⟨shared,writing,phase,heq⟩ := hstreams.writeStore_frame hw
    simp only [XenStore.guest, hw, heq]
    exact ⟨rest, h.split, h.read, h.produced, h.reading, h.replies, h.results, h.memoryFault⟩
  | none =>
    cases hpend : s.pending with
    | cons buffer buffers =>
      simp only [XenStore.guest, hw, hpend]
      exact ⟨rest, h.split, h.read, h.produced, h.reading, h.replies, h.results, h.memoryFault⟩
    | nil =>
      cases hr : s.reading with
      | some r =>
        simp only [XenStore.guest, hw, hpend, hr]
        exact h.readStore hstreams hwell hacc hw hr data
      | none =>
        simp only [XenStore.guest, hw, hpend, hr]
        split
        · exact ⟨rest, h.readReply hr⟩
        · exact ⟨rest, h⟩

theorem Messages.step {a : Action}
    (hsends : Sends messages s a) (hs : step s a = some s') : ∃ rest', Messages messages rest' s' := by
  cases stepped hs with
  | processMessage hidle =>
    have halloc : _ = true := hsends
    subst halloc
    exact ⟨rest, h.processMessage hidle.2.2.1⟩
  | guest _ =>
    have halloc : _ = true := hsends
    subst halloc
    exact h.guest hstreams hwell hacc _
  | peerProduce _ => exact ⟨rest, h.split, h.read, hsends, h.reading, h.replies, h.results, h.memoryFault⟩
  | _ => exact ⟨rest, h.split, h.read, h.produced, h.reading, h.replies, h.results, h.memoryFault⟩

end

end

end Liano.Xen
