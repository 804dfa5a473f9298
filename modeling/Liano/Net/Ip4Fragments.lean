import Liano.Lib.FirstMatch
import Liano.Net.Ip4Reassemble

/-! The fragments of one datagram: as long as no fragment has to be trimmed at its tail, the entry
holds disjoint pieces of the payload, and what is delivered is the payload. -/
namespace Liano.Net

open List hiding max

open Memory Liano.Lib

def ip4Span (packet : Ip4Packet) : Span := ⟨packet.info.start, packet.info.stop⟩

structure IsPiece (m : Memory) (payload : Bytes) (packet : Ip4Packet) : Prop where
  nonempty : packet.info.start < packet.info.stop
  stop_le : packet.info.stop ≤ payload.length
  size : packet.info.stop < 2^16
  length : packet.info.length = packet.info.stop-packet.info.start
  wellFormed : packet.nbuf.WellFormed
  contents : contents m packet.nbuf = sliceOf payload (ip4Span packet)

section
variable {m : Memory} {payload : Bytes} {packet node : Ip4Packet} {start : Nat}

theorem IsPiece.totalSize (h : IsPiece m payload packet) :
    packet.nbuf.totalSize.toNat = packet.info.stop-packet.info.start := by
  rw [← h.wellFormed.length_contents m, h.contents, length_sliceOf h.stop_le]
  rfl

theorem ip4TrimPacket_head (h : IsPiece m payload packet) (hstart : packet.info.start < start)
    (hstop : start < packet.info.stop) :
    ∃ trimmed, ip4TrimPacket packet start packet.info.stop = .ok trimmed ∧
      trimmed.ip4 = packet.ip4 ∧ ip4Span trimmed = ⟨start, packet.info.stop⟩ ∧ IsPiece m payload trimmed := by
  have hsize := h.size
  have hlength := h.length
  have hlen : (UInt32.ofInt ((start : Int) - packet.info.start)).toNat = start-packet.info.start := by
    have hmod : (((start : Int) - packet.info.start) % 2^32).toNat = start-packet.info.start := by omega
    have hlt : start-packet.info.start < 2^32 := by omega
    rw [UInt32.ofInt, hmod, UInt32.toNat_ofNat_of_lt' hlt]
  obtain ⟨nbuf,trimmed,hrun,htrimmed,hw,hcont⟩ := netbufTrim_exact m h.wellFormed
    (UInt32.ofInt ((start : Int) - packet.info.start)) true
  rw [hlen, h.totalSize, min_eq_left (by omega)] at htrimmed
  rw [htrimmed, h.contents] at hcont
  refine ⟨{ packet with
    nbuf := nbuf
    info := { packet.info with
      start := start, length := packet.info.length - ((start : Int) - packet.info.start) } },
    ?_, rfl, rfl, ?_⟩
  · rw [ip4TrimPacket, if_neg (by omega), if_neg (by omega), ip4TrimHead, if_pos hstart]
    dsimp only
    rw [hrun]
    dsimp only
    rw [ip4TrimTail, if_neg (lt_irrefl _)]
  · refine ⟨hstop, h.stop_le, hsize, ?_, hw, hcont.trans ?_⟩
    · dsimp only
      omega
    · unfold without sliceOf ip4Span Span.length
      have hdrop : packet.info.start + (start-packet.info.start) = start := by omega
      have hleft : packet.info.stop-packet.info.start - (start-packet.info.start) =
          packet.info.stop-start := by omega
      rw [if_pos rfl, drop_take, drop_drop, hdrop, hleft]

variable {before behind rest l : List Ip4Packet} {a b : Nat} {curLen : Int}

theorem ip4InsertPoint_spec (start : Nat) (l : List Ip4Packet) :
    (ip4InsertPoint start l).1 ++ (ip4InsertPoint start l).2 = l ∧
      (∀ f ∈ (ip4InsertPoint start l).1, f.info.start ≤ start) ∧
      ∀ f, (ip4InsertPoint start l).2.head? = some f → start < f.info.start :=
  span_start (fun f : Ip4Packet => f.info.start) start l

theorem ip4CheckPrevious_spec (h : IsPiece m payload packet)
    (hstarts : ∀ f ∈ before, f.info.start ≤ packet.info.start) :
    (ip4CheckPrevious before.getLast? packet = .ok none ∧
      ∀ x, (ip4Span packet).Holds x → Covered ip4Span before x) ∨
    ∃ kept, ip4CheckPrevious before.getLast? packet = .ok (some kept) ∧
      kept.ip4 = packet.ip4 ∧ IsPiece m payload kept ∧
      ip4Span kept = ⟨max packet.info.start (lastStop ip4Span 0 before), packet.info.stop⟩ := by
  unfold ip4CheckPrevious lastStop
  cases hlast : before.getLast? with
  | none =>
    refine .inr ⟨packet, rfl, rfl, h, ?_⟩
    rw [Option.map_none, Option.getD_none, Nat.max_zero]
    rfl
  | some node =>
    have hmem : node ∈ before := mem_of_getLast? hlast
    have hstart := hstarts node hmem
    dsimp only
    by_cases hover : packet.info.start < node.info.stop
    · rw [if_pos hover]
      by_cases hcov : packet.info.stop ≤ node.info.stop
      · rw [if_pos hcov]
        refine .inl ⟨rfl, fun x hx => ⟨node, hmem, ?_, ?_⟩⟩
        · exact le_trans hstart hx.1
        · exact lt_of_lt_of_le hx.2 hcov
      rw [if_neg hcov]
      obtain ⟨kept,hrun,hhead,hspan,hpc⟩ := ip4TrimPacket_head h hover (Nat.lt_of_not_le hcov)
      rw [hrun]
      refine .inr ⟨kept, rfl, hhead, hpc, hspan.trans ?_⟩
      show _ = Span.mk (max packet.info.start node.info.stop) _
      rw [Nat.max_eq_right (le_of_lt hover)]
    · rw [if_neg hover]
      refine .inr ⟨packet, rfl, rfl, h, ?_⟩
      show _ = Span.mk (max packet.info.start node.info.stop) _
      rw [Nat.max_eq_left (Nat.le_of_not_lt hover)]
      rfl

def NoTailOverlap (packet : Ip4Packet) (behind : List Ip4Packet) : Prop :=
  ∀ node ∈ behind, node.info.start < packet.info.stop → packet.info.stop < node.info.stop →
    node.info.start = packet.info.start

/-- What the loop over the fragments behind the insert point leaves, without a tail to trim. -/
structure BehindKept (packet : Ip4Packet) (behind : List Ip4Packet) (a b : Nat) (curLen : Int)
    (r : Ip4Behind) : Prop where
  subset : ∀ f ∈ r.fragments, f ∈ behind
  curLen : r.curLen + spansLength ip4Span behind = curLen + spansLength ip4Span r.fragments
  dropped : r.packet = none → InOrder ip4Span a r.fragments b ∧
    (∀ x, Covered ip4Span r.fragments x ↔ Covered ip4Span behind x) ∧
    ∀ x, (ip4Span packet).Holds x → Covered ip4Span behind x
  kept : ∀ p, r.packet = some p → p = packet ∧ InOrder ip4Span packet.info.stop r.fragments b ∧
    ∀ x, Covered ip4Span r.fragments x ∨ (ip4Span packet).Holds x ↔
      Covered ip4Span behind x ∨ (ip4Span packet).Holds x

theorem ip4CheckBehind_spec (hpcs : ∀ f ∈ behind, IsPiece m payload f)
    (hstop : packet.info.stop ≤ b) (hord : InOrder ip4Span a behind b)
    (hstarts : ∀ f ∈ behind, packet.info.start ≤ f.info.start)
    (hno : NoTailOverlap packet behind) (curLen : Int) :
    ∃ r, ip4CheckBehind packet behind curLen = .ok r ∧ BehindKept packet behind a b curLen r := by
  induction behind generalizing a curLen with
  | nil =>
    refine ⟨_, rfl, fun f hf => hf, rfl, fun h => absurd h (Option.some_ne_none _), fun p hp => ?_⟩
    exact ⟨(Option.some.inj hp).symm, hstop, fun x => Iff.rfl⟩
  | cons node rest ih =>
    obtain ⟨h1,h2,h3⟩ := hord
    have hnode := hpcs node mem_cons_self
    have hstart := hstarts node mem_cons_self
    have hlen := hnode.length
    have hlt := hnode.nonempty
    rw [ip4CheckBehind]
    by_cases hswal : node.info.stop ≤ packet.info.stop
    · rw [if_pos hswal]
      obtain ⟨r,hrun,hsub,hcur,hdrop,hkept⟩ := ih
        (fun f hf => hpcs f (mem_cons_of_mem _ hf)) h3
        (fun f hf => hstarts f (mem_cons_of_mem _ hf))
        (fun f hf => hno f (mem_cons_of_mem _ hf)) (curLen-node.info.length)
      have hins : ∀ x, (ip4Span node).Holds x → (ip4Span packet).Holds x := fun x hx =>
        ⟨le_trans hstart hx.1, lt_of_lt_of_le hx.2 hswal⟩
      refine ⟨r, hrun, fun f hf => mem_cons_of_mem _ (hsub f hf), ?_, fun h => ?_, fun p hp => ?_⟩
      · rw [spansLength_cons, Span.length]
        unfold ip4Span at hcur ⊢
        dsimp only
        omega
      · obtain ⟨ho,hc,hin⟩ := hdrop h
        refine ⟨ho.mono_left (le_of_lt (lt_of_le_of_lt h1 h2)), fun x => ?_,
          fun x hx => covered_cons.mpr (.inr (hin x hx))⟩
        rw [hc, covered_cons]
        exact ⟨.inr, fun hx => hx.elim (fun hx => hin x (hins x hx)) id⟩
      · obtain ⟨rfl,ho,hc⟩ := hkept p hp
        refine ⟨rfl, ho, fun x => ?_⟩
        rw [hc, covered_cons]
        tauto
    · rw [if_neg hswal]
      by_cases hover : node.info.start < packet.info.stop
      · have hsame : packet.info.start = node.info.start :=
          (hno node mem_cons_self hover (Nat.lt_of_not_le hswal)).symm
        rw [if_pos hover, if_pos hsame]
        refine ⟨_, rfl, fun f hf => hf, rfl, fun _ => ⟨⟨h1, h2, h3⟩, fun x => Iff.rfl,
          fun x hx => covered_cons.mpr (.inl ?_)⟩, fun p hp => absurd hp.symm (Option.some_ne_none p)⟩
        exact ⟨le_trans (le_of_eq hsame.symm) hx.1, lt_trans hx.2 (Nat.lt_of_not_le hswal)⟩
      · rw [if_neg hover]
        refine ⟨_, rfl, fun f hf => hf, rfl, fun h => absurd h (Option.some_ne_none _), fun p hp => ?_⟩
        exact ⟨(Option.some.inj hp).symm, ⟨Nat.le_of_not_lt hover, h2, h3⟩, fun x => Iff.rfl⟩

/-- The entry of the datagram `head`, with the fragments of the payload received so far. -/
structure Assembling (m : Memory) (head : Ip4Head) (payload : Bytes) (received : List Span)
    (a : Ip4AssembleEntry) : Prop where
  entry : ip4Matches head a = true
  inOrder : InOrder ip4Span 0 a.fragments payload.length
  pieces : ∀ f ∈ a.fragments, IsPiece m payload f
  curLen : a.curLen = spansLength ip4Span a.fragments
  totalLen : a.totalLen = 0 ∨ a.totalLen = payload.length
  last : Covered ip4Span a.fragments (payload.length-1) → a.totalLen = payload.length
  first : a.head.isSome = true ↔ Covered ip4Span a.fragments 0
  firstInfo : a.info.isSome = true ↔ Covered ip4Span a.fragments 0
  covered : ∀ x, Covered ip4Span a.fragments x ↔ ∃ s ∈ received, s.Holds x

/-- A fragment of the datagram: a piece of the payload, which starts at a multiple of eight, and has
no more fragments behind it exactly if it is the last. -/
structure IsFragment (m : Memory) (head : Ip4Head) (payload : Bytes) (packet : Ip4Packet) : Prop where
  datagram : packet.ip4.dst = head.dst ∧ packet.ip4.src = head.src ∧ packet.ip4.id = head.id ∧
    packet.ip4.protocol = head.protocol
  aligned : 8 ∣ packet.info.start
  piece : IsPiece m payload packet
  last : ip4LastFragment packet.ip4.fragment = true ↔ packet.info.stop = payload.length

/-- No tail of the new fragment has to be trimmed: where it overlaps the beginning of a held one
only, all of it before that one is held. -/
def NoTailTrim (a : Ip4AssembleEntry) (packet : Ip4Packet) : Prop :=
  ∀ node ∈ a.fragments, packet.info.start < node.info.start →
    node.info.start < packet.info.stop → packet.info.stop < node.info.stop →
      ∃ prev ∈ a.fragments, prev.info.start ≤ packet.info.start ∧ prev.info.stop = node.info.start

variable {head : Ip4Head} {received : List Span} {entry : Ip4AssembleEntry}

theorem Assembling.received_iff (h : Assembling m head payload received entry) (s : Span) (x : Nat) :
    (∃ t ∈ received ++ [s], t.Holds x) ↔ Covered ip4Span entry.fragments x ∨ s.Holds x := by
  rw [h.covered]
  simp only [mem_append, mem_singleton, or_and_right, exists_or, exists_eq_left]

/-- A fragment at its insert point, without what the last fragment before it holds. -/
structure Placed (m : Memory) (payload : Bytes) (fragments : List Ip4Packet) (packet : Ip4Packet)
    (before behind : List Ip4Packet) (kept : Ip4Packet) : Prop where
  split : before ++ behind = fragments
  before_le : ∀ f ∈ before, f.info.start ≤ packet.info.start
  lt_behind : ∀ f ∈ behind, packet.info.start < f.info.start
  inOrder_before : InOrder ip4Span 0 before (lastStop ip4Span 0 before)
  inOrder_behind : InOrder ip4Span (lastStop ip4Span 0 before) behind payload.length
  pieces : ∀ f ∈ behind, IsPiece m payload f
  ip4 : kept.ip4 = packet.ip4
  piece : IsPiece m payload kept
  span : ip4Span kept = ⟨max packet.info.start (lastStop ip4Span 0 before), packet.info.stop⟩

section
variable {kept : Ip4Packet} (h : Placed m payload entry.fragments packet before behind kept)
include h

theorem Placed.start_eq : kept.info.start = max packet.info.start (lastStop ip4Span 0 before) :=
  congrArg Span.start h.span

theorem Placed.stop_eq : kept.info.stop = packet.info.stop := congrArg Span.stop h.span

theorem Placed.start_le : ∀ f ∈ behind, kept.info.start ≤ f.info.start := by
  intro f hf
  rw [h.start_eq]
  exact Nat.max_le.mpr ⟨le_of_lt (h.lt_behind f hf), (h.inOrder_behind.bounds hf).1⟩

theorem Placed.noTailOverlap (hno : NoTailTrim entry packet) : NoTailOverlap kept behind := by
  intro node hnode hover hbeyond
  rw [h.stop_eq] at hover hbeyond
  obtain ⟨prev,hprev,hle,hadj⟩ := hno node (h.split ▸ mem_append_right _ hnode) (h.lt_behind node hnode) hover
    hbeyond
  refine le_antisymm ?_ (h.start_le node hnode)
  have hmem : prev ∈ before := by
    rw [← h.split] at hprev
    rcases mem_append.mp hprev with hprev | hprev
    · exact hprev
    · exact absurd (h.lt_behind prev hprev) (not_lt.mpr hle)
  have hstop := (h.inOrder_before.bounds hmem).2.2
  rw [h.start_eq, ← hadj]
  exact le_trans hstop (le_max_right _ _)

theorem Placed.covered_iff (x : Nat) : Covered ip4Span before x ∨ (ip4Span kept).Holds x ↔
    Covered ip4Span before x ∨ (ip4Span packet).Holds x := by
  rw [h.span]
  constructor
  · rintro (hx | ⟨hx,hx'⟩)
    · exact .inl hx
    · exact .inr ⟨le_trans (le_max_left _ _) hx, hx'⟩
  · rintro (hx | ⟨hx,hx'⟩)
    · exact .inl hx
    · by_cases hin : lastStop ip4Span 0 before ≤ x
      · exact .inr ⟨Nat.max_le.mpr ⟨hx, hin⟩, hx'⟩
      -- what is cut off is part of the last fragment before the insert point
      rcases lastStop_cases ip4Span 0 before with hzero | ⟨prev,hprev,hstop⟩
      · omega
      · exact .inl ⟨prev, hprev, le_trans (h.before_le prev hprev) hx, by omega⟩

theorem Placed.not_covered_zero (hzero : kept.info.start = 0) : ¬ Covered ip4Span entry.fragments 0 := by
  rw [h.start_eq, Nat.max_eq_zero_iff] at hzero
  rw [← h.split, covered_append]
  rintro (⟨f,hf,hx⟩ | ⟨f,hf,hx⟩)
  · have hstop := (h.inOrder_before.bounds hf).2.2
    have hlt := hx.2
    omega
  · have hlt := h.lt_behind f hf
    have hle : f.info.start ≤ 0 := hx.1
    omega

/-- What is kept of the first fragment is set where the fragment begins at zero, and was set before where what
is cut off does. -/
theorem Placed.first_iff {β : Type} {o : Option β} (v : β)
    (ho : o.isSome = true ↔ Covered ip4Span entry.fragments 0) :
    (if kept.info.start = 0 then some v else o).isSome = true ↔
      Covered ip4Span entry.fragments 0 ∨ (ip4Span packet).Holds 0 := by
  have hstart := h.start_eq
  have hpos : 0 < packet.info.stop := lt_of_le_of_lt (Nat.zero_le _) (h.stop_eq ▸ h.piece.nonempty)
  by_cases hzero : kept.info.start = 0
  · rw [if_pos hzero]
    rw [hstart, Nat.max_eq_zero_iff] at hzero
    exact ⟨fun _ => .inr ⟨le_of_eq hzero.1, hpos⟩, fun _ => rfl⟩
  rw [if_neg hzero, ho]
  refine ⟨.inl, fun hx => hx.elim id fun hx => ?_⟩
  have hx0 : packet.info.start = 0 := Nat.le_zero.mp hx.1
  rcases lastStop_cases ip4Span 0 before with hl | ⟨prev,hprev,hl⟩
  · rw [hstart, hx0, hl] at hzero
    exact absurd rfl hzero
  · have hle := h.before_le prev hprev
    have hlt : prev.info.start < prev.info.stop := (h.inOrder_before.bounds hprev).2.1
    rw [← h.split, covered_append]
    exact .inl ⟨prev, hprev, hx0 ▸ hle, lt_of_le_of_lt (Nat.zero_le _) hlt⟩

variable (ha : Assembling m head payload received entry)
include ha

theorem Placed.assembling_dropped (hr : BehindKept kept behind (lastStop ip4Span 0 before) payload.length
      entry.curLen ⟨none, rest, curLen⟩) : Assembling m head payload (received ++ [ip4Span packet])
      { entry with fragments := before ++ rest, curLen := curLen } ∧
    ∀ x, Covered ip4Span (before ++ rest) x ↔ Covered ip4Span entry.fragments x := by
  obtain ⟨ho,hc,hin⟩ := hr.dropped rfl
  have hsame : ∀ x, Covered ip4Span (before ++ rest) x ↔ Covered ip4Span entry.fragments x := by
    intro x
    rw [← h.split, covered_append, covered_append, hc]
  refine ⟨⟨ha.entry, ?_, ?_, ?_, ha.totalLen, fun hx => ha.last ((hsame _).mp hx),
    ha.first.trans (hsame 0).symm, ha.firstInfo.trans (hsame 0).symm, fun x => ?_⟩, hsame⟩
  · exact inOrder_append.mpr ⟨_, h.inOrder_before, ho⟩
  · intro f hf
    rcases mem_append.mp hf with hf | hf
    · exact ha.pieces f (h.split ▸ mem_append_left _ hf)
    · exact h.pieces f (hr.subset f hf)
  · have hlen := ha.curLen
    rw [← h.split, spansLength_append] at hlen
    have hcur := hr.curLen
    rw [spansLength_append]
    dsimp only at hcur ⊢
    omega
  · have hx := h.covered_iff x
    rw [ha.received_iff, hsame, ← h.split, covered_append]
    have hcovered := hin x
    tauto

theorem Placed.assembling_kept (hp : IsFragment m head payload packet)
    (hr : BehindKept kept behind (lastStop ip4Span 0 before) payload.length entry.curLen ⟨some kept, rest, curLen⟩) :
    Assembling m head payload (received ++ [ip4Span packet])
      (ip4UpdateEntry entry kept (before ++ kept :: rest) curLen) := by
  obtain ⟨-,ho,hc⟩ := hr.kept kept rfl
  have hnew : ∀ x, Covered ip4Span (before ++ kept :: rest) x ↔
      Covered ip4Span entry.fragments x ∨ (ip4Span packet).Holds x := by
    intro x
    have hx := h.covered_iff x
    have hb := hc x
    rw [← h.split, covered_append, covered_append, covered_cons]
    tauto
  have hlast : ip4LastFragment kept.ip4.fragment = true ↔ kept.info.stop = payload.length := by
    rw [h.ip4, hp.last, h.stop_eq]
  refine ⟨ha.entry, ?_, ?_, ?_, ?_, fun hx => ?_, (h.first_iff _ ha.first).trans (hnew 0).symm,
    (h.first_iff _ ha.firstInfo).trans (hnew 0).symm, fun x => ?_⟩
  · refine inOrder_append.mpr ⟨_, h.inOrder_before, ?_, h.piece.nonempty, ho⟩
    show _ ≤ kept.info.start
    rw [h.start_eq]
    exact le_max_right _ _
  · intro f hf
    rcases mem_append.mp hf with hf | hf
    · exact ha.pieces f (h.split ▸ mem_append_left _ hf)
    · rcases mem_cons.mp hf with rfl | hf
      · exact h.piece
      · exact h.pieces f (hr.subset f hf)
  · have hplen := h.piece.length
    have hplt := h.piece.nonempty
    have hlen := ha.curLen
    have hcur := hr.curLen
    rw [← h.split, spansLength_append] at hlen
    unfold ip4UpdateEntry
    rw [spansLength_append, spansLength_cons, Span.length]
    unfold ip4Span at hcur hlen ⊢
    dsimp only at hcur ⊢
    omega
  · unfold ip4UpdateEntry
    split
    · rename_i hend
      rw [hlast.mp hend.1]
      exact .inr rfl
    · exact ha.totalLen
  · rw [show (ip4UpdateEntry entry kept (before ++ kept :: rest) curLen).fragments =
      before ++ kept :: rest from rfl, hnew] at hx
    unfold ip4UpdateEntry
    have hstop := hp.piece.stop_le
    split
    · rename_i hend
      rw [hlast.mp hend.1]
    rename_i hnot
    rcases hx with hx | hx
    · exact ha.last hx
    have hlt : payload.length - 1 < packet.info.stop := hx.2
    have hend : kept.info.stop = payload.length := by
      rw [h.stop_eq]
      omega
    rcases ha.totalLen with hz | ht
    · exact absurd ⟨hlast.mpr hend, hz⟩ hnot
    · exact ht
  · rw [ha.received_iff]
    exact hnew x

end

section
variable (h : Assembling m head payload received entry)
include h

theorem ip4Enqueue_assembling
    (hp : IsFragment m head payload packet) (hno : NoTailTrim entry packet) :
    ∃ entry' accepted, ip4Enqueue entry packet = .ok (entry',accepted) ∧
      Assembling m head payload (received ++ [ip4Span packet]) entry' ∧
      (accepted = false → ∀ x, Covered ip4Span entry'.fragments x ↔ Covered ip4Span entry.fragments x) := by
  obtain ⟨hsplit,hbef,hbeh⟩ := ip4InsertPoint_spec packet.info.start entry.fragments
  unfold ip4Enqueue
  generalize ip4InsertPoint packet.info.start entry.fragments = point at hsplit hbef hbeh
  obtain ⟨before,behind⟩ := point
  dsimp only at hsplit hbef hbeh ⊢
  have hord := h.inOrder
  rw [← hsplit] at hord
  obtain ⟨hfst,hrest⟩ := hord.cut
  have hstart : ∀ f ∈ behind, packet.info.start < f.info.start := by
    cases behind with
    | nil => exact fun f hf => absurd hf not_mem_nil
    | cons f rest =>
      have hf := hbeh f rfl
      intro g hg
      rcases mem_cons.mp hg with rfl | hg
      · exact hf
      have hg' := hrest.2.2.bounds hg
      have h1 := hrest.2.1
      unfold ip4Span at hg' h1
      dsimp only at hg' h1
      omega
  rcases ip4CheckPrevious_spec hp.piece hbef with ⟨hrun,hin⟩ | ⟨kept,hrun,hhead,hpc,hspan⟩
  · rw [hrun]
    refine ⟨entry, false, rfl, { h with covered := fun x => ?_ }, fun _ x => Iff.rfl⟩
    rw [h.received_iff, ← hsplit, covered_append]
    have hcovered := hin x
    tauto
  rw [hrun]
  dsimp only
  have hplaced : Placed m payload entry.fragments packet before behind kept := ⟨hsplit, hbef, hstart, hfst, hrest,
    fun f hf => h.pieces f (hsplit ▸ mem_append_right _ hf), hhead, hpc, hspan⟩
  obtain ⟨⟨kpacket,rest,curLen⟩,hbrun,hr⟩ := ip4CheckBehind_spec hplaced.pieces
    (hplaced.stop_eq ▸ hp.piece.stop_le) hrest hplaced.start_le (hplaced.noTailOverlap hno) entry.curLen
  rw [hbrun]
  cases kpacket with
  | none =>
    obtain ⟨hassembling,hsame⟩ := hplaced.assembling_dropped h hr
    exact ⟨_, false, rfl, hassembling, fun _ => hsame⟩
  | some p =>
    obtain ⟨rfl,-⟩ := hr.kept p rfl
    have hassert : ¬ (p.info.start = 0 ∧ entry.head.isSome = true) := by
      rintro ⟨hzero,hs⟩
      exact hplaced.not_covered_zero hzero (h.first.mp hs)
    dsimp only
    rw [if_neg hassert]
    exact ⟨_, true, rfl, hplaced.assembling_kept h hp hr, fun hf => nomatch hf⟩

/-- The fragments cover the payload exactly when all of it is there, and its length is known then. -/
theorem Assembling.complete_iff
    (hne : payload ≠ []) : (entry.totalLen ≠ 0 ∧ entry.curLen ≥ entry.totalLen) ↔
      ∀ x < payload.length, Covered ip4Span entry.fragments x := by
  have hpos : 0 < payload.length := length_pos_iff.mpr hne
  have hlen := h.inOrder.length_le
  have hcur := h.curLen
  have hiff := h.inOrder.length_eq_iff
  constructor
  · rintro ⟨hknown,hge⟩
    rcases h.totalLen with hz | ht
    · exact absurd hz hknown
    · intro x hx
      exact hiff.mp (by omega) x (Nat.zero_le x) hx
  · intro hcov
    have ht := h.last (hcov _ (by omega))
    have hfull := hiff.mpr fun x _ hx => hcov x hx
    omega

theorem Assembling.deliver (hne : payload ≠ []) (hsize : payload.length < 2^32)
    (hcov : ∀ x < payload.length, Covered ip4Span entry.fragments x) (pool : BufListPool) :
    ∃ assembled, ip4Deliver m pool entry = .ok (m,assembled) ∧
      (pool.fragments = true → pool.nbuf = true → assembled.isSome = true) ∧
      ∀ p, assembled = some p → p.nbuf.WellFormed ∧ contents m p.nbuf = payload := by
  have hpos : 0 < payload.length := length_pos_iff.mpr hne
  have ht := h.last (hcov _ (by omega))
  have hfills := h.inOrder.fills_of_covered fun x _ hx => hcov x hx
  have hinfo := h.firstInfo.mpr (hcov 0 hpos)
  unfold ip4Deliver
  cases hlast : entry.fragments.getLast? with
  | none =>
    rw [getLast?_eq_none_iff] at hlast
    rw [hlast] at hcov
    exact absurd (hcov 0 hpos) covered_nil
  | some last =>
    have hstop : last.info.stop = payload.length := by
      obtain ⟨f,hf,hx⟩ := hcov (payload.length - 1) (by omega)
      have hcut := @InOrder.cut _ _ _ _ _ [] ((append_nil entry.fragments).symm ▸ h.inOrder)
      have hflast := (hcut.1.bounds hf).2.2
      have hle := hcut.2
      have heq : lastStop ip4Span 0 entry.fragments = last.info.stop := by
        unfold lastStop
        rw [hlast]
        rfl
      have hlt := hx.2
      have hle' : lastStop ip4Span 0 entry.fragments ≤ payload.length := hle
      omega
    have hcont : (entry.fragments.map (·.nbuf)).flatMap (contents m) = payload := by
      rw [flatMap_map, hfills.flatMap_sliceOf h.inOrder.ordered fun f hf => (h.pieces f hf).contents]
      unfold sliceOf Span.length
      rw [drop_zero, Nat.sub_zero, take_length]
    obtain ⟨result,hrun,hsome,hres⟩ := netbufFromBufList_contents m hcont hne hsize pool
    dsimp only
    rw [if_neg (by rw [hstop, ht]; exact fun h => h rfl), hrun]
    cases result with
    | none => exact ⟨none, rfl, fun hf hn => hsome hf hn, fun p hp => nomatch hp⟩
    | some nbuf =>
      rw [Option.isSome_iff_exists] at hinfo
      obtain ⟨info,hi⟩ := hinfo
      rw [hi]
      refine ⟨_, rfl, fun _ _ => rfl, fun p hp => ?_⟩
      obtain rfl := Option.some.inj hp
      exact hres nbuf rfl

end

variable {table : List Ip4AssembleEntry} {test : Ip4AssembleEntry → Bool}

def TableHas (test : Ip4AssembleEntry → Bool) (table : List Ip4AssembleEntry)
    (found : Option Ip4AssembleEntry) : Prop := table.filter test = found.toList

theorem TableHas.find {found : Option Ip4AssembleEntry} (h : TableHas test table found) :
    table.find? test = found := find?_of_filter h

theorem replaceEntry_eq (a : Ip4AssembleEntry) : replaceEntry test a table = replaceFirst test a table := by
  induction table with
  | nil => rfl
  | cons e es ih => rw [replaceEntry, replaceFirst, ih]

theorem TableHas.replace {entry' : Ip4AssembleEntry} (h : TableHas test table (some entry))
    (htest : test entry' = true) : TableHas test (replaceEntry test entry' table) (some entry') := by
  rw [replaceEntry_eq]
  exact filter_replaceFirst h htest

theorem TableHas.erase (h : TableHas test table (some entry)) : TableHas test (table.eraseP test) none :=
  filter_eraseP h

def Holding (m : Memory) (head : Ip4Head) (payload : Bytes) (received : List Span)
    (table : List Ip4AssembleEntry) : Prop := (TableHas (ip4Matches head) table none ∧ received = []) ∨
  ∃ entry, TableHas (ip4Matches head) table (some entry) ∧ Assembling m head payload received entry ∧
    ¬ ∀ x < payload.length, Covered ip4Span entry.fragments x

def NoTailTrimIn (table : List Ip4AssembleEntry) (packet : Ip4Packet) : Prop :=
  ∀ entry, table.find? (ip4Matches packet.ip4) = some entry → NoTailTrim entry packet

theorem ip4Matches_of_datagram (hp : IsFragment m head payload packet) :
    ip4Matches packet.ip4 = ip4Matches head := by
  obtain ⟨⟨h1,h2,h3,h4⟩,-⟩ := hp
  unfold ip4Matches
  rw [h1, h2, h3, h4]

theorem assembling_new (hp : IsFragment m head payload packet) :
    Assembling m head payload [] (ip4CreateAssembleEntry packet.ip4.dst packet.ip4.src
      packet.ip4.id packet.ip4.protocol) where
  entry := by
    obtain ⟨⟨h1,h2,h3,h4⟩,-⟩ := hp
    unfold ip4Matches ip4CreateAssembleEntry
    rw [h1, h2, h3, h4]
    simp only [beq_self_eq_true, Bool.and_self]
  inOrder := Nat.zero_le _
  pieces _ hf := absurd hf not_mem_nil
  curLen := rfl
  totalLen := .inl rfl
  last h := absurd h covered_nil
  first := ⟨(fun h => nomatch h), fun h => absurd h covered_nil⟩
  firstInfo := ⟨(fun h => nomatch h), fun h => absurd h covered_nil⟩
  covered x := ⟨fun h => absurd h covered_nil, fun ⟨_, hs, _⟩ => absurd hs not_mem_nil⟩

/-- The fragments received with one more, and none where the datagram has been delivered, or where
there is no memory for an entry. -/
def nextReceived (pool : Ip4Pool) (table : List Ip4AssembleEntry) (received : List Span)
    (payload : Bytes) (packet : Ip4Packet) : List Span :=
  if table.find? (ip4Matches packet.ip4) = none ∧ pool.entry = false then []
  else if ∀ x < payload.length, ∃ s ∈ received ++ [ip4Span packet], s.Holds x then []
  else received ++ [ip4Span packet]

theorem Assembling.memory {m' : Memory} (h : Assembling m head payload received entry)
    (hm : ∀ f ∈ entry.fragments, contents m' f.nbuf = contents m f.nbuf) :
    Assembling m' head payload received entry := { h with
    pieces := fun f hf => { h.pieces f hf with contents := (hm f hf).trans (h.pieces f hf).contents } }

theorem ip4ReassembleEntry_step (h : Assembling m head payload received entry)
    (htable : TableHas (ip4Matches head) table (some entry))
    (hp : IsFragment m head payload packet) (hno : NoTailTrim entry packet)
    (hincomplete : ¬ ∀ x < payload.length, Covered ip4Span entry.fragments x) (pool : Ip4Pool) :
    ∃ r, ip4ReassembleEntry m pool table entry packet = .ok r ∧ r.memory = m ∧ Holding m head payload
        (if ∀ x < payload.length, ∃ s ∈ received ++ [ip4Span packet], s.Holds x then []
          else received ++ [ip4Span packet]) r.table ∧
      ((¬ ∀ x < payload.length, ∃ s ∈ received ++ [ip4Span packet], s.Holds x) → r.packet = none) ∧
      (∀ p, r.packet = some p → contents m p.nbuf = payload) ∧
      ((∀ x < payload.length, ∃ s ∈ received ++ [ip4Span packet], s.Holds x) →
        pool.buffers.fragments = true → pool.buffers.nbuf = true → r.packet.isSome = true) := by
  have hstop := hp.piece.stop_le
  have hpos : 0 < payload.length :=
    lt_of_lt_of_le (lt_of_le_of_lt (Nat.zero_le _) hp.piece.nonempty) hstop
  have hne : payload ≠ [] := length_pos_iff.mp hpos
  obtain ⟨entry',accepted,hrun,h',hsame⟩ := ip4Enqueue_assembling h hp hno
  have hcompl := h'.complete_iff hne
  have hall : (∀ x < payload.length, Covered ip4Span entry'.fragments x) ↔
      ∀ x < payload.length, ∃ s ∈ received ++ [ip4Span packet], s.Holds x :=
    forall₂_congr fun x _ => h'.covered x
  unfold ip4ReassembleEntry
  rw [hrun, ip4Matches_of_datagram hp]
  dsimp only
  by_cases hcov : ∀ x < payload.length, Covered ip4Span entry'.fragments x
  · have hacc : accepted = true := by
      cases accepted with
      | true => rfl
      | false => exact absurd (fun x hx => (hsame rfl x).mp (hcov x hx)) hincomplete
    have hsize : payload.length < 2^32 := by
      obtain ⟨f,hf,hx⟩ := hcov (payload.length - 1) (by omega)
      have hfsize := (h'.pieces f hf).size
      have hlt := hx.2
      unfold ip4Span at hlt
      dsimp only at hlt
      omega
    obtain ⟨assembled,hdeliver,hsome,hcont⟩ := h'.deliver hne hsize hcov pool.buffers
    rw [if_pos ⟨hacc, hcompl.mpr hcov⟩, hdeliver, if_pos (hall.mp hcov)]
    refine ⟨_, rfl, rfl, .inl ⟨htable.erase, rfl⟩, fun hnot => absurd (hall.mp hcov) hnot,
      fun p hp => (hcont p hp).2, fun _ => hsome⟩
  · rw [if_neg fun hgo => hcov (hcompl.mp hgo.2), if_neg fun hgo => hcov (hall.mpr hgo)]
    refine ⟨_, rfl, rfl, .inr ⟨entry', htable.replace h'.entry, h', hcov⟩, fun _ => rfl,
      fun p hp => (nomatch hp), fun hgo => absurd (hall.mpr hgo) hcov⟩

theorem ip4Reassemble_step (h : Holding m head payload received table)
    (hp : IsFragment m head payload packet) (hno : NoTailTrimIn table packet) (pool : Ip4Pool) :
    ∃ r, ip4Reassemble m pool table packet = .ok r ∧ r.memory = m ∧
      Holding m head payload (nextReceived pool table received payload packet) r.table ∧
      ((¬ ∀ x < payload.length, ∃ s ∈ received ++ [ip4Span packet], s.Holds x) → r.packet = none) ∧
      (∀ p, r.packet = some p → contents m p.nbuf = payload) ∧
      ((∀ x < payload.length, ∃ s ∈ received ++ [ip4Span packet], s.Holds x) → pool.entry = true →
        pool.buffers.fragments = true → pool.buffers.nbuf = true → r.packet.isSome = true) := by
  have hmatches := ip4Matches_of_datagram hp
  unfold ip4Reassemble nextReceived
  rcases h with ⟨htable,rfl⟩ | ⟨entry,htable,hent,hincomplete⟩
  · rw [hmatches, htable.find]
    by_cases hpool : pool.entry = false
    · rw [if_pos hpool, if_pos ⟨rfl, hpool⟩]
      refine ⟨_, rfl, rfl, .inl ⟨htable, rfl⟩, fun _ => rfl, fun p hp => (nomatch hp), fun _ hent => ?_⟩
      rw [hpool] at hent
      exact absurd hent Bool.false_ne_true
    rw [if_neg hpool, if_neg fun hno => hpool hno.2]
    have hnew := assembling_new hp
    have hadd : TableHas (ip4Matches head) (ip4CreateAssembleEntry packet.ip4.dst packet.ip4.src
        packet.ip4.id packet.ip4.protocol :: table) (some (ip4CreateAssembleEntry packet.ip4.dst
          packet.ip4.src packet.ip4.id packet.ip4.protocol)) := by
      unfold TableHas at htable ⊢
      rw [filter_cons_of_pos hnew.entry, htable]
      rfl
    have hpos : 0 < payload.length := lt_of_lt_of_le
      (lt_of_le_of_lt (Nat.zero_le _) hp.piece.nonempty) hp.piece.stop_le
    obtain ⟨r,hrun,hm,hholding,h1,h2,h3⟩ := ip4ReassembleEntry_step hnew hadd hp
      (fun node hnode => absurd hnode not_mem_nil)
      (fun hall => covered_nil (hall 0 hpos)) pool
    exact ⟨r, hrun, hm, hholding, h1, h2, fun hall _ => h3 hall⟩
  · rw [hmatches, htable.find]
    have hnoTrim := hno entry (by rw [hmatches]; exact htable.find)
    obtain ⟨r,hrun,hm,hholding,h1,h2,h3⟩ := ip4ReassembleEntry_step hent htable hp hnoTrim
      hincomplete pool
    exact ⟨r, hrun, hm, hholding, h1, h2, fun hall _ => h3 hall⟩

/-- Runs in which the fragments of a datagram arrive, in any order and as often as they like, but none
with a tail to trim. In between other datagrams' entries come and go, and memory changes outside of
what is held. -/
inductive Ip4Run (head : Ip4Head) (payload : Bytes) : Memory → List Ip4AssembleEntry → List Span → Prop
  | start {m : Memory} {table : List Ip4AssembleEntry} :
      TableHas (ip4Matches head) table none → Ip4Run head payload m table []
  | receive {m : Memory} {table : List Ip4AssembleEntry} {received : List Span}
      {packet : Ip4Packet} {pool : Ip4Pool} {r : Ip4Result} :
      Ip4Run head payload m table received → IsFragment m head payload packet →
      NoTailTrimIn table packet → ip4Reassemble m pool table packet = .ok r →
      Ip4Run head payload r.memory r.table (nextReceived pool table received payload packet)
  | others {m m' : Memory} {table table' : List Ip4AssembleEntry} {received : List Span} :
      Ip4Run head payload m table received →
      table'.filter (ip4Matches head) = table.filter (ip4Matches head) →
      (∀ entry ∈ table.filter (ip4Matches head), ∀ f ∈ entry.fragments,
        contents m' f.nbuf = contents m f.nbuf) → Ip4Run head payload m' table' received

theorem holding_of_run (hrun : Ip4Run head payload m table received) :
    Holding m head payload received table := by
  induction hrun with
  | start htable => exact .inl ⟨htable, rfl⟩
  | receive _ hp hno hr ih =>
    obtain ⟨r',hr',hm,hholding,-⟩ := ip4Reassemble_step ih hp hno _
    obtain rfl := Except.ok.inj (hr.symm.trans hr')
    rw [hm]
    exact hholding
  | others _ htable hm ih =>
    rcases ih with ⟨hnone,hrecv⟩ | ⟨entry,hsome,hent,hincomplete⟩
    · exact .inl ⟨htable.trans hnone, hrecv⟩
    · refine .inr ⟨entry, htable.trans hsome, hent.memory (hm entry ?_), hincomplete⟩
      rw [hsome]
      exact mem_singleton.mpr rfl

/-- In such a run the fragments held are in order and disjoint, with their lengths counted, and the
next fragment causes no fault; nothing is delivered before the fragments accepted cover the payload,
and then, where there is memory for it, a packet with exactly the payload is. -/
theorem ip4Reassemble_of_run (hrun : Ip4Run head payload m table received) :
    (∀ entry, table.find? (ip4Matches head) = some entry → InOrder ip4Span 0 entry.fragments payload.length ∧
        entry.curLen = spansLength ip4Span entry.fragments ∧
        ∀ f ∈ entry.fragments, contents m f.nbuf = sliceOf payload (ip4Span f)) ∧
    ∀ packet pool, IsFragment m head payload packet → NoTailTrimIn table packet →
      ∃ r, ip4Reassemble m pool table packet = .ok r ∧
        ((¬ ∀ x < payload.length, ∃ s ∈ received ++ [ip4Span packet], s.Holds x) → r.packet = none) ∧
        (∀ p, r.packet = some p → contents r.memory p.nbuf = payload) ∧
        ((∀ x < payload.length, ∃ s ∈ received ++ [ip4Span packet], s.Holds x) →
          pool.entry = true → pool.buffers.fragments = true → pool.buffers.nbuf = true →
            r.packet.isSome = true) := by
  have hholding := holding_of_run hrun
  constructor
  · intro entry hfind
    rcases hholding with ⟨hnone,-⟩ | ⟨found,hsome,hent,-⟩
    · rw [hnone.find] at hfind
      exact nomatch hfind
    · rw [hsome.find] at hfind
      obtain rfl := Option.some.inj hfind
      exact ⟨hent.inOrder, hent.curLen, fun f hf => (hent.pieces f hf).contents⟩
  · intro packet pool hp hno
    obtain ⟨r,hr,hm,-,h1,h2,h3⟩ := ip4Reassemble_step hholding hp hno pool
    refine ⟨r, hr, h1, fun p hp => ?_, h3⟩
    rw [hm]
    exact h2 p hp

end

/-! A payload of 24 bytes in two fragments, which overlap in their middle. -/

def sampleMemory : Memory := fun address => UInt8.ofNat address

def samplePayload : Bytes := bytesAt sampleMemory 0x1000 24

def sampleHead (fragment : Nat) : Ip4Head := ⟨1, 2, 3, 17, fragment⟩

def firstFragment : Ip4Packet := ⟨sampleHead 0x2000, ⟨0, 16, 16⟩, ⟨[netbufSetBlockOp 0x1000 16], 16⟩⟩

def lastFragment : Ip4Packet := ⟨sampleHead 0x0001, ⟨8, 24, 16⟩, ⟨[netbufSetBlockOp 0x1008 16], 16⟩⟩

def allPool : Ip4Pool := ⟨true, ⟨true, none, true⟩⟩

theorem isFragment_firstFragment : IsFragment sampleMemory (sampleHead 0) samplePayload firstFragment where
  datagram := ⟨rfl, rfl, rfl, rfl⟩
  aligned := by decide
  piece := {
    nonempty := by decide
    stop_le := by decide
    size := by decide
    length := by decide
    wellFormed := oneBlock_wellFormed _ _
    contents := by decide +kernel }
  last := by decide +kernel

theorem isFragment_lastFragment :
    IsFragment sampleMemory (sampleHead 0) samplePayload lastFragment where
  datagram := ⟨rfl, rfl, rfl, rfl⟩
  aligned := by decide
  piece := {
    nonempty := by decide
    stop_le := by decide
    size := by decide
    length := by decide
    wellFormed := oneBlock_wellFormed _ _
    contents := by decide +kernel }
  last := by decide +kernel

def deliveredLast (pool : Ip4Pool) :
    Memory → List Ip4AssembleEntry → List Ip4Packet → Option Bytes → Option Bytes
  | _, _, [], delivered => delivered
  | m, table, packet :: rest, delivered =>
    match ip4Reassemble m pool table packet with
    | .error _ => none
    | .ok r =>
      deliveredLast pool r.memory r.table rest
        ((r.packet.map fun p => contents r.memory p.nbuf).or delivered)

/-- With the last fragment first, the tail of the first one is trimmed: all of its bytes go, and its
length grows, so that a packet without them is delivered. -/
theorem not_payload_of_tailTrim :
    IsFragment sampleMemory (sampleHead 0) samplePayload firstFragment ∧
    IsFragment sampleMemory (sampleHead 0) samplePayload lastFragment ∧
    deliveredLast allPool sampleMemory [] [lastFragment, firstFragment] none =
      some (bytesAt sampleMemory 0x1008 16) ∧
    bytesAt sampleMemory 0x1008 16 ≠ samplePayload :=
  ⟨isFragment_firstFragment, isFragment_lastFragment, by decide +kernel, by decide +kernel⟩

/-- The first fragment, and then the last one, whose head is trimmed, so that the payload is delivered. -/
theorem ip4Reassemble_of_run_sample : ∃ m table r p,
    Ip4Run (sampleHead 0) samplePayload m table [⟨0, 16⟩] ∧ ip4Reassemble m allPool table lastFragment = .ok r ∧
      r.packet = some p ∧ contents r.memory p.nbuf = samplePayload := by
  have hstart : Ip4Run (sampleHead 0) samplePayload sampleMemory [] [] := .start rfl
  have hno : NoTailTrimIn [] firstFragment := fun entry h => nomatch (show none = some entry from h)
  have hheld := hstart.receive isFragment_firstFragment hno (show ip4Reassemble _ allPool [] _ = .ok _ from rfl)
  obtain ⟨r,hr,-,hpayload,hdelivered⟩ := (ip4Reassemble_of_run hheld).2 lastFragment allPool
    isFragment_lastFragment fun entry hfind => by
      cases (show some _ = some entry from hfind)
      unfold NoTailTrim
      decide +kernel
  obtain ⟨p,hp⟩ := Option.isSome_iff_exists.mp (hdelivered (by decide +kernel) rfl rfl rfl)
  exact ⟨_, _, r, p, hheld, hr, hp, hpayload p hp⟩

end Liano.Net
