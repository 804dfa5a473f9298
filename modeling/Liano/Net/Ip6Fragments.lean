import Liano.Net.Ip6Reassemble

/-! The fragments of one IPv6 packet: as long as no two of them overlap in part, the entry holds disjoint
pieces of the payload, and what is delivered is the unfragmentable part with the payload behind it. -/
namespace Liano.Net

open Memory Liano.Lib List

section
variable {m : Memory} {a n k : Nat} {v : UInt8} {nbuf : NetBuf} {b c : NetBlockOp}

theorem bytesAt_update (hk : k < n) :
    bytesAt (Function.update m (a+k) v) a n = (bytesAt m a n).set k v := by
  induction n generalizing a k with
  | zero => exact absurd hk (Nat.not_lt_zero k)
  | succ n ih =>
    cases k with
    | zero =>
      have htail : bytesAt (Function.update m a v) (a+1) n = bytesAt m (a+1) n := by
        apply bytesAt_congr
        intro i _
        exact Function.update_of_ne (by omega) _ _
      show Function.update m a v a :: bytesAt (Function.update m a v) (a+1) n = _
      rw [Function.update_self, htail]
      rfl
    | succ k =>
      have hstep := @ih (a+1) k (Nat.lt_of_succ_lt_succ hk)
      rw [show a+1+k = a + (k+1) by omega] at hstep
      show Function.update m (a + (k+1)) v a :: bytesAt _ (a+1) n = _
      rw [Function.update_of_ne (by omega), hstep]
      rfl

theorem bytesAt_update_outside {x : Nat} (h : x < a ∨ a+n ≤ x) :
    bytesAt (Function.update m x v) a n = bytesAt m a n := by
  apply bytesAt_congr
  intro i hi
  exact Function.update_of_ne (by omega) _ _

theorem getElem?_bytesAt (hk : k < n) : (bytesAt m a n)[k]? = some (m (a+k)) := by
  induction n generalizing a k with
  | zero => exact absurd hk (Nat.not_lt_zero k)
  | succ n ih =>
    cases k with
    | zero => rfl
    | succ k =>
      have hstep := @ih (a+1) k (Nat.lt_of_succ_lt_succ hk)
      rw [show a+1+k = a + (k+1) by omega] at hstep
      exact hstep

def Apart (b c : NetBlockOp) : Prop := b.head+b.size.toNat ≤ c.head ∨ c.head+c.size.toNat ≤ b.head

theorem data_update_apart (h : Apart b c ∨ Apart c b) (hk : k < b.size.toNat) :
    c.data (Function.update m (b.head+k) v) = c.data m := by
  refine bytesAt_update_outside ?_
  unfold Apart at h
  omega

theorem flatMap_update_apart {l : List NetBlockOp} (h : ∀ c ∈ l, Apart b c ∨ Apart c b)
    (hk : k < b.size.toNat) :
    l.flatMap (NetBlockOp.data (Function.update m (b.head+k) v)) = l.flatMap (NetBlockOp.data m) := by
  induction l with
  | nil => rfl
  | cons c l ih =>
    rw [flatMap_cons, flatMap_cons, data_update_apart (h c mem_cons_self) hk,
      ih fun c hc => h c (mem_cons_of_mem _ hc)]

theorem netbufGetByte_spec (hw : nbuf.WellFormed) {offset : UInt32}
    (hoff : offset.toNat < nbuf.totalSize.toNat) :
    ∃ index b k, netbufGetByte nbuf offset = some (index, b.head+k) ∧ b ∈ nbuf.blockOp ∧
      k < b.size.toNat ∧ (∀ m, (contents m nbuf)[offset.toNat]? = some (m (b.head+k))) ∧
      (nbuf.blockOp.Pairwise Apart → ∀ m v, contents (Function.update m (b.head+k) v) nbuf =
        (contents m nbuf).set offset.toNat v) := by
  obtain ⟨pre,b,post,cur,hblk,hseek,hcur,hle,hlt⟩ := hw.seek_spec hoff false
  have hsub : (offset-cur).toNat = offset.toNat-cur.toNat := toNat_sub_of_le hle
  have hk : offset.toNat-cur.toNat < b.size.toNat := by omega
  have hpre : ∀ m, (pre.flatMap (NetBlockOp.data m)).length = cur.toNat := by
    intro m
    rw [length_blocks, hcur]
  refine ⟨pre.length, b, offset.toNat-cur.toNat, ?_, ?_, hk, ?_, ?_⟩
  · have hin : ¬ nbuf.totalSize ≤ offset := by
      rw [UInt32.le_iff_toNat_le]
      omega
    unfold netbufGetByte
    rw [if_neg hin, hseek]
    dsimp only
    rw [hsub]
  · rw [hblk]
    exact mem_append_right _ mem_cons_self
  · intro m
    unfold contents
    rw [hblk, flatMap_append, flatMap_cons, getElem?_append_right (by rw [hpre]; exact hle), hpre,
      getElem?_append_left (by rw [length_data]; exact hk)]
    exact getElem?_bytesAt hk
  · intro hapart m v
    rw [hblk] at hapart
    obtain ⟨-,hpost,hcross⟩ := pairwise_append.mp hapart
    obtain ⟨hbpost,-⟩ := pairwise_cons.mp hpost
    unfold contents
    rw [hblk, flatMap_append, flatMap_cons, flatMap_append, flatMap_cons,
      flatMap_update_apart (fun c hc => .inr (hcross c hc b mem_cons_self)) hk,
      flatMap_update_apart (fun c hc => .inl (hbpost c hc)) hk,
      set_append_right _ _ (by rw [hpre]; exact hle), hpre,
      set_append_left _ _ (by rw [length_data]; exact hk)]
    unfold NetBlockOp.data
    rw [bytesAt_update hk]

end

/-- What the fragments of a packet come from, with where the unfragmentable part says what follows it
(from the end of the IPv6 header on, if it is more than that header), and what follows it in the end. -/
structure Ip6Original where
  dst : Nat
  src : Nat
  id : Nat
  unfragmentable : Bytes
  formerNextHeader : Nat
  nextHeader : UInt8
  payload : Bytes
deriving DecidableEq, Repr

/-- The place of the field NextHeader that names the fragment header. -/
def Ip6Original.position (o : Ip6Original) : Nat :=
  if o.unfragmentable.length = 40 then 6 else o.formerNextHeader+40

def Ip6Original.restored (o : Ip6Original) : Bytes := o.unfragmentable.set o.position o.nextHeader

structure Ip6Original.Valid (o : Ip6Original) : Prop where
  headLen : 40 ≤ o.unfragmentable.length
  size : o.unfragmentable.length+8+o.payload.length < 2^32
  position : o.position < o.unfragmentable.length
  fragment : o.unfragmentable[o.position]? = some ip6Fragment
  payload : o.payload ≠ []

def ip6Span (packet : Ip6Packet) : Span := ⟨packet.info.start, packet.info.stop⟩

/-- The packet holds the headers and the piece of the payload that its information names. -/
structure Ip6Piece (m : Memory) (o : Ip6Original) (unfragmentable : Bytes) (packet : Ip6Packet) : Prop where
  start_le : packet.info.start ≤ packet.info.stop
  stop_le : packet.info.stop ≤ o.payload.length
  length : packet.info.length = packet.info.stop-packet.info.start
  headLen : packet.info.headLen = o.unfragmentable.length
  wellFormed : packet.nbuf.WellFormed
  contents : ∃ fragmentHeader : Bytes, fragmentHeader.length = 8 ∧
    contents m packet.nbuf = unfragmentable ++ fragmentHeader ++ sliceOf o.payload (ip6Span packet)
  kept : packet.freed = false

/-- A fragment as it is received. Its buffers have no byte in common, and the IPv6 header is in one. -/
structure IsIp6Fragment (m : Memory) (o : Ip6Original) (packet : Ip6Packet) : Prop where
  identity : packet.dst = o.dst ∧ packet.src = o.src ∧ packet.info.id = o.id
  piece : Ip6Piece m o o.unfragmentable packet
  last : packet.info.lastFrag = true ↔ packet.info.stop = o.payload.length
  former : packet.info.formerNextHeader = o.formerNextHeader
  first : packet.info.start = 0 → packet.info.nextHeader = o.nextHeader
  header : ∃ index, netbufGetByte packet.nbuf 6 = some (index, packet.ip6+6)
  apart : packet.nbuf.blockOp.Pairwise Apart

def SeparateFrom (packet f : Ip6Packet) : Prop := ∀ b ∈ packet.nbuf.blockOp, ∀ c ∈ f.nbuf.blockOp, Apart b c

/-- The packet overlaps no held fragment in part: it is beside it, lies in it, or covers it from before
its beginning. Nor is it a first fragment where one is held that is empty. -/
def NoPartialOverlap (a : Ip6AssembleEntry) (packet : Ip6Packet) : Prop :=
  ∀ f ∈ a.fragments, ¬ (packet.info.start = 0 ∧ f.info.stop = 0) ∧
    (f.info.stop ≤ packet.info.start ∨ packet.info.stop ≤ f.info.start ∨
      (f.info.start ≤ packet.info.start ∧ packet.info.stop ≤ f.info.stop) ∨
      (packet.info.start < f.info.start ∧ f.info.stop ≤ packet.info.stop))

def HasFirst (fragments : List Ip6Packet) : Prop := ∃ f ∈ fragments, f.info.start = 0

structure Ip6Assembling (m : Memory) (o : Ip6Original) (a : Ip6AssembleEntry) : Prop where
  entry : ip6Matches o.dst o.src o.id a = true
  inOrder : Ordered ip6Span 0 a.fragments o.payload.length
  pieces : ∀ f ∈ a.fragments, Ip6Piece m o (if f.info.start = 0 then o.restored else o.unfragmentable) f
  curLen : a.curLen = spansLength ip6Span a.fragments
  totalLen : a.totalLen = 0 ∨ a.totalLen = o.payload.length
  head : a.head.isSome = true ↔ HasFirst a.fragments
  info : a.info = true ↔ HasFirst a.fragments
  packet : a.packet = true ↔ HasFirst a.fragments

section
variable {m m' : Memory} {o : Ip6Original} {u : Bytes} {packet node f : Ip6Packet}
  {before behind rest : List Ip6Packet} {a b : Nat} {curLen : Int} {entry : Ip6AssembleEntry}
  {pool : Ip6Pool}

theorem Ip6Original.length_restored (o : Ip6Original) :
    o.restored.length = o.unfragmentable.length := length_set

theorem Ip6Piece.totalSize (h : Ip6Piece m o u packet) (hu : u.length = o.unfragmentable.length) :
    packet.nbuf.totalSize.toNat = o.unfragmentable.length+8 + (packet.info.stop-packet.info.start) := by
  obtain ⟨fragmentHeader,hlen,hcont⟩ := h.contents
  rw [← h.wellFormed.length_contents m, hcont, length_append, length_append,
    length_sliceOf h.stop_le, hu, hlen]
  rfl

theorem IsIp6Fragment.nextHeader (h : IsIp6Fragment m o packet) (ho : o.Valid) :
    ∃ b ∈ packet.nbuf.blockOp, ∃ k < b.size.toNat,
      nextHeaderAddress packet = some (b.head+k) ∧ m (b.head+k) = ip6Fragment ∧
      (packet.info.headLen = 40 → packet.ip6+6 = b.head+k) ∧
      ∀ v, contents (Function.update m (b.head+k) v) packet.nbuf =
        (contents m packet.nbuf).set o.position v := by
  have hsize := ho.size
  have hpos := ho.position
  have htotal := h.piece.totalSize rfl
  have hnat : (UInt32.ofNat o.position).toNat = o.position :=
    UInt32.toNat_ofNat_of_lt' (by show o.position < 2 ^ 32; omega)
  have hins : (UInt32.ofNat o.position).toNat < packet.nbuf.totalSize.toNat := by omega
  obtain ⟨index,b,k,hget,hb,hk,hbyte,hset⟩ := netbufGetByte_spec h.piece.wellFormed hins
  have hfragment : m (b.head+k) = ip6Fragment := by
    obtain ⟨fragmentHeader,-,hcont⟩ := h.piece.contents
    have hat := hbyte m
    rw [hnat, hcont, append_assoc, getElem?_append_left hpos, ho.fragment] at hat
    exact (Option.some.inj hat).symm
  have haddr : packet.info.headLen = 40 → packet.ip6+6 = b.head+k := by
    intro hheadLen
    obtain ⟨index',hhdr⟩ := h.header
    have h40 : o.position = 6 := by
      unfold Ip6Original.position
      rw [← h.piece.headLen]
      exact if_pos hheadLen
    rw [h40] at hget
    exact (Prod.mk.inj (Option.some.inj (hhdr.symm.trans hget))).2
  refine ⟨b, hb, k, hk, ?_, hfragment, haddr, fun v => ?_⟩
  · unfold nextHeaderAddress
    by_cases hheadLen : packet.info.headLen = 40
    · rw [if_pos hheadLen, haddr hheadLen]
    have hother : o.position = packet.info.formerNextHeader+40 := by
      unfold Ip6Original.position
      rw [h.former, ← h.piece.headLen]
      exact if_neg hheadLen
    rw [if_neg hheadLen, ← hother, hget]
    rfl
  · rw [hset h.apart m v, hnat]

theorem ip6InsertPoint_spec (start : Nat) (l : List Ip6Packet) :
    (ip6InsertPoint start l).1 ++ (ip6InsertPoint start l).2 = l ∧
      (∀ f ∈ (ip6InsertPoint start l).1, f.info.start ≤ start) ∧
      ∀ f, (ip6InsertPoint start l).2.head? = some f → start < f.info.start :=
  span_start (fun f : Ip6Packet => f.info.start) start l

theorem ip6CheckPrevious_spec (hstarts : ∀ f ∈ before, f.info.start ≤ packet.info.start)
    (hno : ∀ f ∈ before, f.info.stop ≤ packet.info.start ∨ packet.info.stop ≤ f.info.start ∨
      (f.info.start ≤ packet.info.start ∧ packet.info.stop ≤ f.info.stop) ∨
      (packet.info.start < f.info.start ∧ f.info.stop ≤ packet.info.stop)) :
    ip6CheckPrevious before packet = .ok none ∨ ip6CheckPrevious before packet = .ok (some before) ∧
      lastStop ip6Span 0 before ≤ packet.info.start := by
  unfold ip6CheckPrevious lastStop
  cases hlast : before.getLast? with
  | none => exact .inr ⟨rfl, Nat.zero_le _⟩
  | some node =>
    have hmem : node ∈ before := mem_of_getLast? hlast
    have hstart := hstarts node hmem
    have hcases := hno node hmem
    dsimp only
    by_cases hover : packet.info.start < node.info.stop
    · have hin : packet.info.stop ≤ node.info.stop := by omega
      rw [if_pos hover, if_pos hin]
      exact .inl rfl
    · rw [if_neg hover]
      exact .inr ⟨rfl, Nat.le_of_not_lt hover⟩

theorem ip6CheckBehind_spec (hpcs : ∀ f ∈ behind, f.info.length = f.info.stop-f.info.start)
    (hstop : packet.info.stop ≤ b) (hord : Ordered ip6Span a behind b)
    (hstarts : ∀ f ∈ behind, packet.info.start < f.info.start)
    (hno : ∀ f ∈ behind, f.info.stop ≤ packet.info.start ∨ packet.info.stop ≤ f.info.start ∨
      (f.info.start ≤ packet.info.start ∧ packet.info.stop ≤ f.info.stop) ∨
      (packet.info.start < f.info.start ∧ f.info.stop ≤ packet.info.stop)) (curLen : Int) :
    ∃ rest curLen', ip6CheckBehind packet behind curLen = .ok ⟨some packet, rest, curLen'⟩ ∧
      (∀ f ∈ rest, f ∈ behind) ∧ Ordered ip6Span packet.info.stop rest b ∧
      curLen' + spansLength ip6Span behind = curLen + spansLength ip6Span rest := by
  induction behind generalizing a curLen with
  | nil => exact ⟨[], curLen, rfl, fun f hf => hf, hstop, rfl⟩
  | cons node behind ih =>
    obtain ⟨h1,h2,h3⟩ := hord
    have hlength := hpcs node mem_cons_self
    have hstart := hstarts node mem_cons_self
    have hcases := hno node mem_cons_self
    change node.info.start ≤ node.info.stop at h2
    rw [ip6CheckBehind]
    by_cases hswal : node.info.stop ≤ packet.info.stop
    · obtain ⟨rest,curLen',hrun,hsub,hrest,hlen⟩ := ih
        (fun f hf => hpcs f (mem_cons_of_mem _ hf)) h3
        (fun f hf => hstarts f (mem_cons_of_mem _ hf))
        (fun f hf => hno f (mem_cons_of_mem _ hf)) (curLen-node.info.length)
      rw [if_pos hswal]
      refine ⟨rest, curLen', hrun, fun f hf => mem_cons_of_mem _ (hsub f hf), hrest, ?_⟩
      rw [spansLength_cons, Span.length]
      unfold ip6Span at hlen ⊢
      dsimp only
      omega
    · have hbeside : packet.info.stop ≤ node.info.start := by omega
      rw [if_neg hswal, if_neg (not_lt.mpr hbeside)]
      exact ⟨node :: behind, curLen, rfl, fun f hf => hf, ⟨hbeside, h2, h3⟩, rfl⟩

theorem hasFirst_append {l l' : List Ip6Packet} : HasFirst (l ++ l') ↔ HasFirst l ∨ HasFirst l' := by
  unfold HasFirst
  simp only [mem_append, or_and_right, exists_or]

theorem hasFirst_cons {l : List Ip6Packet} : HasFirst (f :: l) ↔ f.info.start = 0 ∨ HasFirst l := by
  unfold HasFirst
  simp only [mem_cons, or_and_right, exists_or, exists_eq_left]

theorem Ip6Piece.update (h : Ip6Piece m o u f) (hsep : SeparateFrom packet f) {b : NetBlockOp}
    (hb : b ∈ packet.nbuf.blockOp) {k : Nat} (hk : k < b.size.toNat) (v : UInt8) :
    Ip6Piece (Function.update m (b.head+k) v) o u f := by
  obtain ⟨fragmentHeader,hlen,hcont⟩ := h.contents
  refine { h with contents := ⟨fragmentHeader, hlen, Eq.trans ?_ hcont⟩ }
  exact flatMap_update_apart (fun c hc => .inl (hsep b hb c hc)) hk

theorem Ordered.starts_behind (h : Ordered ip6Span a behind b)
    (hhead : ∀ f, behind.head? = some f → packet.info.start < f.info.start) :
    ∀ f ∈ behind, packet.info.start < f.info.start := by
  cases behind with
  | nil => exact fun f hf => absurd hf not_mem_nil
  | cons g rest =>
    have hg := hhead g rfl
    intro f hf
    rcases mem_cons.mp hf with rfl | hf
    · exact hg
    have hstop := (h.2.2.bounds hf).1
    have hlt := h.2.1
    unfold ip6Span at hstop hlt
    dsimp only at hstop hlt
    omega

theorem ip6UpdateTotal_assembling {entry' : Ip6AssembleEntry}
    (htotal : entry.totalLen = 0 ∨ entry.totalLen = o.payload.length)
    (hlast : packet.info.lastFrag = true ↔ packet.info.stop = o.payload.length)
    (hent : ip6Matches o.dst o.src o.id entry' = true) (htotal' : entry'.totalLen = entry.totalLen)
    (hord : Ordered ip6Span 0 entry'.fragments o.payload.length) (hpcs : ∀ f ∈ entry'.fragments,
      Ip6Piece m o (if f.info.start = 0 then o.restored else o.unfragmentable) f)
    (hcurLen : entry'.curLen = spansLength ip6Span entry'.fragments)
    (hhead : entry'.head.isSome = true ↔ HasFirst entry'.fragments)
    (hinfo : entry'.info = true ↔ HasFirst entry'.fragments)
    (hpkt : entry'.packet = true ↔ HasFirst entry'.fragments) :
    Ip6Assembling m o (ip6UpdateTotal entry' packet) := by
  refine ⟨hent, hord, hpcs, hcurLen, ?_, hhead, hinfo, hpkt⟩
  unfold ip6UpdateTotal
  split
  · rename_i h
    rw [hlast] at h
    rw [h.1]
    exact .inr rfl
  · rw [htotal']
    exact htotal

theorem ip6Enqueue_assembling (h : Ip6Assembling m o entry) (ho : o.Valid)
    (hp : IsIp6Fragment m o packet) (hno : NoPartialOverlap entry packet)
    (hsep : ∀ f ∈ entry.fragments, SeparateFrom packet f) (hpool : pool.duplicate = true) :
    ∃ m' entry' enqueued, ip6Enqueue m pool entry packet = .ok (m',entry',enqueued) ∧
      Ip6Assembling m' o entry' := by
  obtain ⟨hsplit,hbef,hbeh⟩ := ip6InsertPoint_spec packet.info.start entry.fragments
  unfold ip6Enqueue
  generalize ip6InsertPoint packet.info.start entry.fragments = point at hsplit hbef hbeh
  obtain ⟨before,behind⟩ := point
  dsimp only at hsplit hbef hbeh ⊢
  have hord := h.inOrder
  rw [← hsplit] at hord
  obtain ⟨hfst,hrest⟩ := hord.cut
  have hmemBef : ∀ f ∈ before, f ∈ entry.fragments := fun f hf => hsplit ▸ mem_append_left _ hf
  have hmemBeh : ∀ f ∈ behind, f ∈ entry.fragments := fun f hf => hsplit ▸ mem_append_right _ hf
  have hstart := Ordered.starts_behind hrest hbeh
  have hnone : ¬ HasFirst behind := by
    rintro ⟨f,hf,hzero⟩
    have hlt := hstart f hf
    omega
  have hstartLe := hp.piece.start_le
  have hstop := hp.piece.stop_le
  have hplen := hp.piece.length
  obtain hrun | ⟨hrun,hle⟩ := ip6CheckPrevious_spec hbef fun f hf => (hno f (hmemBef f hf)).2
  · rw [hrun]
    exact ⟨m, entry, .returns, rfl, h⟩
  obtain ⟨rest,curLen',hbrun,hsub,hrestOrd,hcur⟩ := ip6CheckBehind_spec
    (fun f hf => (h.pieces f (hmemBeh f hf)).length) hstop hrest hstart
    (fun f hf => (hno f (hmemBeh f hf)).2) entry.curLen
  rw [hrun]
  rw [hbrun]
  dsimp only
  have hnew : Ordered ip6Span 0 (before ++ packet :: rest) o.payload.length :=
    ordered_append.mpr ⟨_, hfst, hle, hstartLe, hrestOrd⟩
  have hlen : curLen'+packet.info.length = spansLength ip6Span (before ++ packet :: rest) := by
    have hcurLen := h.curLen
    rw [← hsplit, spansLength_append] at hcurLen
    rw [spansLength_append, spansLength_cons, Span.length]
    unfold ip6Span at hcur hcurLen ⊢
    dsimp only
    omega
  have hnoneRest : ¬ HasFirst rest := by
    rintro ⟨f,hf,hzero⟩
    exact hnone ⟨f, hsub f hf, hzero⟩
  by_cases hzero : packet.info.start = 0
  · -- the first fragment: nothing is before it, and there has been none
    have hempty : before = [] := by
      cases before with
      | nil => rfl
      | cons f before =>
        have hbds := hfst.bounds (x := f) mem_cons_self
        have hnotEmpty := (hno f (hmemBef f mem_cons_self)).1
        unfold ip6Span at hbds hle
        dsimp only at hbds hle
        omega
    subst hempty
    have hnoFst : ¬ HasFirst entry.fragments := by
      rw [← hsplit]
      exact hnone
    have hhead : entry.head.isSome = false := by
      rw [← Bool.not_eq_true, h.head]
      exact hnoFst
    have hpkt : entry.packet = false := by
      rw [← Bool.not_eq_true, h.packet]
      exact hnoFst
    obtain ⟨b,hb,k,hk,haddr,hfragment,hhdr,hset⟩ := hp.nextHeader ho
    have hassert : ¬ (packet.info.headLen = 40 ∧ m (packet.ip6+6) ≠ ip6Fragment) := by
      rintro ⟨h40,hne⟩
      rw [hhdr h40] at hne
      exact hne hfragment
    rw [if_pos hzero]
    unfold ip6FirstFragment
    rw [hhead, hpkt, if_neg (by decide), hpool, if_neg (by decide), if_neg hassert, haddr]
    refine ⟨_, _, _, rfl, ip6UpdateTotal_assembling h.totalLen hp.last h.entry rfl hnew ?_ hlen ?_ ?_ ?_⟩
    · intro f hf
      rcases mem_cons.mp hf with rfl | hf
      · rw [if_pos hzero]
        obtain ⟨fragmentHeader,hflen,hcont⟩ := hp.piece.contents
        refine { hp.piece with contents := ⟨fragmentHeader, hflen, ?_⟩ }
        rw [hset, hcont, hp.first hzero, append_assoc, set_append_left _ _ ho.position, append_assoc]
        rfl
      · have hne : f.info.start ≠ 0 := fun h0 => hnoneRest ⟨f, hf, h0⟩
        have hold := h.pieces f (hmemBeh f (hsub f hf))
        exact hold.update (hsep f (hmemBeh f (hsub f hf))) hb hk _
    · exact ⟨fun _ => hasFirst_cons.mpr (.inl hzero), fun _ => rfl⟩
    · exact ⟨fun _ => hasFirst_cons.mpr (.inl hzero), fun _ => rfl⟩
    · exact ⟨fun _ => hasFirst_cons.mpr (.inl hzero), fun _ => rfl⟩
  · have hsame : HasFirst (before ++ packet :: rest) ↔ HasFirst entry.fragments := by
      rw [← hsplit, hasFirst_append, hasFirst_append, hasFirst_cons]
      tauto
    rw [if_neg hzero]
    refine ⟨_, _, _, rfl, ip6UpdateTotal_assembling h.totalLen hp.last h.entry rfl hnew ?_ hlen ?_ ?_ ?_⟩
    · intro f hf
      rcases mem_append.mp hf with hf | hf
      · exact h.pieces f (hmemBef f hf)
      rcases mem_cons.mp hf with rfl | hf
      · rw [if_neg hzero]
        exact hp.piece
      · exact h.pieces f (hmemBeh f (hsub f hf))
    · exact h.head.trans hsame.symm
    · exact h.info.trans hsame.symm
    · exact h.packet.trans hsame.symm

theorem ip6TrimHeaders_spec {l : List Ip6Packet} {len : UInt32} {s : Ip6Packet → Bytes}
    (hpcs : ∀ f ∈ l, f.nbuf.WellFormed ∧ ∃ headers : Bytes, headers.length = len.toNat ∧
      contents m f.nbuf = headers ++ s f) :
    ∃ nbufs, ip6TrimHeaders len l = .ok nbufs ∧ nbufs.flatMap (contents m) = l.flatMap s := by
  induction l with
  | nil => exact ⟨[], rfl, rfl⟩
  | cons f l ih =>
    obtain ⟨hw,headers,hlen,hcont⟩ := hpcs f mem_cons_self
    obtain ⟨nbufs,hrun,hall⟩ := ih fun g hg => hpcs g (mem_cons_of_mem _ hg)
    obtain ⟨nbuf,trimmed,htrim,hcnt,-,hnew⟩ := netbufTrim_exact m hw len true
    have hsize : len.toNat ≤ f.nbuf.totalSize.toNat := by
      rw [← hw.length_contents m, hcont, length_append, hlen]
      exact Nat.le_add_right _ _
    rw [min_eq_left hsize] at hcnt
    refine ⟨nbuf :: nbufs, ?_, ?_⟩
    · rw [ip6TrimHeaders, htrim]
      rw [hrun]
    · rw [flatMap_cons, flatMap_cons, hall, hnew, hcnt, hcont]
      unfold without
      rw [if_pos rfl, ← hlen, drop_left]

theorem Ip6Assembling.deliver (h : Ip6Assembling m o entry) (ho : o.Valid)
    (htotal : entry.totalLen ≠ 0) (hcurLen : entry.curLen ≥ entry.totalLen)
    (hfragment : pool.fragment = true) (hbufs : pool.buffers.fragments = true)
    (hnbuf : pool.buffers.nbuf = true) :
    ∃ assembled, ip6Deliver m pool entry = .ok (m,assembled) ∧ assembled.nbuf.WellFormed ∧
      contents m assembled.nbuf = o.restored ++ o.payload := by
  have hsize := ho.size
  have hall : entry.totalLen = o.payload.length := h.totalLen.resolve_left htotal
  have hle := h.inOrder.length_le
  have hsum : 0 + spansLength ip6Span entry.fragments = o.payload.length := by
    have hcnt := h.curLen
    omega
  have hfills := h.inOrder.fills_iff.mpr hsum
  have hpay : entry.fragments.flatMap (fun f => sliceOf o.payload (ip6Span f)) = o.payload := by
    rw [hfills.flatMap_sliceOf h.inOrder fun f _ => rfl]
    unfold sliceOf Span.length
    rw [drop_zero, Nat.sub_zero, take_length]
  have hheaders : ∀ f ∈ entry.fragments, f.nbuf.WellFormed ∧ ∃ headers : Bytes,
      headers.length = o.unfragmentable.length+8 ∧
      contents m f.nbuf = headers ++ sliceOf o.payload (ip6Span f) := by
    intro f hf
    have hpc := h.pieces f hf
    obtain ⟨fragmentHeader,hlen,hcont⟩ := hpc.contents
    refine ⟨hpc.wellFormed, _, ?_, hcont⟩
    rw [length_append, hlen]
    split
    · rw [o.length_restored]
    · rfl
  unfold ip6Deliver
  cases hlist : entry.fragments with
  | nil =>
    rw [hlist] at hfills
    have hzero : 0 = o.payload.length := hfills
    omega
  | cons first l =>
    rw [hlist] at hfills hpay hheaders
    have hzero : first.info.start = 0 := hfills.1.symm
    have hpc := h.pieces first (by rw [hlist]; exact mem_cons_self)
    rw [if_pos hzero] at hpc
    have hinfo : entry.info = true := by
      rw [h.info, hlist]
      exact hasFirst_cons.mpr (.inl hzero)
    obtain ⟨last,hlast⟩ : ∃ last, (first :: l).getLast? = some last := ⟨_, getLast?_cons⟩
    have hstop : last.info.stop = o.payload.length := by
      have hat := hfills.lastStop_eq
      unfold lastStop at hat
      rw [hlast] at hat
      exact hat
    -- the headers of the first fragment
    have hnat : (UInt32.ofNat first.info.headLen).toNat = o.unfragmentable.length := by
      rw [hpc.headLen]
      exact UInt32.toNat_ofNat_of_lt' (by show o.unfragmentable.length < 2 ^ 32; omega)
    have hnat8 : (UInt32.ofNat (first.info.headLen+8)).toNat = o.unfragmentable.length+8 := by
      rw [hpc.headLen]
      exact UInt32.toNat_ofNat_of_lt' (by show o.unfragmentable.length+8 < 2 ^ 32; omega)
    have hfstSize := hpc.totalSize o.length_restored
    have hexact := (netbufGetFragment_exact_iff m hpc.wellFormed 0
      (UInt32.ofNat first.info.headLen) 0).mpr (by
        rintro ⟨-,hwrap,-⟩
        have hzero32 : (0 : UInt32).toNat = 0 := rfl
        omega) true none
    have hin : ¬ (UInt32.ofNat first.info.headLen = 0 ∨ first.nbuf.totalSize.toNat <
        (0 : UInt32).toNat + (UInt32.ofNat first.info.headLen).toNat) := by
      have hzero32 : (0 : UInt32).toNat = 0 := rfl
      have hheadLen := ho.headLen
      rintro (heq | hlt)
      · rw [heq] at hnat
        omega
      · omega
    rw [if_neg hin, if_pos ⟨rfl, .inl rfl⟩] at hexact
    obtain ⟨tmp,htmp,-,-,htmpCont⟩ := hexact
    have hrestored : contents m tmp = o.restored := by
      obtain ⟨fragmentHeader,-,hcont⟩ := hpc.contents
      rw [htmpCont, hnat, hcont, append_assoc]
      exact take_left' o.length_restored
    rw [← hnat8] at hheaders
    obtain ⟨nbufs,htrim,hnbufs⟩ := ip6TrimHeaders_spec hheaders
    rw [hpay] at hnbufs
    have hall : (tmp :: nbufs).flatMap (contents m) = o.restored ++ o.payload := by
      rw [flatMap_cons, hrestored, hnbufs]
    have hne : o.restored ++ o.payload ≠ [] := append_ne_nil_of_right_ne_nil _ ho.payload
    have hshort : (o.restored ++ o.payload).length < 2^32 := by
      rw [length_append, o.length_restored]
      omega
    obtain ⟨result,hrun,hsome,hres⟩ := netbufFromBufList_contents m hall hne hshort pool.buffers
    obtain ⟨nbuf,rfl⟩ := Option.isSome_iff_exists.mp (hsome hbufs hnbuf)
    rw [head?_cons, hlast]
    dsimp only
    rw [if_neg (by rw [hstop]; exact not_not.mpr ‹entry.totalLen = _›.symm), hinfo,
      if_neg (by decide), hfragment, htmp]
    rw [htrim]
    dsimp only
    rw [hrun]
    exact ⟨_, rfl, (hres nbuf rfl).1, (hres nbuf rfl).2⟩

/-- There is memory for the copy of the first fragment, for the unfragmentable part and for the packet. -/
structure Ip6Pool.Available (pool : Ip6Pool) : Prop where
  duplicate : pool.duplicate = true
  fragment : pool.fragment = true
  fragments : pool.buffers.fragments = true
  nbuf : pool.buffers.nbuf = true

def Ip6Original.matches (o : Ip6Original) : Ip6AssembleEntry → Bool := ip6Matches o.dst o.src o.id

def Ip6Holding (m : Memory) (o : Ip6Original) (table : List Ip6AssembleEntry) : Prop :=
  table.filter o.matches = [] ∨ ∃ a, table.filter o.matches = [a] ∧ Ip6Assembling m o a

def NoPartialOverlapIn (o : Ip6Original) (table : List Ip6AssembleEntry) (packet : Ip6Packet) : Prop :=
  ∀ a, table.find? o.matches = some a → NoPartialOverlap a packet

def SeparateIn (o : Ip6Original) (table : List Ip6AssembleEntry) (packet : Ip6Packet) : Prop :=
  ∀ a, table.find? o.matches = some a → ∀ f ∈ a.fragments, SeparateFrom packet f

variable {table : List Ip6AssembleEntry}

theorem Ip6Assembling.memory (h : Ip6Assembling m o entry)
    (hm : ∀ f ∈ entry.fragments, contents m' f.nbuf = contents m f.nbuf) : Ip6Assembling m' o entry := by
  refine { h with pieces := fun f hf => ?_ }
  obtain ⟨fragmentHeader,hlen,hcont⟩ := (h.pieces f hf).contents
  exact { h.pieces f hf with contents := ⟨fragmentHeader, hlen, (hm f hf).trans hcont⟩ }

theorem ip6Assembling_new (m : Memory) (o : Ip6Original) :
    Ip6Assembling m o (ip6CreateAssembleEntry o.dst o.src o.id) := by
  have hnone : ¬ HasFirst [] := by
    rintro ⟨_,hf,-⟩
    exact not_mem_nil hf
  refine ⟨?_, Nat.zero_le _, fun f hf => absurd hf not_mem_nil, rfl, .inl rfl, ?_, ?_, ?_⟩
  · unfold ip6Matches ip6CreateAssembleEntry
    simp only [beq_self_eq_true, Bool.and_self]
  · exact ⟨fun h => absurd h Bool.false_ne_true, fun h => absurd h hnone⟩
  · exact ⟨fun h => absurd h Bool.false_ne_true, fun h => absurd h hnone⟩
  · exact ⟨fun h => absurd h Bool.false_ne_true, fun h => absurd h hnone⟩

theorem ip6ReassembleEntry_step (h : Ip6Assembling m o entry) (ho : o.Valid)
    (htable : table.filter o.matches = [entry]) (hp : IsIp6Fragment m o packet)
    (hno : NoPartialOverlap entry packet) (hsep : ∀ f ∈ entry.fragments, SeparateFrom packet f)
    (hpool : pool.Available) :
    ∃ r, ip6ReassembleEntry m pool table entry packet = .ok r ∧ Ip6Holding r.memory o r.table ∧
      ∀ p, r.packet = some p → contents r.memory p.nbuf = o.restored ++ o.payload := by
  obtain ⟨m',entry',enqueued,hrun,h'⟩ := ip6Enqueue_assembling h ho hp hno hsep hpool.duplicate
  have hmatches : ip6Matches packet.dst packet.src packet.info.id = o.matches := by
    obtain ⟨hdst,hsrc,hid⟩ := hp.identity
    rw [hdst, hsrc, hid]
    rfl
  unfold ip6ReassembleEntry
  rw [hrun, hmatches]
  dsimp only
  by_cases hall : enqueued = .delivers ∧ entry'.totalLen ≠ 0 ∧ entry'.curLen ≥ entry'.totalLen
  · obtain ⟨assembled,hdeliver,-,hcont⟩ := h'.deliver ho hall.2.1 hall.2.2 hpool.fragment
      hpool.fragments hpool.nbuf
    rw [if_pos hall, hdeliver]
    refine ⟨_, rfl, .inl (filter_eraseP htable), fun p hp => ?_⟩
    obtain rfl := Option.some.inj hp
    exact hcont
  · rw [if_neg hall]
    refine ⟨_, rfl, .inr ⟨entry', filter_replaceFirst htable h'.entry, h'⟩, fun p hp => ?_⟩
    cases hp

theorem ip6Reassemble_step (h : Ip6Holding m o table) (ho : o.Valid) (hp : IsIp6Fragment m o packet)
    (hno : NoPartialOverlapIn o table packet) (hsep : SeparateIn o table packet)
    (hpool : pool.Available) :
    ∃ r, ip6Reassemble m pool table packet = .ok r ∧ Ip6Holding r.memory o r.table ∧
      ∀ p, r.packet = some p → contents r.memory p.nbuf = o.restored ++ o.payload := by
  obtain ⟨hdst,hsrc,hid⟩ := hp.identity
  have hmatches : ip6Matches packet.dst packet.src packet.info.id = o.matches := by
    rw [hdst, hsrc, hid]
    rfl
  unfold ip6Reassemble
  rw [hmatches]
  rcases h with hnone | ⟨entry,hsome,hent⟩
  · have hfind : table.find? o.matches = none := find?_of_filter hnone
    rw [hfind]
    by_cases hmem : pool.entry = false
    · rw [if_pos hmem]
      exact ⟨_, rfl, .inl hnone, fun p hp => absurd hp (by simp)⟩
    rw [if_neg hmem, hdst, hsrc, hid]
    have hnew := ip6Assembling_new m o
    refine ip6ReassembleEntry_step hnew ho ?_ hp ?_ ?_ hpool
    · have hent : o.matches (ip6CreateAssembleEntry o.dst o.src o.id) = true := hnew.entry
      rw [filter_cons_of_pos hent, hnone]
    · exact fun f hf => absurd hf not_mem_nil
    · exact fun f hf => absurd hf not_mem_nil
  · have hfind : table.find? o.matches = some entry := find?_of_filter hsome
    rw [hfind]
    exact ip6ReassembleEntry_step hent ho hsome hp (hno entry hfind) (hsep entry hfind) hpool

/-- Runs in which the fragments of a packet arrive, in any order and as often as they like, but none that
overlaps a held one in part. In between other packets' entries come and go, and memory changes outside of
what is held. -/
inductive Ip6Run (o : Ip6Original) : Memory → List Ip6AssembleEntry → Prop
  | start {m : Memory} {table : List Ip6AssembleEntry} : table.filter o.matches = [] → Ip6Run o m table
  | receive {m : Memory} {table : List Ip6AssembleEntry} {packet : Ip6Packet} {pool : Ip6Pool}
      {r : Ip6Result} : Ip6Run o m table → IsIp6Fragment m o packet →
      NoPartialOverlapIn o table packet → SeparateIn o table packet → pool.Available →
      ip6Reassemble m pool table packet = .ok r → Ip6Run o r.memory r.table
  | others {m m' : Memory} {table table' : List Ip6AssembleEntry} : Ip6Run o m table →
      table'.filter o.matches = table.filter o.matches →
      (∀ a ∈ table.filter o.matches, ∀ f ∈ a.fragments, contents m' f.nbuf = contents m f.nbuf) →
      Ip6Run o m' table'

theorem ip6Holding_of_run (ho : o.Valid) (hrun : Ip6Run o m table) : Ip6Holding m o table := by
  induction hrun with
  | start htable => exact .inl htable
  | receive _ hp hno hseparate hpool hr ih =>
    obtain ⟨r',hr',hholding,-⟩ := ip6Reassemble_step ih ho hp hno hseparate hpool
    obtain rfl := Except.ok.inj (hr.symm.trans hr')
    exact hholding
  | others _ htable hm ih =>
    rcases ih with hnone | ⟨entry,hsome,hent⟩
    · exact .inl (htable.trans hnone)
    · refine .inr ⟨entry, htable.trans hsome, hent.memory (hm entry ?_)⟩
      rw [hsome]
      exact mem_singleton.mpr rfl

/-- In such a run the fragments held are in order and disjoint, none of them has been freed and their
lengths are counted; the next fragment makes no assertion fail, and a packet that is delivered is the
unfragmentable part with exactly the payload behind it. -/
theorem ip6Reassemble_of_run (ho : o.Valid) (hrun : Ip6Run o m table) :
    (∀ a, table.find? o.matches = some a → Ordered ip6Span 0 a.fragments o.payload.length ∧
        a.curLen = spansLength ip6Span a.fragments ∧ ∀ f ∈ a.fragments, f.freed = false) ∧
    ∀ packet pool, IsIp6Fragment m o packet → NoPartialOverlapIn o table packet →
      SeparateIn o table packet → pool.Available → ∃ r, ip6Reassemble m pool table packet = .ok r ∧
        ∀ p, r.packet = some p → contents r.memory p.nbuf = o.restored ++ o.payload := by
  have hholding := ip6Holding_of_run ho hrun
  constructor
  · intro a hfind
    rcases hholding with hnone | ⟨entry,hsome,hent⟩
    · have hother : table.find? o.matches = none := find?_of_filter hnone
      exact absurd (hfind.symm.trans hother) (Option.some_ne_none a)
    · have hother : table.find? o.matches = some entry := find?_of_filter hsome
      obtain rfl := Option.some.inj (hfind.symm.trans hother)
      exact ⟨hent.inOrder, hent.curLen, fun f hf => (hent.pieces f hf).kept⟩
  · intro packet pool hp hno hseparate hpool
    obtain ⟨r,hr,-,hcont⟩ := ip6Reassemble_step hholding ho hp hno hseparate hpool
    exact ⟨r, hr, hcont⟩

end

/-! A payload of 24 bytes; its first fragment comes with 8 bytes and with 16. -/

/-- Every page begins with an IPv6 header that a fragment header follows. -/
def sampleIp6Memory : Memory := fun address => if address % 0x1000 = 6 then ip6Fragment else 0

def sampleIp6Original : Ip6Original where
  dst := 1
  src := 2
  id := 3
  unfragmentable := bytesAt sampleIp6Memory 0x1000 40
  formerNextHeader := 0
  nextHeader := 17
  payload := replicate 24 0

def firstIp6Fragment (address stop : Nat) : Ip6Packet where
  dst := 1
  src := 2
  ip6 := address
  info := ⟨0, stop, stop, 3, 40, 17, false, 0⟩
  nbuf := ⟨[netbufSetBlockOp address (UInt32.ofNat (48+stop))], UInt32.ofNat (48+stop)⟩
  freed := false

def allIp6Pool : Ip6Pool := ⟨true, true, true, ⟨true, none, true⟩⟩

theorem sampleIp6Original_valid : sampleIp6Original.Valid :=
  ⟨by decide, by decide, by decide, by decide +kernel, by decide⟩

/-- The memory after the first fragment has been received: it says what follows without the fragment
header. -/
def sampleIp6Memory' : Memory := Function.update sampleIp6Memory 0x1006 17

theorem isIp6Fragment_first {m : Memory} {address stop : Nat} (hstop : stop < 24)
    (hcont : contents m (firstIp6Fragment address stop).nbuf = sampleIp6Original.unfragmentable ++
      replicate 8 0 ++ sliceOf sampleIp6Original.payload ⟨0, stop⟩)
    (hheader : netbufGetByte (firstIp6Fragment address stop).nbuf 6 = some (0, address+6)) :
    IsIp6Fragment m sampleIp6Original (firstIp6Fragment address stop) where
  identity := ⟨rfl, rfl, rfl⟩
  piece := {
    start_le := Nat.zero_le _
    stop_le := le_of_lt hstop
    length := (Int.sub_zero _).symm
    headLen := rfl
    wellFormed := oneBlock_wellFormed _ _
    contents := ⟨replicate 8 0, rfl, hcont⟩
    kept := rfl }
  last := ⟨nofun, fun h => absurd h (ne_of_lt hstop)⟩
  former := rfl
  first _ := rfl
  header := ⟨0, hheader⟩
  apart := pairwise_singleton _ _

theorem isIp6Fragment_short : IsIp6Fragment sampleIp6Memory sampleIp6Original (firstIp6Fragment 0x1000 8) :=
  isIp6Fragment_first (by decide) (by decide +kernel) (by decide +kernel)

/-- Where the first fragment comes once more and longer than before, an assertion fails: the one that is
held would have to be trimmed to nothing. -/
theorem ip6Reassemble_longer_first :
    sampleIp6Original.Valid ∧
    IsIp6Fragment sampleIp6Memory sampleIp6Original (firstIp6Fragment 0x1000 8) ∧
    ∃ r, ip6Reassemble sampleIp6Memory allIp6Pool [] (firstIp6Fragment 0x1000 8) = .ok r ∧
      IsIp6Fragment r.memory sampleIp6Original (firstIp6Fragment 0x2000 16) ∧
      ip6Reassemble r.memory allIp6Pool r.table (firstIp6Fragment 0x2000 16) = .error .assertion :=
  ⟨sampleIp6Original_valid, isIp6Fragment_short,
    ⟨sampleIp6Memory', [{ dst := 1, src := 2, id := 3, totalLen := 0, curLen := 8
                          fragments := [firstIp6Fragment 0x1000 8], head := some 0x1000
                          info := true, packet := true }], none⟩,
    rfl, isIp6Fragment_first (by decide) (by decide +kernel) (by decide +kernel), rfl⟩

def lastIp6Fragment : Ip6Packet where
  dst := 1
  src := 2
  ip6 := 0x2000
  info := ⟨8, 24, 16, 3, 40, 17, true, 0⟩
  nbuf := ⟨[netbufSetBlockOp 0x2000 64], 64⟩
  freed := false

theorem isIp6Fragment_lastIp6Fragment : IsIp6Fragment sampleIp6Memory' sampleIp6Original lastIp6Fragment where
  identity := ⟨rfl, rfl, rfl⟩
  piece := {
    start_le := by decide
    stop_le := by decide
    length := rfl
    headLen := rfl
    wellFormed := oneBlock_wellFormed _ _
    contents := ⟨replicate 8 0, rfl, by decide +kernel⟩
    kept := rfl }
  last := by decide +kernel
  former := rfl
  first := nofun
  header := ⟨0, by decide +kernel⟩
  apart := pairwise_singleton _ _

/-- The first fragment, and then the last one, with which the packet is delivered. -/
theorem ip6Reassemble_of_run_first : ∃ table r p, Ip6Run sampleIp6Original sampleIp6Memory' table ∧
    table ≠ [] ∧ ip6Reassemble sampleIp6Memory' allIp6Pool table lastIp6Fragment = .ok r ∧
      r.packet = some p ∧
      contents r.memory p.nbuf = sampleIp6Original.restored ++ sampleIp6Original.payload := by
  have hstart : Ip6Run sampleIp6Original sampleIp6Memory [] := .start rfl
  have hheld := hstart.receive isIp6Fragment_short
    (fun a h => absurd h (Option.some_ne_none a).symm) (fun a h => absurd h (Option.some_ne_none a).symm)
    ⟨rfl, rfl, rfl, rfl⟩ (show ip6Reassemble _ allIp6Pool [] _ = .ok ⟨sampleIp6Memory', _, _⟩ from rfl)
  obtain ⟨r,hr,hdelivered⟩ := (ip6Reassemble_of_run sampleIp6Original_valid hheld).2 lastIp6Fragment allIp6Pool
    isIp6Fragment_lastIp6Fragment (fun a hfind => by
      cases (show some _ = some a from hfind)
      unfold NoPartialOverlap
      decide +kernel) (fun a hfind => by
      cases (show some _ = some a from hfind)
      unfold SeparateFrom Apart
      decide +kernel) ⟨rfl, rfl, rfl, rfl⟩
  cases (show Except.ok _ = Except.ok r from hr)
  exact ⟨_, _, _, hheld, nofun, hr, rfl, hdelivered _ rfl⟩

end Liano.Net
