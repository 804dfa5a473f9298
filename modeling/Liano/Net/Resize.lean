import Liano.Net.NetBuffer

/-! NetbufTrim and NetbufAllocSpace: the two functions that take bytes off either end of a net
buffer and put bytes there. -/
namespace Liano.Net

open List hiding min

open Memory

variable {nbuf : NetBuf} {m : Memory}

def netblockTrim (b : NetBlockOp) (len : UInt32) (fromHead : Bool) : NetBlockOp :=
  if fromHead then { b with size := b.size-len, head := b.head + len.toNat }
  else { b with size := b.size-len, tail := b.tail - len.toNat }

/-- The loop of NetbufTrim over the blocks in the order it visits them. -/
def trimBlocks (fromHead : Bool) : List NetBlockOp → UInt32 → UInt32 → Except Fault (List NetBlockOp × UInt32)
  | [], _, _ => .error .outOfBounds
  | b :: bs, len, trimmed =>
    if b.size = 0 then
      match trimBlocks fromHead bs len trimmed with
      | .error fault => .error fault
      | .ok (bs,trimmed) => .ok (b :: bs, trimmed)
    else if b.size < len then
      match trimBlocks fromHead bs (len-b.size) (trimmed+b.size) with
      | .error fault => .error fault
      | .ok (bs,trimmed) => .ok (netblockTrim b b.size fromHead :: bs, trimmed)
    else .ok (netblockTrim b len fromHead :: bs, trimmed+len)

/-- NetbufTrim: from the tail the blocks are visited from the last one down. -/
def netbufTrim (nbuf : NetBuf) (len : UInt32) (fromHead : Bool) : Except Fault (NetBuf × UInt32) :=
  if len = 0 ∨ nbuf.totalSize = 0 then .ok (nbuf,0)
  else
    let len := if nbuf.totalSize < len then nbuf.totalSize else len
    match trimBlocks fromHead (if fromHead then nbuf.blockOp else nbuf.blockOp.reverse) len 0 with
    | .error fault => .error fault
    | .ok (blocks,trimmed) =>
      .ok (⟨if fromHead then blocks else blocks.reverse, nbuf.totalSize-len⟩, trimmed)

/-- The bytes of blocks in the order NetbufTrim visits them. -/
def visited (m : Memory) (fromHead : Bool) (l : List NetBlockOp) : Bytes :=
  (if fromHead then l else l.reverse).flatMap (NetBlockOp.data m)

/-- A byte string without `n` of its bytes at one end. -/
def without (fromHead : Bool) (n : Nat) (s : Bytes) : Bytes :=
  if fromHead then s.drop n else s.take (s.length-n)

/-- Trimming takes `len` bytes, or as many as there are, off the end it is asked to. -/
def TrimExact (m : Memory) (nbuf : NetBuf) (len : UInt32) (fromHead : Bool) : Prop :=
  ∃ nbuf' trimmed, netbufTrim nbuf len fromHead = .ok (nbuf',trimmed) ∧
    trimmed.toNat = min len.toNat nbuf.totalSize.toNat ∧ nbuf'.WellFormed ∧
    contents m nbuf' = without fromHead trimmed.toNat (contents m nbuf)

theorem visited_cons (fromHead : Bool) (b : NetBlockOp) (l : List NetBlockOp) : visited m fromHead (b :: l) =
      if fromHead then b.data m ++ visited m fromHead l else visited m fromHead l ++ b.data m := by
  cases fromHead <;> simp [visited]

@[simp] theorem length_visited (fromHead : Bool) (l : List NetBlockOp) :
    (visited m fromHead l).length = total NetBlockOp.size l := by
  induction l with
  | nil => cases fromHead <;> rfl
  | cons b l ih =>
    rw [visited_cons, total_cons]
    cases fromHead <;> simp [ih, add_comm]

variable {b : NetBlockOp}

theorem netblockTrim_spec {len : UInt32} (fromHead : Bool) (hb : b.WellFormed)
    (h : len.toNat ≤ b.size.toNat) : (netblockTrim b len fromHead).WellFormed ∧
      (netblockTrim b len fromHead).size.toNat = b.size.toNat-len.toNat ∧
      (netblockTrim b len fromHead).data m = without fromHead len.toNat (b.data m) := by
  have hsub : (b.size-len).toNat = b.size.toNat-len.toNat := toNat_sub_of_le h
  have hhead := hb.head_le
  have htail := hb.tail_eq
  have hle := hb.tail_le
  cases fromHead with
  | true =>
    refine ⟨⟨?_, ?_, ?_⟩, hsub, ?_⟩
    · exact le_trans hhead (Nat.le_add_right _ _)
    · change b.tail = b.head+len.toNat + (b.size-len).toNat
      omega
    · exact hle
    · change bytesAt m (b.head+len.toNat) (b.size-len).toNat = (b.data m).drop len.toNat
      rw [NetBlockOp.data, drop_bytesAt m _ h, hsub]
  | false =>
    refine ⟨⟨hhead, ?_, ?_⟩, hsub, ?_⟩
    · change b.tail - len.toNat = b.head + (b.size-len).toNat
      omega
    · exact le_trans (Nat.sub_le _ _) hle
    · change bytesAt m b.head (b.size-len).toNat = (b.data m).take ((b.data m).length - len.toNat)
      rw [length_data, NetBlockOp.data, take_bytesAt m _ (Nat.sub_le _ _), hsub]

theorem without_all (fromHead : Bool) (s : Bytes) : without fromHead s.length s = [] := by
  cases fromHead <;> simp [without]

variable {fromHead : Bool} {l : List NetBlockOp}

theorem without_visited_of_le {n : Nat} (h : b.size.toNat ≤ n) :
    without fromHead n (visited m fromHead (b :: l)) =
      without fromHead (n-b.size.toNat) (visited m fromHead l) := by
  rw [visited_cons]
  cases fromHead with
  | true =>
    simp only [without, if_true]
    rw [drop_append, length_data, drop_eq_nil_of_le (by rw [length_data]; exact h), nil_append]
  | false =>
    simp only [without, Bool.false_eq_true, if_false, length_append, length_data, length_visited]
    rw [take_append_of_le_length (by rw [length_visited]; omega)]
    congr 1
    omega

theorem without_visited_of_ge {n : Nat} (h : n ≤ b.size.toNat) :
    without fromHead n (visited m fromHead (b :: l)) =
      if fromHead then without true n (b.data m) ++ visited m fromHead l
      else visited m fromHead l ++ without false n (b.data m) := by
  rw [visited_cons]
  cases fromHead with
  | true => exact drop_append_of_le_length (by rw [length_data]; exact h)
  | false =>
    simp only [without, Bool.false_eq_true, if_false, length_append, length_data, length_visited]
    rw [take_append, length_visited, take_of_length_le (by rw [length_visited]; omega)]
    congr 2
    omega

theorem trimBlocks_spec (m : Memory) (fromHead : Bool) {len : UInt32}
    (trimmed : UInt32) (hw : ∀ b ∈ l, b.WellFormed) (hpos : 0 < len.toNat)
    (hle : len.toNat ≤ total NetBlockOp.size l) :
    ∃ l', trimBlocks fromHead l len trimmed = .ok (l', trimmed+len) ∧ l'.length = l.length ∧
      (∀ b ∈ l', b.WellFormed) ∧ total NetBlockOp.size l' = total NetBlockOp.size l - len.toNat ∧
      visited m fromHead l' = without fromHead len.toNat (visited m fromHead l) := by
  induction l generalizing len trimmed with
  | nil =>
    rw [total_nil] at hle
    exact absurd hle (by omega)
  | cons b l ih =>
    rw [total_cons] at hle
    have hb := hw b (mem_cons_self ..)
    have hl : ∀ c ∈ l, c.WellFormed := fun c hc => hw c (mem_cons_of_mem _ hc)
    by_cases hzero : b.size = 0
    · -- an empty block is left as it is
      have hzero' : b.size.toNat = 0 := by rw [hzero]; rfl
      obtain ⟨l',hrun,hlen,hwl,hsum,hvis⟩ := @ih len trimmed hl hpos (by omega)
      refine ⟨b :: l', ?_, ?_, ?_, ?_, ?_⟩
      · rw [trimBlocks, if_pos hzero, hrun]
      · rw [length_cons, length_cons, hlen]
      · intro c hc
        rcases mem_cons.mp hc with rfl | hc
        · exact hb
        · exact hwl c hc
      · rw [total_cons, total_cons, hsum]
        omega
      · have hnil : b.data m = [] := by
          apply eq_nil_of_length_eq_zero
          rw [length_data, hzero']
        rw [without_visited_of_le (by omega), hzero', Nat.sub_zero, ← hvis, visited_cons, hnil,
          nil_append, append_nil, ite_self]
    · by_cases hlt : b.size < len
      · -- the whole block goes
        have hlt' := UInt32.lt_iff_toNat_lt.mp hlt
        have hsub : (len-b.size).toNat = len.toNat-b.size.toNat := toNat_sub_of_le (le_of_lt hlt')
        have hadd : trimmed+b.size + (len-b.size) = trimmed+len := by
          rw [UInt32.add_assoc, UInt32.add_comm b.size, UInt32.sub_add_cancel]
        obtain ⟨hwb,hsize,hdata⟩ := @netblockTrim_spec m b b.size fromHead hb le_rfl
        obtain ⟨l',hrun,hlen,hwl,hsum,hvis⟩ := @ih (len-b.size) (trimmed+b.size) hl (by omega) (by omega)
        have hnil : (netblockTrim b b.size fromHead).data m = [] := by
          rw [hdata, ← length_data m b, without_all]
        refine ⟨netblockTrim b b.size fromHead :: l', ?_, ?_, ?_, ?_, ?_⟩
        · rw [trimBlocks, if_neg hzero, if_pos hlt, hrun, hadd]
        · rw [length_cons, length_cons, hlen]
        · intro c hc
          rcases mem_cons.mp hc with rfl | hc
          · exact hwb
          · exact hwl c hc
        · rw [total_cons, total_cons, hsum, hsize, hsub]
          omega
        · rw [without_visited_of_le (le_of_lt hlt'), ← hsub, ← hvis, visited_cons, hnil,
            nil_append, append_nil, ite_self]
      · -- the rest comes off this block
        have hge : len.toNat ≤ b.size.toNat := by
          apply Nat.le_of_not_lt
          exact fun h => hlt (UInt32.lt_iff_toNat_lt.mpr h)
        obtain ⟨hwb,hsize,hdata⟩ := @netblockTrim_spec m b len fromHead hb hge
        refine ⟨netblockTrim b len fromHead :: l, ?_, ?_, ?_, ?_, ?_⟩
        · rw [trimBlocks, if_neg hzero, if_neg hlt]
        · rw [length_cons, length_cons]
        · intro c hc
          rcases mem_cons.mp hc with rfl | hc
          · exact hwb
          · exact hl c hc
        · rw [total_cons, total_cons, hsize]
          omega
        · rw [without_visited_of_ge hge, visited_cons, hdata]
          cases fromHead <;> rfl

theorem total_reverse (l : List NetBlockOp) : total NetBlockOp.size l.reverse = total NetBlockOp.size l := by
  simp [total]

theorem netbufTrim_exact (m : Memory) (hw : nbuf.WellFormed) (len : UInt32) (fromHead : Bool) :
    TrimExact m nbuf len fromHead := by
  unfold TrimExact netbufTrim
  by_cases hnone : len = 0 ∨ nbuf.totalSize = 0
  · refine ⟨nbuf, 0, if_pos hnone, ?_, hw, ?_⟩
    · have hmin : min len.toNat nbuf.totalSize.toNat = 0 := by
        rcases hnone with h | h
        · rw [h]
          exact Nat.zero_min _
        · rw [h]
          exact Nat.min_zero _
      rw [hmin]
      rfl
    · cases fromHead with
      | true => rfl
      | false => exact (take_of_length_le le_rfl).symm
  · generalize hn : (if nbuf.totalSize < len then nbuf.totalSize else len) = n
    have hmin := toNat_of_cut hn
    have hpos : 0 < n.toNat := by
      have h1 : len.toNat ≠ 0 := fun h => hnone (.inl (UInt32.toNat_inj.mp h))
      have h2 : nbuf.totalSize.toNat ≠ 0 := fun h => hnone (.inr (UInt32.toNat_inj.mp h))
      omega
    have hsub : (nbuf.totalSize-n).toNat = nbuf.totalSize.toNat-n.toNat := toNat_sub_of_le (by omega)
    -- the blocks in the order the loop visits them
    generalize hl : (if fromHead then nbuf.blockOp else nbuf.blockOp.reverse) = l
    have hwl : ∀ b ∈ l, b.WellFormed := by
      intro b hb
      rw [← hl] at hb
      apply hw.blocks
      cases fromHead with
      | true => exact hb
      | false => exact mem_reverse.mp hb
    have htotal : total NetBlockOp.size l = nbuf.totalSize.toNat := by
      rw [← hl, hw.totalSize_eq]
      cases fromHead with
      | true => rfl
      | false => exact total_reverse _
    have hback : (if fromHead then l else l.reverse) = nbuf.blockOp := by
      rw [← hl]
      cases fromHead with
      | true => rfl
      | false => exact reverse_reverse _
    obtain ⟨l',hrun,hlen,hwl',hsum,hvis⟩ := @trimBlocks_spec l m fromHead n 0 hwl hpos (by omega)
    refine ⟨⟨if fromHead then l' else l'.reverse, nbuf.totalSize-n⟩, n, ?_, hmin, ⟨?_, ?_, ?_⟩, ?_⟩
    · rw [if_neg hnone]
      dsimp only
      rw [hrun, UInt32.zero_add]
    · have hne : l' ≠ [] := by
        intro h
        apply hw.nonempty
        rw [← hback]
        rw [h, length_nil] at hlen
        rw [eq_nil_of_length_eq_zero hlen.symm]
        cases fromHead <;> rfl
      cases fromHead with
      | true => exact hne
      | false => exact fun h => hne (reverse_eq_nil_iff.mp h)
    · intro b hb
      apply hwl'
      cases fromHead with
      | true => exact hb
      | false => exact mem_reverse.mp hb
    · have hsum' : total NetBlockOp.size (if fromHead then l' else l'.reverse) =
          total NetBlockOp.size l' := by
        cases fromHead with
        | true => rfl
        | false => exact total_reverse _
      rw [hsum', hsum, htotal, hsub]
    · change visited m fromHead l' = _
      rw [hvis, visited, hback, contents]

/-- NET_HEADSPACE or NET_TAILSPACE. -/
def netSpace (fromHead : Bool) (b : NetBlockOp) : Nat := if fromHead then netHeadspace b else netTailspace b

/-- The block operator with `len` bytes more at one end. -/
def growBlock (b : NetBlockOp) (len : UInt32) (fromHead : Bool) : NetBlockOp :=
  if fromHead then { b with head := b.head-len.toNat, size := b.size + len }
  else { b with tail := b.tail+len.toNat, size := b.size + len }

/-- The block NetbufAllocSpace tries: the outermost one in use, or its outer neighbour where that
one has no room. -/
def allocIndex (nbuf : NetBuf) (len : UInt32) (fromHead : Bool) : Nat := if nbuf.totalSize = 0 then 0
  else
    let index := match netbufGetByte nbuf (if fromHead then 0 else nbuf.totalSize-1) with
      | none => 0
      | some (index,_) => index
    match nbuf.blockOp[index]? with
    | none => index
    | some b =>
      if fromHead then
        if index ≠ 0 ∧ netHeadspace b < len.toNat then index-1 else index
      else if netTailspace b < len.toNat ∧ index < nbuf.blockOp.length-1 then index+1
      else index

/-- NetbufAllocSpace: the address of the new bytes, or `none` where the block has no room. -/
def netbufAllocSpace (nbuf : NetBuf) (len : UInt32) (fromHead : Bool) :
    Except Fault (Option Nat × NetBuf) := let index := allocIndex nbuf len fromHead
  match nbuf.blockOp[index]? with
  | none => .error .outOfBounds
  | some b =>
    if netSpace fromHead b < len.toNat then .ok (none,nbuf)
    else
      .ok (some (if fromHead then b.head-len.toNat else b.tail),
        ⟨nbuf.blockOp.set index (growBlock b len fromHead), nbuf.totalSize+len⟩)

def Outermost (nbuf : NetBuf) (fromHead : Bool) (k : Nat) : Prop :=
  (∃ b, nbuf.blockOp[k]? = some b ∧ b.size ≠ 0) ∧
    ∀ j c, nbuf.blockOp[j]? = some c → c.size ≠ 0 → if fromHead then k ≤ j else j ≤ k

/-- There is room for `len` bytes at an end: in the block in use nearest to it, in that one's outer
neighbour, or, where no block is in use, in the first. -/
def HasRoom (nbuf : NetBuf) (len : UInt32) (fromHead : Bool) : Prop :=
  ∃ i b, nbuf.blockOp[i]? = some b ∧ len.toNat ≤ netSpace fromHead b ∧ (nbuf.totalSize = 0 ∧ i = 0 ∨
      ∃ k, Outermost nbuf fromHead k ∧ (i = k ∨ if fromHead then i+1 = k else i = k+1))

/-- Allocating space puts `len` bytes at the end it is asked to where there is room for them, and leaves the
buffer as it is where there is none. -/
def AllocSpaceExact (m : Memory) (nbuf : NetBuf) (len : UInt32) (fromHead : Bool) : Prop :=
  (¬HasRoom nbuf len fromHead → netbufAllocSpace nbuf len fromHead = .ok (none,nbuf)) ∧
    (HasRoom nbuf len fromHead →
      ∃ p nbuf', netbufAllocSpace nbuf len fromHead = .ok (some p, nbuf') ∧ nbuf'.WellFormed ∧
        contents m nbuf' = if fromHead then bytesAt m p len.toNat ++ contents m nbuf
          else contents m nbuf ++ bytesAt m p len.toNat)

theorem Outermost.unique {j k : Nat} (hj : Outermost nbuf fromHead j)
    (hk : Outermost nbuf fromHead k) : j = k := by
  obtain ⟨⟨b,hb,hbsize⟩,hjout⟩ := hj
  obtain ⟨⟨c,hc,hcsize⟩,hkout⟩ := hk
  have h1 := hjout k c hc hcsize
  have h2 := hkout j b hb hbsize
  cases fromHead with
  | true => exact le_antisymm h1 h2
  | false => exact le_antisymm h2 h1

theorem size_eq_zero_of_total (hb : b ∈ l) (h : total NetBlockOp.size l = 0) : b.size = 0 := by
  have hle : b.size.toNat ≤ 0 := by
    rw [← h]
    exact size_le_total hb
  exact UInt32.toNat_inj.mp (Nat.le_zero.mp hle)

theorem getByte_outermost (hw : nbuf.WellFormed) (hne : nbuf.totalSize ≠ 0) (fromHead : Bool) :
    ∃ pre b post p, nbuf.blockOp = pre ++ b :: post ∧ b.size ≠ 0 ∧
      netbufGetByte nbuf (if fromHead then 0 else nbuf.totalSize-1) = some (pre.length,p) ∧
      total NetBlockOp.size (if fromHead then pre else post) = 0 := by
  have hpos : nbuf.totalSize.toNat ≠ 0 := fun h => hne (UInt32.toNat_inj.mp h)
  have hone : (nbuf.totalSize-1).toNat = nbuf.totalSize.toNat-1 :=
    toNat_sub_of_le (Nat.one_le_iff_ne_zero.mpr hpos)
  generalize hoff : (if fromHead then 0 else nbuf.totalSize-1) = offset
  have hval : offset.toNat = if fromHead then 0 else nbuf.totalSize.toNat-1 := by
    rw [← hoff]
    cases fromHead with
    | true => rfl
    | false => exact hone
  have hlt : offset.toNat < nbuf.totalSize.toNat := by cases fromHead <;> simp at hval <;> omega
  obtain ⟨pre,b,post,cur,hblk,hseek,hcur,hle,hgt⟩ := hw.seek_spec hlt false
  have htotal := hw.totalSize_eq
  rw [hblk, total_append, total_cons] at htotal
  refine ⟨pre, b, post, b.head + (offset-cur).toNat, hblk, ?_, ?_, ?_⟩
  · intro h
    rw [h] at hgt
    exact absurd hgt (not_lt.mpr hle)
  · rw [netbufGetByte, if_neg, hseek]
    exact fun h => absurd (UInt32.le_iff_toNat_le.mp h) (not_le.mpr hlt)
  · cases fromHead with
    | true =>
      rw [if_pos rfl] at hval ⊢
      omega
    | false =>
      rw [if_neg Bool.false_ne_true] at hval ⊢
      omega

theorem outermost_of_split {pre post : List NetBlockOp}
    (hblk : nbuf.blockOp = pre ++ b :: post) (hb : b.size ≠ 0)
    (hzero : total NetBlockOp.size (if fromHead then pre else post) = 0) :
    Outermost nbuf fromHead pre.length := by
  refine ⟨⟨b, by simp [hblk], hb⟩, ?_⟩
  intro j c hc hcsize
  rw [hblk] at hc
  cases fromHead with
  | true =>
    apply Nat.le_of_not_lt
    intro hj
    rw [getElem?_append_left hj] at hc
    exact hcsize (size_eq_zero_of_total (mem_of_getElem? hc) hzero)
  | false =>
    apply Nat.le_of_not_lt
    intro hj
    rw [getElem?_append_right (le_of_lt hj), getElem?_cons,
      if_neg (Nat.sub_ne_zero_of_lt hj)] at hc
    exact hcsize (size_eq_zero_of_total (mem_of_getElem? hc) hzero)

/-- The block that is tried: nothing lies outside it, and it has room where any candidate has. -/
structure Tried (nbuf : NetBuf) (len : UInt32) (fromHead : Bool) (pre : List NetBlockOp) (b : NetBlockOp)
    (post : List NetBlockOp) : Prop where
  blocks : nbuf.blockOp = pre ++ b :: post
  index : allocIndex nbuf len fromHead = pre.length
  outer : total NetBlockOp.size (if fromHead then pre else post) = 0
  room_iff : len.toNat ≤ netSpace fromHead b ↔ HasRoom nbuf len fromHead

/-- Every block is empty and the first is tried. -/
theorem tried_first {len : UInt32} (hw : nbuf.WellFormed) (hempty : nbuf.totalSize = 0) :
    ∃ b post, Tried nbuf len fromHead [] b post := by
  obtain ⟨b,post,hblk⟩ := exists_cons_of_ne_nil hw.nonempty
  have htotal := hw.totalSize_eq
  have hzero : nbuf.totalSize.toNat = 0 := by rw [hempty]; rfl
  rw [hblk, total_cons] at htotal
  refine ⟨b, post, hblk, by rw [allocIndex, if_pos hempty]; rfl, ?_,
    fun h => ⟨0, b, by simp [hblk], h, .inl ⟨hempty, rfl⟩⟩, ?_⟩
  · cases fromHead with
    | true => rfl
    | false =>
      rw [if_neg Bool.false_ne_true]
      omega
  · rintro ⟨i,c,hc,hroom,⟨-,rfl⟩ | ⟨k,⟨⟨d,hd,hdsize⟩,-⟩,-⟩⟩
    · rw [hblk, getElem?_cons_zero] at hc
      rw [Option.some.inj hc]
      exact hroom
    · refine absurd (size_eq_zero_of_total (mem_of_getElem? hd) ?_) hdsize
      rw [← hw.totalSize_eq, hzero]

section
variable {len : UInt32} {pre post : List NetBlockOp} (hempty : nbuf.totalSize ≠ 0)
  (hblk : nbuf.blockOp = pre ++ b :: post) (hout : Outermost nbuf fromHead pre.length)
include hempty hblk hout

/-- Where the block in use nearest to the end has no room, its outer neighbour is the one candidate. -/
theorem hasRoom_iff_outer (hroom : ¬ len.toNat ≤ netSpace fromHead b) : HasRoom nbuf len fromHead ↔
      ∃ i c, nbuf.blockOp[i]? = some c ∧ len.toNat ≤ netSpace fromHead c ∧
        if fromHead then i+1 = pre.length else i = pre.length+1 := by
  constructor
  · rintro ⟨i,c,hc,hspace,⟨h,-⟩ | ⟨k,hk,h⟩⟩
    · exact absurd h hempty
    rw [hk.unique hout] at h
    rcases h with rfl | h
    · rw [hblk] at hc
      simp only [getElem?_append_right le_rfl, Nat.sub_self, getElem?_cons_zero, Option.some.injEq] at hc
      exact absurd (hc ▸ hspace) hroom
    · exact ⟨i, c, hc, hspace, h⟩
  · rintro ⟨i,c,hc,hspace,h⟩
    exact ⟨i, c, hc, hspace, .inr ⟨_, hout, .inr h⟩⟩

theorem tried_of_no_room (hidx : allocIndex nbuf len fromHead = if fromHead then
        if pre.length ≠ 0 ∧ netHeadspace b < len.toNat then pre.length-1 else pre.length
      else if netTailspace b < len.toNat ∧ pre.length < nbuf.blockOp.length-1 then pre.length+1 else pre.length)
    (hzero : total NetBlockOp.size (if fromHead then pre else post) = 0)
    (hroom : ¬ len.toNat ≤ netSpace fromHead b) : ∃ pre b post, Tried nbuf len fromHead pre b post := by
  have houter := hasRoom_iff_outer hempty hblk hout hroom
  cases fromHead with
  | true =>
    simp only [if_true] at hidx hzero houter
    have hlt : netHeadspace b < len.toNat := Nat.lt_of_not_le hroom
    rcases eq_nil_or_concat pre with rfl | ⟨pre,a,rfl⟩
    · refine ⟨[], b, post, hblk, by rw [hidx, if_neg (by simp)], rfl, fun h => absurd h hroom, fun h => ?_⟩
      obtain ⟨i,-,-,-,hi⟩ := houter.mp h
      exact absurd hi (Nat.succ_ne_zero i)
    rw [concat_eq_append] at *
    rw [total_append] at hzero
    have hsplit : nbuf.blockOp = pre ++ a :: b :: post := by simp [hblk]
    have hata : nbuf.blockOp[pre.length]? = some a := by simp [hsplit]
    refine ⟨pre, a, b :: post, hsplit, ?_, ?_, fun h => houter.mpr ⟨_, a, hata, h, by simp⟩, fun h => ?_⟩
    · rw [hidx, if_pos ⟨by simp, hlt⟩]
      simp
    · rw [if_pos rfl]
      omega
    · obtain ⟨i,c,hc,hspace,hi⟩ := houter.mp h
      rw [show i = pre.length by simpa using hi, hata] at hc
      rw [Option.some.inj hc]
      exact hspace
  | false =>
    simp only [Bool.false_eq_true, if_false] at hidx hzero houter
    have hlt : netTailspace b < len.toNat := Nat.lt_of_not_le hroom
    cases post with
    | nil =>
      refine ⟨pre, b, [], hblk, by rw [hidx, if_neg (by simp [hblk])], rfl, fun h => absurd h hroom, fun h => ?_⟩
      obtain ⟨i,c,hc,-,rfl⟩ := houter.mp h
      simp [hblk] at hc
    | cons a post =>
      rw [total_cons] at hzero
      have hsplit : nbuf.blockOp = (pre ++ [b]) ++ a :: post := by simp [hblk]
      have hata : nbuf.blockOp[pre.length+1]? = some a := by simp [hblk]
      refine ⟨pre ++ [b], a, post, hsplit, ?_, ?_, fun h => houter.mpr ⟨_, a, hata, h, rfl⟩, fun h => ?_⟩
      · rw [hidx, if_pos ⟨hlt, by simp [hblk]⟩]
        simp
      · rw [if_neg Bool.false_ne_true]
        omega
      · obtain ⟨i,c,hc,hspace,rfl⟩ := houter.mp h
        rw [hata] at hc
        rw [Option.some.inj hc]
        exact hspace

end

theorem allocIndex_spec (hw : nbuf.WellFormed) (len : UInt32) (fromHead : Bool) :
    ∃ pre b post, Tried nbuf len fromHead pre b post := by
  by_cases hempty : nbuf.totalSize = 0
  · exact ⟨[], tried_first hw hempty⟩
  obtain ⟨pre,b,post,p,hblk,hb,hget,hzero⟩ := getByte_outermost hw hempty fromHead
  have hout := outermost_of_split hblk hb hzero
  have hat : nbuf.blockOp[pre.length]? = some b := by simp [hblk]
  have hidx : allocIndex nbuf len fromHead = if fromHead then
        if pre.length ≠ 0 ∧ netHeadspace b < len.toNat then pre.length-1 else pre.length
      else if netTailspace b < len.toNat ∧ pre.length < nbuf.blockOp.length-1 then
        pre.length+1
      else pre.length := by
    rw [allocIndex, if_neg hempty, hget]
    dsimp only
    rw [hat]
  by_cases hroom : len.toNat ≤ netSpace fromHead b
  · refine ⟨pre, b, post, hblk, ?_, hzero, fun h => ⟨_, b, hat, h, .inr ⟨_, hout, .inl rfl⟩⟩, fun _ => hroom⟩
    rw [hidx]
    cases fromHead with
    | true => rw [if_pos rfl, if_neg fun h => absurd hroom (not_le.mpr h.2)]
    | false => rw [if_neg Bool.false_ne_true, if_neg fun h => absurd hroom (not_le.mpr h.1)]
  · exact tried_of_no_room hempty hblk hout hidx hzero hroom

theorem growBlock_size (b : NetBlockOp) (len : UInt32) (fromHead : Bool) :
    (growBlock b len fromHead).size = b.size+len := by cases fromHead <;> rfl

theorem growBlock_wellFormed_iff {len : UInt32}
    (hb : b.WellFormed) (hroom : len.toNat ≤ netSpace fromHead b) :
    (growBlock b len fromHead).WellFormed ↔ (b.size+len).toNat = b.size.toNat+len.toNat := by
  have hhead := hb.head_le
  have htail := hb.tail_eq
  have hle := hb.tail_le
  cases fromHead with
  | true =>
    have hspace : len.toNat ≤ b.head-b.blockHead := hroom
    constructor
    · intro h
      have heq : b.tail = b.head-len.toNat + (b.size+len).toNat := h.tail_eq
      omega
    · intro h
      refine ⟨?_, ?_, hle⟩
      · change b.blockHead ≤ b.head-len.toNat
        omega
      · change b.tail = b.head-len.toNat + (b.size+len).toNat
        omega
  | false =>
    have hspace : len.toNat ≤ b.blockTail-b.tail := hroom
    constructor
    · intro h
      have heq : b.tail+len.toNat = b.head + (b.size+len).toNat := h.tail_eq
      omega
    · intro h
      refine ⟨hhead, ?_, ?_⟩
      · change b.tail + len.toNat = b.head + (b.size+len).toNat
        omega
      · change b.tail + len.toNat ≤ b.blockTail
        omega

theorem data_growBlock (m : Memory) {len : UInt32}
    (hb : b.WellFormed) (hroom : len.toNat ≤ netSpace fromHead b)
    (hsize : (b.size+len).toNat = b.size.toNat+len.toNat) : (growBlock b len fromHead).data m =
      if fromHead then bytesAt m (b.head-len.toNat) len.toNat ++ b.data m
      else b.data m ++ bytesAt m b.tail len.toNat := by
  cases fromHead with
  | true =>
    have hspace : len.toNat ≤ b.head-b.blockHead := hroom
    have hback : b.head-len.toNat + len.toNat = b.head := by omega
    change bytesAt m (b.head-len.toNat) (b.size+len).toNat = _
    rw [hsize, add_comm, bytesAt_add, hback]
    rfl
  | false =>
    change bytesAt m b.head (b.size+len).toNat = _
    rw [hsize, bytesAt_add, ← hb.tail_eq]
    rfl

/-- It does so exactly when there is no room for the bytes or the size can count them. -/
theorem netbufAllocSpace_exact_iff (m : Memory) (hw : nbuf.WellFormed) (len : UInt32)
    (fromHead : Bool) : AllocSpaceExact m nbuf len fromHead ↔
      (HasRoom nbuf len fromHead → nbuf.totalSize.toNat+len.toNat < 2^32) := by
  obtain ⟨pre,b,post,hblk,hidx,hzero,hroom⟩ := allocIndex_spec hw len fromHead
  have hat : nbuf.blockOp[pre.length]? = some b := by simp [hblk]
  have hset : nbuf.blockOp.set pre.length (growBlock b len fromHead) =
      pre ++ growBlock b len fromHead :: post := by simp [hblk]
  have hb : b.WellFormed := hw.blocks b (by simp [hblk])
  have htotal := hw.totalSize_eq
  rw [hblk, total_append, total_cons] at htotal
  rw [AllocSpaceExact, ← hroom]
  by_cases hspace : len.toNat ≤ netSpace fromHead b
  · have hrun : netbufAllocSpace nbuf len fromHead =
        .ok (some (if fromHead then b.head-len.toNat else b.tail),
          ⟨pre ++ growBlock b len fromHead :: post, nbuf.totalSize+len⟩) := by
      rw [netbufAllocSpace, hidx, hat]
      dsimp only
      rw [if_neg (not_lt.mpr hspace), hset]
    constructor
    · intro hexact _
      obtain ⟨p,nbuf',h,hw',-⟩ := hexact.2 hspace
      rw [hrun] at h
      injection h with h
      injection h with hp hn
      rw [← hn] at hw'
      have hgrown := (growBlock_wellFormed_iff hb hspace).mp
        (hw'.blocks (growBlock b len fromHead) (by simp))
      have hsum : (nbuf.totalSize+len).toNat =
          total NetBlockOp.size (pre ++ growBlock b len fromHead :: post) := hw'.totalSize_eq
      rw [total_append, total_cons, growBlock_size, hgrown] at hsum
      have hlt := (nbuf.totalSize+len).toNat_lt
      omega
    · intro h
      have hfit := h hspace
      have hsize : (b.size+len).toNat = b.size.toNat+len.toNat := toNat_add_of_lt (by omega)
      have hsum : (nbuf.totalSize+len).toNat = nbuf.totalSize.toNat+len.toNat := toNat_add_of_lt hfit
      refine ⟨fun hn => absurd hspace hn, fun _ => ⟨_, _, hrun, ⟨by simp, ?_, ?_⟩, ?_⟩⟩
      · intro c hc
        rcases mem_append.mp hc with hc | hc
        · exact hw.blocks c (by rw [hblk]; exact mem_append_left _ hc)
        · rcases mem_cons.mp hc with rfl | hc
          · exact (growBlock_wellFormed_iff hb hspace).mpr hsize
          · exact hw.blocks c (by rw [hblk]; simp [hc])
      · rw [hsum, total_append, total_cons, growBlock_size, hsize]
        omega
      · have hdata := data_growBlock m hb hspace hsize
        rw [contents, contents, flatMap_append, flatMap_cons, hdata, hblk, flatMap_append, flatMap_cons]
        cases fromHead with
        | true =>
          have hnil : pre.flatMap (NetBlockOp.data m) = [] := by
            apply eq_nil_of_length_eq_zero
            rw [length_blocks]
            exact hzero
          simp [hnil]
        | false =>
          have hnil : post.flatMap (NetBlockOp.data m) = [] := by
            apply eq_nil_of_length_eq_zero
            rw [length_blocks]
            exact hzero
          simp [hnil]
  · refine ⟨fun _ h => absurd h hspace, fun _ => ⟨fun _ => ?_, fun h => absurd h hspace⟩⟩
    rw [netbufAllocSpace, hidx, hat]
    dsimp only
    rw [if_pos (Nat.lt_of_not_le hspace)]

end Liano.Net
