import Liano.Net.NetBuffer

/-! NetbufGetFragment: a net buffer over a part of the bytes of another, without a copy. The sum
`Offset + Len` that it compares with the total size is a 32-bit one. -/
namespace Liano.Net

open Memory List

variable {nbuf : NetBuf} {m : Memory}

/-- The loop that looks for the block the fragment ends in: the blocks between, the last one and
`LastLen`. -/
def lastBlock (fragmentEnd : UInt32) :
    List NetBlockOp → UInt32 → Option (List NetBlockOp × NetBlockOp × UInt32)
  | [], _ => none
  | b :: bs, cur =>
    if fragmentEnd ≤ cur+b.size then some ([], b, fragmentEnd-cur)
    else
      match lastBlock fragmentEnd bs (cur+b.size) with
      | none => none
      | some (between,last,lastLen) => some (b :: between, last, lastLen)

/-- The child, where NetbufAllocStruct (`allocated`) and AllocatePool (`pool`) give it memory. -/
def fragmentChild (ops : List NetBlockOp) (len headSpace : UInt32) (allocated : Bool)
    (pool : Option Nat) : Option NetBuf := if allocated = false then none
  else if headSpace = 0 then some ⟨ops, len⟩
  else
    match pool with
    | none => none
    | some firstBulk =>
      some ⟨{ netbufSetBlockOp firstBulk headSpace with
        head := firstBulk+headSpace.toNat, size := 0 } :: ops, len⟩

def netbufGetFragment (nbuf : NetBuf) (offset len headSpace : UInt32) (allocated : Bool)
    (pool : Option Nat) : Except Fault (Option NetBuf) :=
  if len = 0 ∨ nbuf.totalSize < offset+len then .ok none
  else
    match seek NetBlockOp.size false offset nbuf.blockOp 0 0 with
    | (_, _, []) => .error .outOfBounds
    | (first, cur, b :: rest) =>
      let firstSkip := offset-cur
      let firstLen := b.size-firstSkip
      if firstLen < len then
        match lastBlock (offset+len) rest (cur+b.size) with
        | none =>
          -- Last and LastLen keep their initial 0
          if first = 0 then
            .ok (fragmentChild [netbufSetBlockOp (b.head+firstSkip.toNat) firstLen] len
              headSpace allocated pool)
          else .error .assertion
        | some (between,last,lastLen) =>
          .ok (fragmentChild (netbufSetBlockOp (b.head+firstSkip.toNat) firstLen ::
              (between.map fun c => netbufSetBlockOp c.head c.size) ++
                [netbufSetBlockOp last.head lastLen]) len headSpace allocated pool)
      else
        .ok (fragmentChild [netbufSetBlockOp (b.head+firstSkip.toNat) len] len headSpace allocated pool)

/-- The first block has `headSpace` bytes free before its data. -/
def HeadSpaceFree (nbuf : NetBuf) (headSpace : UInt32) : Prop :=
  nbuf.blockOp.head?.map netHeadspace = some headSpace.toNat

/-- A fragment holds the bytes asked for; there is none where they are not all there, or where an
allocation fails. -/
def GetFragmentExact (m : Memory) (nbuf : NetBuf) (offset len headSpace : UInt32) : Prop :=
  ∀ (allocated : Bool) (pool : Option Nat), if len = 0 ∨ nbuf.totalSize.toNat < offset.toNat+len.toNat then
      netbufGetFragment nbuf offset len headSpace allocated pool = .ok none
    else if allocated = true ∧ (headSpace = 0 ∨ pool.isSome = true) then
      ∃ child, netbufGetFragment nbuf offset len headSpace allocated pool = .ok (some child) ∧
        child.WellFormed ∧ HeadSpaceFree child headSpace ∧
        contents m child = Bytes.slice (contents m nbuf) offset.toNat len.toNat
    else netbufGetFragment nbuf offset len headSpace allocated pool = .ok none

def EndWraps (nbuf : NetBuf) (offset len : UInt32) : Prop :=
  len ≠ 0 ∧ 2^32 ≤ offset.toNat+len.toNat ∧ offset.toNat+len.toNat - 2^32 ≤ nbuf.totalSize.toNat

/-- The blocks of a child: each is all data and together they are the `len` bytes `s`. -/
structure FragmentOps (m : Memory) (ops : List NetBlockOp) (len : UInt32) (s : Bytes) : Prop where
  nonempty : ops ≠ []
  blocks : ∀ b ∈ ops, ∃ p n, b = netbufSetBlockOp p n
  total_eq : total NetBlockOp.size ops = len.toNat
  data_eq : ops.flatMap (NetBlockOp.data m) = s

variable {len headSpace : UInt32}

theorem FragmentOps.child {ops : List NetBlockOp} {s : Bytes}
    (h : FragmentOps m ops len s) {allocated : Bool} {pool : Option Nat}
    (hmem : allocated = true ∧ (headSpace = 0 ∨ pool.isSome = true)) :
    ∃ child, fragmentChild ops len headSpace allocated pool = some child ∧ child.WellFormed ∧
      HeadSpaceFree child headSpace ∧ contents m child = s := by
  have hblk : ∀ b ∈ ops, b.WellFormed := by
    intro b hb
    obtain ⟨p,n,rfl⟩ := h.blocks b hb
    exact netbufSetBlockOp_wellFormed p n
  unfold fragmentChild
  rw [hmem.1, if_neg (by decide)]
  by_cases hzero : headSpace = 0
  · refine ⟨⟨ops, len⟩, if_pos hzero, ⟨h.nonempty, hblk, h.total_eq.symm⟩, ?_, h.data_eq⟩
    obtain ⟨b,rest,rfl⟩ := exists_cons_of_ne_nil h.nonempty
    obtain ⟨p,n,rfl⟩ := h.blocks b (mem_cons_self ..)
    rw [HeadSpaceFree, head?_cons, Option.map_some, hzero]
    exact congrArg some (Nat.sub_self p)
  obtain ⟨firstBulk,rfl⟩ := Option.isSome_iff_exists.mp (hmem.2.resolve_left hzero)
  refine ⟨_, if_neg hzero, ⟨by simp, ?_, ?_⟩, ?_, ?_⟩
  · intro b hb
    rcases mem_cons.mp hb with rfl | hb
    · exact ⟨Nat.le_add_right _ _, rfl, le_rfl⟩
    · exact hblk b hb
  · rw [total_cons, h.total_eq]
    exact (zero_add _).symm
  · rw [HeadSpaceFree, head?_cons, Option.map_some]
    exact congrArg some (Nat.add_sub_cancel_left ..)
  · rw [contents, flatMap_cons, h.data_eq]
    rfl

theorem fragmentChild_none {ops : List NetBlockOp} {allocated : Bool}
    {pool : Option Nat} (hmem : ¬ (allocated = true ∧ (headSpace = 0 ∨ pool.isSome = true))) :
    fragmentChild ops len headSpace allocated pool = none := by
  unfold fragmentChild
  cases allocated with
  | false => rfl
  | true =>
    have hzero : headSpace ≠ 0 := fun h => hmem ⟨rfl, .inl h⟩
    cases pool with
    | none => rw [if_neg (by decide), if_neg hzero]
    | some p => exact absurd ⟨rfl, .inr rfl⟩ hmem

theorem lastBlock_spec (m : Memory) {fragmentEnd : UInt32} {l : List NetBlockOp} {cur : UInt32}
    (hcur : cur.toNat < fragmentEnd.toNat)
    (hle : fragmentEnd.toNat ≤ cur.toNat + total NetBlockOp.size l)
    (hfit : cur.toNat + total NetBlockOp.size l < 2^32) :
    ∃ between last lastLen, lastBlock fragmentEnd l cur = some (between,last,lastLen) ∧
      total NetBlockOp.size between + lastLen.toNat = fragmentEnd.toNat-cur.toNat ∧
      between.flatMap (NetBlockOp.data m) ++ bytesAt m last.head lastLen.toNat =
        (l.flatMap (NetBlockOp.data m)).take (fragmentEnd.toNat-cur.toNat) := by
  induction l generalizing cur with
  | nil =>
    rw [total_nil] at hle
    exact absurd hle (by omega)
  | cons b l ih =>
    rw [total_cons] at hle hfit
    have hadd : (cur+b.size).toNat = cur.toNat+b.size.toNat := toNat_add_of_lt (by omega)
    by_cases hin : fragmentEnd ≤ cur+b.size
    · have hin' := UInt32.le_iff_toNat_le.mp hin
      have hsub : (fragmentEnd-cur).toNat = fragmentEnd.toNat-cur.toNat := toNat_sub_of_le (le_of_lt hcur)
      refine ⟨[], b, fragmentEnd-cur, ?_, ?_, ?_⟩
      · rw [lastBlock, if_pos hin]
      · rw [total_nil, hsub, zero_add]
      · rw [hsub, flatMap_nil, nil_append, flatMap_cons,
          take_append_of_le_length (by rw [length_data]; omega), NetBlockOp.data, take_bytesAt m _ (by omega)]
    · have hout : (cur+b.size).toNat < fragmentEnd.toNat := by
        apply Nat.lt_of_not_le
        exact fun h => hin (UInt32.le_iff_toNat_le.mpr h)
      obtain ⟨between,last,lastLen,hrun,hsum,hdata⟩ := @ih (cur+b.size) hout (by omega) (by omega)
      refine ⟨b :: between, last, lastLen, ?_, ?_, ?_⟩
      · rw [lastBlock, if_neg hin, hrun]
      · rw [total_cons]
        omega
      · have hrest : fragmentEnd.toNat-cur.toNat-b.size.toNat =
            fragmentEnd.toNat - (cur+b.size).toNat := by omega
        have hfst : (b.data m).take (fragmentEnd.toNat-cur.toNat) = b.data m := by
          apply take_of_length_le
          rw [length_data]
          omega
        rw [flatMap_cons, flatMap_cons, append_assoc, hdata, take_append, length_data, hfst, hrest]

theorem netbufGetFragment_run (m : Memory) (hw : nbuf.WellFormed) {offset : UInt32}
    (hlen : len ≠ 0) (hle : offset.toNat+len.toNat ≤ nbuf.totalSize.toNat) (headSpace : UInt32)
    (allocated : Bool) (pool : Option Nat) :
    ∃ ops, FragmentOps m ops len (Bytes.slice (contents m nbuf) offset.toNat len.toNat) ∧
      netbufGetFragment nbuf offset len headSpace allocated pool =
        .ok (fragmentChild ops len headSpace allocated pool) := by
  have hpos : len.toNat ≠ 0 := fun h => hlen (UInt32.toNat_inj.mp h)
  have hlt32 := nbuf.totalSize.toNat_lt
  have hend : (offset+len).toNat = offset.toNat+len.toNat := toNat_add_of_lt (by omega)
  have hchk : ¬ (len = 0 ∨ nbuf.totalSize < offset+len) := by
    rintro (h | h)
    · exact hlen h
    · have h' := UInt32.lt_iff_toNat_lt.mp h
      omega
  obtain ⟨pre,b,post,cur,hseek,hcurle,hskip,hfst,hgt,htotal,hdrop⟩ :=
    @NetBuf.WellFormed.seek_drop _ m hw offset (by omega) false
  unfold netbufGetFragment
  rw [if_neg hchk, hseek]
  dsimp only
  by_cases hmore : b.size - (offset-cur) < len
  · -- the fragment goes on in later blocks
    have hmore' := UInt32.lt_iff_toNat_lt.mp hmore
    have hadd : (cur+b.size).toNat = cur.toNat+b.size.toNat := toNat_add_of_lt (by omega)
    obtain ⟨between,last,lastLen,hrun,hsum,hdata⟩ :=
      @lastBlock_spec m (offset+len) post (cur+b.size) (by omega) (by omega) (by omega)
    have hcopy : (between.map fun c => netbufSetBlockOp c.head c.size).flatMap
        (NetBlockOp.data m) = between.flatMap (NetBlockOp.data m) := by
      rw [flatMap_map]
      rfl
    have hsame : total NetBlockOp.size (between.map fun c => netbufSetBlockOp c.head c.size) =
        total NetBlockOp.size between := by
      rw [total, map_map]
      rfl
    rw [if_pos hmore, hrun]
    refine ⟨_, ⟨by simp, ?_, ?_, ?_⟩, rfl⟩
    · intro c hc
      rcases mem_append.mp hc with hc | hc
      · rcases mem_cons.mp hc with rfl | hc
        · exact ⟨_, _, rfl⟩
        · obtain ⟨d,-,rfl⟩ := mem_map.mp hc
          exact ⟨_, _, rfl⟩
      · rw [mem_singleton.mp hc]
        exact ⟨_, _, rfl⟩
    · rw [total_append, total_cons, total_cons, total_nil, hsame, netbufSetBlockOp_size,
        netbufSetBlockOp_size]
      omega
    · have hrest : (offset+len).toNat - (cur+b.size).toNat =
          len.toNat - (b.size - (offset-cur)).toNat := by omega
      have hall : (bytesAt m (b.head + (offset-cur).toNat) (b.size - (offset-cur)).toNat).take len.toNat =
          bytesAt m (b.head + (offset-cur).toNat) (b.size - (offset-cur)).toNat := by
        apply take_of_length_le
        rw [length_bytesAt]
        exact le_of_lt hmore'
      rw [Bytes.slice, hdrop, take_append, hall, length_bytesAt, ← hrest, ← hdata,
        flatMap_append, flatMap_cons, flatMap_singleton, hcopy,
        data_netbufSetBlockOp, data_netbufSetBlockOp, append_assoc]
  · have hfits : len.toNat ≤ (b.size - (offset-cur)).toNat := by
      apply Nat.le_of_not_lt
      exact fun h => hmore (UInt32.lt_iff_toNat_lt.mpr h)
    rw [if_neg hmore]
    refine ⟨_, ⟨by simp, ?_, ?_, ?_⟩, rfl⟩
    · intro c hc
      rw [mem_singleton.mp hc]
      exact ⟨_, _, rfl⟩
    · rw [total_cons, total_nil, netbufSetBlockOp_size, add_zero]
    · rw [Bytes.slice, hdrop, take_append_of_le_length (by rw [length_bytesAt]; exact hfits),
        take_bytesAt m _ hfits, flatMap_singleton, data_netbufSetBlockOp]

theorem netbufGetFragment_ne_none {offset : UInt32} (h : ¬ (len = 0 ∨ nbuf.totalSize < offset+len)) :
    netbufGetFragment nbuf offset len headSpace true (some 0) ≠ .ok none := by
  have hchild : ∀ ops, fragmentChild ops len headSpace true (some 0) ≠ none := by
    intro ops
    unfold fragmentChild
    rw [if_neg (by decide)]
    split <;> exact fun h => nomatch h
  have hok : ∀ ops, (Except.ok (fragmentChild ops len headSpace true (some 0)) :
      Except Fault (Option NetBuf)) ≠ .ok none := by
    intro ops heq
    injection heq with heq
    exact hchild ops heq
  unfold netbufGetFragment
  rw [if_neg h]
  split
  · exact fun h => nomatch h
  dsimp only
  split
  · split
    · split
      · exact hok _
      · exact fun h => nomatch h
    · exact hok _
  · exact hok _

theorem netbufGetFragment_exact_iff (m : Memory) (hw : nbuf.WellFormed)
    (offset len headSpace : UInt32) :
    GetFragmentExact m nbuf offset len headSpace ↔ ¬ EndWraps nbuf offset len := by
  have hsum : (offset+len).toNat = (offset.toNat+len.toNat) % 2^32 := UInt32.toNat_add ..
  have hoff := offset.toNat_lt
  have hlen := len.toNat_lt
  constructor
  · rintro h ⟨hne,hwrap,hle⟩
    have hnone := h true (some 0)
    have hlt := nbuf.totalSize.toNat_lt
    rw [if_pos (.inr (by omega))] at hnone
    refine netbufGetFragment_ne_none ?_ hnone
    rintro (h | h)
    · exact hne h
    · have h' := UInt32.lt_iff_toNat_lt.mp h
      omega
  · intro h allocated pool
    by_cases hout : len = 0 ∨ nbuf.totalSize.toNat < offset.toNat+len.toNat
    · rw [if_pos hout, netbufGetFragment, if_pos]
      rcases hout with hzero | hout
      · exact .inl hzero
      by_cases hzero : len = 0
      · exact .inl hzero
      refine .inr (UInt32.lt_iff_toNat_lt.mpr ?_)
      by_cases hwrap : 2^32 ≤ offset.toNat+len.toNat
      · have hgt : ¬ offset.toNat + len.toNat - 2^32 ≤ nbuf.totalSize.toNat := fun hle =>
          h ⟨hzero, hwrap, hle⟩
        omega
      · omega
    · have hne : len ≠ 0 := fun h => hout (.inl h)
      have hle : offset.toNat+len.toNat ≤ nbuf.totalSize.toNat := Nat.le_of_not_lt fun h => hout (.inr h)
      obtain ⟨ops,hops,hrun⟩ := netbufGetFragment_run m hw hne hle headSpace allocated pool
      rw [if_neg hout, hrun]
      by_cases hmem : allocated = true ∧ (headSpace = 0 ∨ pool.isSome = true)
      · rw [if_pos hmem]
        obtain ⟨child,hchild,hrest⟩ := hops.child hmem
        exact ⟨child, congrArg Except.ok hchild, hrest⟩
      · rw [if_neg hmem, fragmentChild_none hmem]

end Liano.Net
