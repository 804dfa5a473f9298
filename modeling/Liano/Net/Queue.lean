import Liano.Net.FromExt
import Liano.Net.Resize

/-! Queues of net buffers, and the whole interface: a net buffer is the byte string it holds, as
long as no 32-bit sum wraps and no header ends inside a fragment. -/
namespace Liano.Net

open List hiding min

open Memory

structure NetBufQueue where
  bufList : List NetBuf
  bufSize : UInt32
  bufNum : UInt32
deriving DecidableEq, Repr

def queContents (m : Memory) (que : NetBufQueue) : Bytes := que.bufList.flatMap (contents m)

structure NetBufQueue.WellFormed (que : NetBufQueue) : Prop where
  buffers : ∀ nbuf ∈ que.bufList, nbuf.WellFormed
  bufSize_eq : que.bufSize.toNat = total NetBuf.totalSize que.bufList
  bufNum_eq : que.bufNum.toNat = que.bufList.length

variable {m : Memory} {que : NetBufQueue} {l : List NetBuf} {len : UInt32}

theorem length_buffers (m : Memory) (hw : ∀ nbuf ∈ l, nbuf.WellFormed) :
    (l.flatMap (contents m)).length = total NetBuf.totalSize l :=
  length_flatMap_total fun nbuf h => (hw nbuf h).length_contents m

def queCopyRest (m : Memory) : List NetBuf → UInt32 → Except Fault (UInt32 × Bytes)
  | [], _ => .ok (0, [])
  | nbuf :: rest, len =>
    if len = 0 then .ok (0, [])
    else if nbuf.totalSize < len then
      match netbufCopy m nbuf 0 nbuf.totalSize with
      | .error fault => .error fault
      | .ok (_,s) =>
        match queCopyRest m rest (len-nbuf.totalSize) with
        | .error fault => .error fault
        | .ok (copied,t) => .ok (nbuf.totalSize+copied, s ++ t)
    else
      match netbufCopy m nbuf 0 len with
      | .error fault => .error fault
      | .ok (_,s) => .ok (len,s)

/-- NetbufQueCopy. The loop leaves by its break, as there are `BufSize` bytes in the list. -/
def netbufQueCopy (m : Memory) (que : NetBufQueue) (offset len : UInt32) :
    Except Fault (UInt32 × Bytes) := if len = 0 ∨ que.bufSize ≤ offset then .ok (0, [])
  else
    let len := if que.bufSize-offset < len then que.bufSize-offset else len
    match seek NetBuf.totalSize false offset que.bufList 0 0 with
    | (_, _, []) => .error .assertion
    | (_, cur, nbuf :: rest) =>
      let skip := offset-cur
      let left := nbuf.totalSize-skip
      if len < left then netbufCopy m nbuf skip len
      else
        match netbufCopy m nbuf skip left with
        | .error fault => .error fault
        | .ok (_,s) =>
          match queCopyRest m rest (len-left) with
          | .error fault => .error fault
          | .ok (copied,t) => .ok (left+copied, s ++ t)

/-- As NetbufCopy, over the bytes of all the buffers. -/
def QueCopyExact (m : Memory) (que : NetBufQueue) (offset len : UInt32) : Prop :=
  ∃ copied, netbufQueCopy m que offset len =
      .ok (copied, Bytes.slice (queContents m que) offset.toNat len.toNat) ∧
    copied.toNat = (Bytes.slice (queContents m que) offset.toNat len.toNat).length

theorem netbufCopy_inside (m : Memory) {nbuf : NetBuf} (hw : nbuf.WellFormed)
    {offset len : UInt32} (h : offset.toNat+len.toNat ≤ nbuf.totalSize.toNat) :
    netbufCopy m nbuf offset len = .ok (len, Bytes.slice (contents m nbuf) offset.toNat len.toNat) := by
  obtain ⟨copied,hrun,hcopied⟩ := netbufCopy_exact m hw offset len
  have hlen : (Bytes.slice (contents m nbuf) offset.toNat len.toNat).length = len.toNat := by
    apply Bytes.length_slice
    rw [hw.length_contents]
    exact h
  have heq : copied = len := UInt32.toNat_inj.mp (hcopied.trans hlen)
  rw [hrun, heq]

theorem queCopyRest_spec (m : Memory) (hw : ∀ nbuf ∈ l, nbuf.WellFormed)
    (h : len.toNat ≤ total NetBuf.totalSize l) :
    queCopyRest m l len = .ok (len, (l.flatMap (contents m)).take len.toNat) := by
  have hzero : (0 : UInt32).toNat = 0 := rfl
  induction l generalizing len with
  | nil =>
    have hlen : len = 0 := UInt32.toNat_inj.mp (Nat.le_zero.mp h)
    rw [queCopyRest, hlen]
    rfl
  | cons nbuf l ih =>
    rw [total_cons] at h
    have hb := hw nbuf (mem_cons_self ..)
    have hl : ∀ x ∈ l, x.WellFormed := fun x hx => hw x (mem_cons_of_mem _ hx)
    have hlength := hb.length_contents m
    rw [queCopyRest, flatMap_cons]
    by_cases hnone : len = 0
    · rw [if_pos hnone, hnone]
      rfl
    rw [if_neg hnone]
    by_cases hlt : nbuf.totalSize < len
    · have hlt' := UInt32.lt_iff_toNat_lt.mp hlt
      have hsub : (len-nbuf.totalSize).toNat = len.toNat-nbuf.totalSize.toNat :=
        toNat_sub_of_le (le_of_lt hlt')
      have hsum : nbuf.totalSize + (len-nbuf.totalSize) = len := by
        rw [UInt32.add_comm, UInt32.sub_add_cancel]
      have hall : Bytes.slice (contents m nbuf) 0 nbuf.totalSize.toNat = contents m nbuf := by
        rw [Bytes.slice, drop_zero, ← hlength, take_length]
      have hfst : (contents m nbuf).take len.toNat = contents m nbuf := by
        apply take_of_length_le
        rw [hlength]
        exact le_of_lt hlt'
      rw [if_pos hlt, netbufCopy_inside m hb (by omega), @ih (len-nbuf.totalSize) hl (by omega)]
      dsimp only
      rw [hzero, hall, hsum, hsub, take_append, hfst, hlength]
    · have hle : len.toNat ≤ nbuf.totalSize.toNat := by
        apply Nat.le_of_not_lt
        exact fun h => hlt (UInt32.lt_iff_toNat_lt.mpr h)
      rw [if_neg hlt, netbufCopy_inside m hb (by omega),
        take_append_of_le_length (by rw [hlength]; exact hle), hzero, Bytes.slice, drop_zero]

theorem netbufQueCopy_exact (m : Memory) (hw : que.WellFormed) (offset len : UInt32) :
    QueCopyExact m que offset len := by
  have hcont : (queContents m que).length = que.bufSize.toNat :=
    (length_buffers m hw.buffers).trans hw.bufSize_eq.symm
  unfold QueCopyExact netbufQueCopy Bytes.slice
  by_cases hnone : len = 0 ∨ que.bufSize ≤ offset
  · have hnil : ((queContents m que).drop offset.toNat).take len.toNat = [] := by
      rcases hnone with rfl | hle
      · rfl
      · rw [drop_eq_nil_of_le, take_nil]
        rw [hcont]
        exact UInt32.le_iff_toNat_le.mp hle
    refine ⟨0, ?_, ?_⟩
    · rw [if_pos hnone, hnil]
    · rw [hnil]
      rfl
  · have hlt : offset.toNat < que.bufSize.toNat := by
      apply Nat.lt_of_not_le
      exact fun h => hnone (.inr (UInt32.le_iff_toNat_le.mpr h))
    have hfit := que.bufSize.toNat_lt
    generalize hn : (if que.bufSize-offset < len then que.bufSize-offset else len) = n
    obtain ⟨hmin,htake,hcnt⟩ := slice_of_cut hcont hlt hn
    have hzero : (0 : UInt32).toNat = 0 := rfl
    rw [hw.bufSize_eq] at hlt hfit
    obtain ⟨pre,nbuf,post,cur,hlist,hseek,hcur,hle,hgt⟩ :=
      @seek_spec _ NetBuf.totalSize false offset que.bufList 0 0 (by omega) (by omega) (by omega)
    have hb : nbuf.WellFormed := hw.buffers nbuf (by simp [hlist])
    have hlen := hb.length_contents m
    have hpre : (pre.flatMap (contents m)).length = cur.toNat := by
      rw [length_buffers m fun x hx => hw.buffers x (by simp [hlist, hx])]
      omega
    have hskip : (offset-cur).toNat = offset.toNat-cur.toNat := toNat_sub_of_le hle
    have hleft : (nbuf.totalSize - (offset-cur)).toNat = nbuf.totalSize.toNat - (offset.toNat-cur.toNat) := by
      rw [toNat_sub_of_le (by omega), hskip]
    have htotal : que.bufSize.toNat = cur.toNat+nbuf.totalSize.toNat + total NetBuf.totalSize post := by
      rw [hw.bufSize_eq, hlist, total_append, total_cons]
      omega
    have hdrop : (queContents m que).drop offset.toNat =
        (contents m nbuf).drop (offset-cur).toNat ++ post.flatMap (contents m) := by
      have hoff : offset.toNat = cur.toNat + (offset-cur).toNat := by omega
      rw [queContents, hlist, hoff]
      exact drop_flatMap hpre (by rw [hlen]; omega)
    have hdropped : ((contents m nbuf).drop (offset-cur).toNat).length =
        (nbuf.totalSize - (offset-cur)).toNat := by
      rw [length_drop, hlen]
      omega
    refine ⟨n, ?_, by rw [htake, hcnt]⟩
    rw [if_neg hnone, hseek, htake, hdrop]
    dsimp only
    by_cases hin : n < nbuf.totalSize - (offset-cur)
    · have hin' := UInt32.lt_iff_toNat_lt.mp hin
      rw [if_pos hin, netbufCopy_inside m hb (by omega), Bytes.slice,
        take_append_of_le_length (by rw [hdropped]; exact le_of_lt hin')]
    have hge : (nbuf.totalSize - (offset-cur)).toNat ≤ n.toNat := by
      apply Nat.le_of_not_lt
      exact fun h => hin (UInt32.lt_iff_toNat_lt.mpr h)
    have hrest : (n - (nbuf.totalSize - (offset-cur))).toNat =
        n.toNat - (nbuf.totalSize - (offset-cur)).toNat := toNat_sub_of_le hge
    have hsum : nbuf.totalSize - (offset-cur) + (n - (nbuf.totalSize - (offset-cur))) = n := by
      rw [UInt32.add_comm, UInt32.sub_add_cancel]
    have hfst : ((contents m nbuf).drop (offset-cur).toNat).take
        (nbuf.totalSize - (offset-cur)).toNat = (contents m nbuf).drop (offset-cur).toNat := by
      rw [← hdropped, take_length]
    have hfirst' : ((contents m nbuf).drop (offset-cur).toNat).take n.toNat =
        (contents m nbuf).drop (offset-cur).toNat := by
      apply take_of_length_le
      rw [hdropped]
      exact hge
    have hpost : ∀ x ∈ post, x.WellFormed := fun x hx => hw.buffers x (by simp [hlist, hx])
    rw [if_neg hin, netbufCopy_inside m hb (by omega), queCopyRest_spec m hpost (by omega),
      take_append, hdropped, hfirst', hrest]
    dsimp only
    rw [hsum, Bytes.slice, hfst]

/-- The loop of NetbufQueTrim: the buffers left, `BufNum` and the bytes trimmed. -/
def queTrimLoop : List NetBuf → UInt32 → UInt32 → UInt32 → Except Fault (List NetBuf × UInt32 × UInt32)
  | [], bufNum, _, trimmed => .ok ([], bufNum, trimmed)
  | nbuf :: rest, bufNum, len, trimmed =>
    if nbuf.totalSize ≤ len then
      if len-nbuf.totalSize = 0 then .ok (rest, bufNum-1, trimmed+nbuf.totalSize)
      else queTrimLoop rest (bufNum-1) (len-nbuf.totalSize) (trimmed+nbuf.totalSize)
    else
      match netbufTrim nbuf len true with
      | .error fault => .error fault
      | .ok (nbuf,n) => .ok (nbuf :: rest, bufNum, trimmed+n)

def netbufQueTrim (que : NetBufQueue) (len : UInt32) : Except Fault (NetBufQueue × UInt32) :=
  if len = 0 then .ok (que,0)
  else
    let len := if que.bufSize < len then que.bufSize else len
    match queTrimLoop que.bufList que.bufNum len 0 with
    | .error fault => .error fault
    | .ok (bufList,bufNum,trimmed) => .ok (⟨bufList, que.bufSize-len, bufNum⟩, trimmed)

/-- As NetbufTrim from the head, over the bytes of all the buffers. -/
def QueTrimExact (m : Memory) (que : NetBufQueue) (len : UInt32) : Prop :=
  ∃ que' trimmed, netbufQueTrim que len = .ok (que',trimmed) ∧
    trimmed.toNat = min len.toNat que.bufSize.toNat ∧ que'.WellFormed ∧
    queContents m que' = (queContents m que).drop trimmed.toNat

theorem queTrimLoop_spec (m : Memory) {bufNum : UInt32} (trimmed : UInt32)
    (hw : ∀ nbuf ∈ l, nbuf.WellFormed) (hnum : bufNum.toNat = l.length)
    (hle : len.toNat ≤ total NetBuf.totalSize l) :
    ∃ l' bufNum', queTrimLoop l bufNum len trimmed = .ok (l', bufNum', trimmed+len) ∧
      (∀ nbuf ∈ l', nbuf.WellFormed) ∧ bufNum'.toNat = l'.length ∧
      l'.flatMap (contents m) = (l.flatMap (contents m)).drop len.toNat := by
  induction l generalizing len bufNum trimmed with
  | nil =>
    have hlen : len = 0 := UInt32.toNat_inj.mp (Nat.le_zero.mp hle)
    refine ⟨[], bufNum, ?_, hw, hnum, ?_⟩
    · rw [queTrimLoop, hlen, UInt32.add_zero]
    · rw [flatMap_nil, drop_nil]
  | cons nbuf l ih =>
    rw [total_cons] at hle
    rw [length_cons] at hnum
    have hb := hw nbuf (mem_cons_self ..)
    have hl : ∀ x ∈ l, x.WellFormed := fun x hx => hw x (mem_cons_of_mem _ hx)
    have hlength := hb.length_contents m
    by_cases hwhole : nbuf.totalSize ≤ len
    · -- the whole buffer is freed
      have hwhole' := UInt32.le_iff_toNat_le.mp hwhole
      have hsub : (len-nbuf.totalSize).toNat = len.toNat-nbuf.totalSize.toNat := toNat_sub_of_le hwhole'
      have hone : (1 : UInt32).toNat = 1 := rfl
      have hnum' : (bufNum-1).toNat = l.length := by
        rw [toNat_sub_of_le (by omega), hnum, hone, Nat.add_sub_cancel]
      have hsum : trimmed+nbuf.totalSize + (len-nbuf.totalSize) = trimmed+len := by
        rw [UInt32.add_assoc, UInt32.add_comm nbuf.totalSize, UInt32.sub_add_cancel]
      have hdrop : ((nbuf :: l).flatMap (contents m)).drop len.toNat =
          (l.flatMap (contents m)).drop (len.toNat-nbuf.totalSize.toNat) := by
        rw [flatMap_cons, drop_append, hlength,
          drop_eq_nil_of_le (by rw [hlength]; exact hwhole'), nil_append]
      by_cases hdone : len-nbuf.totalSize = 0
      · refine ⟨l, bufNum-1, ?_, hl, hnum', ?_⟩
        · rw [queTrimLoop, if_pos hwhole, if_pos hdone, ← hsum, hdone, UInt32.add_zero]
        · rw [hdrop, ← hsub, hdone]
          rfl
      obtain ⟨l',bufNum',hrun,hwl,hcnt,hcont⟩ :=
        @ih (len-nbuf.totalSize) (bufNum-1) (trimmed+nbuf.totalSize) hl hnum' (by omega)
      refine ⟨l', bufNum', ?_, hwl, hcnt, ?_⟩
      · rw [queTrimLoop, if_pos hwhole, if_neg hdone, hrun, hsum]
      · rw [hcont, hdrop, hsub]
    · have hlt : len.toNat < nbuf.totalSize.toNat := by
        apply Nat.lt_of_not_le
        exact fun h => hwhole (UInt32.le_iff_toNat_le.mpr h)
      obtain ⟨nbuf',n,hrun,hn,hb',hcont⟩ := netbufTrim_exact m hb len true
      have heq : n = len := by
        apply UInt32.toNat_inj.mp
        omega
      refine ⟨nbuf' :: l, bufNum, ?_, ?_, hnum, ?_⟩
      · rw [queTrimLoop, if_neg hwhole, hrun, heq]
      · intro x hx
        rcases mem_cons.mp hx with rfl | hx
        · exact hb'
        · exact hl x hx
      · rw [flatMap_cons, flatMap_cons, hcont, heq,
          drop_append_of_le_length (by rw [hlength]; exact le_of_lt hlt)]
        rfl

theorem netbufQueTrim_exact (m : Memory) (hw : que.WellFormed) (len : UInt32) : QueTrimExact m que len := by
  have hcont : (queContents m que).length = que.bufSize.toNat :=
    (length_buffers m hw.buffers).trans hw.bufSize_eq.symm
  unfold QueTrimExact netbufQueTrim
  by_cases hnone : len = 0
  · refine ⟨que, 0, if_pos hnone, ?_, hw, rfl⟩
    rw [hnone]
    exact (Nat.zero_min _).symm
  generalize hn : (if que.bufSize < len then que.bufSize else len) = n
  have hmin := toNat_of_cut hn
  have hsize := hw.bufSize_eq
  obtain ⟨l',bufNum',hrun,hwl,hcnt,hdrop⟩ :=
    @queTrimLoop_spec que.bufList n m que.bufNum 0 hw.buffers hw.bufNum_eq (by omega)
  refine ⟨⟨l', que.bufSize-n, bufNum'⟩, n, ?_, hmin, ⟨hwl, ?_, hcnt⟩, hdrop⟩
  · rw [if_neg hnone]
    dsimp only
    rw [hrun, UInt32.zero_add]
  · have hsub : (que.bufSize-n).toNat = que.bufSize.toNat-n.toNat := toNat_sub_of_le (by omega)
    rw [hsub, ← length_buffers m hwl, hdrop, length_drop, ← hcont]
    rfl

structure IsByteString (m : Memory) (nbuf : NetBuf) (que : NetBufQueue) (ext : List NetFragment)
    (offset len headSpace headLen : UInt32) (fromHead : Bool) : Prop where
  copy : CopyExact m nbuf offset len
  trim : TrimExact m nbuf len fromHead
  getFragment : GetFragmentExact m nbuf offset len headSpace
  allocSpace : AllocSpaceExact m nbuf len fromHead
  fromExt : FromExtExact m ext headSpace headLen
  queCopy : QueCopyExact m que offset len
  queTrim : QueTrimExact m que len

/-- They all do exactly where the fragment's end does not wrap past the check, space is not given
beyond what a total size can count, the fragments' total and the first block's length fit in 32
bits, and the header to pull does not end inside a fragment. -/
theorem isByteString_iff (m : Memory) {nbuf : NetBuf} (hw : nbuf.WellFormed) {que : NetBufQueue}
    (hq : que.WellFormed) {ext : List NetFragment} (hext : ext ≠ [])
    (offset len headSpace headLen : UInt32) (fromHead : Bool) :
    IsByteString m nbuf que ext offset len headSpace headLen fromHead ↔ ¬ EndWraps nbuf offset len ∧
        (HasRoom nbuf len fromHead → nbuf.totalSize.toNat+len.toNat < 2^32) ∧
        total NetFragment.len ext < 2^32 ∧ (pulledLen ext headLen).toNat + headSpace.toNat < 2^32 ∧
        ¬ SplitsFragment (pulledLen ext headLen).toNat ext := by
  constructor
  · intro h
    exact ⟨(netbufGetFragment_exact_iff m hw offset len headSpace).mp h.getFragment,
      (netbufAllocSpace_exact_iff m hw len fromHead).mp h.allocSpace,
      (netbufFromExt_exact_iff m hext headSpace headLen).mp h.fromExt⟩
  · rintro ⟨hend,hspace,hfrom⟩
    exact {
      copy := netbufCopy_exact m hw offset len
      trim := netbufTrim_exact m hw len fromHead
      getFragment := (netbufGetFragment_exact_iff m hw offset len headSpace).mpr hend
      allocSpace := (netbufAllocSpace_exact_iff m hw len fromHead).mpr hspace
      fromExt := (netbufFromExt_exact_iff m hext headSpace headLen).mpr hfrom
      queCopy := netbufQueCopy_exact m hq offset len
      queTrim := netbufQueTrim_exact m hq len }

def sampleBuf : NetBuf := ⟨[⟨0x1000, 0x1008, 0x1000, 0x1002, 2⟩], 2⟩

def sampleTable : List NetFragment := [⟨2, 0x2000⟩, ⟨4, 0x3000⟩]

theorem sampleBuf_wellFormed : sampleBuf.WellFormed where
  nonempty := by decide
  blocks := by
    intro b hb
    rw [mem_singleton.mp hb]
    exact ⟨by decide, rfl, by decide⟩
  totalSize_eq := rfl

theorem sampleQue_wellFormed : (⟨[sampleBuf], 2, 1⟩ : NetBufQueue).WellFormed where
  buffers := by
    intro nbuf h
    rw [mem_singleton.mp h]
    exact sampleBuf_wellFormed
  bufSize_eq := rfl
  bufNum_eq := rfl

/-- A byte is added at the end of the buffer, which has room for it, and a header of six bytes, which the two
fragments are, is pulled whole. -/
theorem isByteString_iff_sample :
    IsByteString (fun _ => 0) sampleBuf ⟨[sampleBuf], 2, 1⟩ sampleTable 0 1 4 6 false := by
  refine (isByteString_iff (fun _ => 0) sampleBuf_wellFormed sampleQue_wellFormed (by decide) 0 1 4 6
    false).mpr ⟨?_, fun _ => by decide, by decide, by decide, ?_⟩
  · rintro ⟨-,h,-⟩
    exact absurd h (by decide)
  · exact not_splitsFragment_zero []

/-- A header of three bytes ends inside the second fragment: when the buffer cannot be allocated
the caller's table stays shortened. -/
theorem not_isByteString_split : ¬ ∀ (m : Memory) (nbuf : NetBuf) (que : NetBufQueue)
    (ext : List NetFragment) (offset len headSpace headLen : UInt32) (fromHead : Bool),
    nbuf.WellFormed → que.WellFormed → ext ≠ [] →
      IsByteString m nbuf que ext offset len headSpace headLen fromHead := by
  intro h
  have hsample := h (fun _ => 0) sampleBuf ⟨[sampleBuf], 2, 1⟩ sampleTable 0 1 0 3 true
    sampleBuf_wellFormed sampleQue_wellFormed (by decide)
  have hborder := ((netbufFromExt_exact_iff (fun _ => 0) (by decide) 0 3).mp hsample.fromExt).2.2
  have hpulled : (pulledLen sampleTable 3).toNat = 3 := by decide
  rw [hpulled] at hborder
  exact hborder (by simp [sampleTable, SplitsFragment])

end Liano.Net
