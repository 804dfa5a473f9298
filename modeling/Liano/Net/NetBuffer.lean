import Liano.Lib.Memory

/-! The net buffers of DxeNetLib. A net buffer is a table of block operators, each with its data
inside a block of memory, and the number of bytes they hold together. Pointers are addresses, a
size is the 32-bit number the code keeps and its sums wrap as the code's do; a number of blocks is
the length of a list. The reference counts, the vector that records who frees the blocks and the
protocol data are left out: no function here reads them. -/
namespace Liano.Net

open List hiding min

open Memory

/-- An access past the block operators or past an allocated block, or an assertion that fails. -/
inductive Fault
  | outOfBounds
  | assertion
deriving DecidableEq, Repr

structure NetBlockOp where
  blockHead : Nat
  blockTail : Nat
  head : Nat
  tail : Nat
  size : UInt32
deriving DecidableEq, Repr

structure NetBuf where
  blockOp : List NetBlockOp
  totalSize : UInt32
deriving DecidableEq, Repr

def netHeadspace (b : NetBlockOp) : Nat := b.head-b.blockHead

def netTailspace (b : NetBlockOp) : Nat := b.blockTail-b.tail

def netbufSetBlockOp (bulk : Nat) (len : UInt32) : NetBlockOp where
  blockHead := bulk
  blockTail := bulk+len.toNat
  head := bulk
  tail := bulk+len.toNat
  size := len

def NetBlockOp.data (m : Memory) (b : NetBlockOp) : Bytes := bytesAt m b.head b.size.toNat

def contents (m : Memory) (nbuf : NetBuf) : Bytes := nbuf.blockOp.flatMap (NetBlockOp.data m)

def total {α : Type} (size : α → UInt32) (l : List α) : Nat := (l.map fun x => (size x).toNat).sum

structure NetBlockOp.WellFormed (b : NetBlockOp) : Prop where
  head_le : b.blockHead ≤ b.head
  tail_eq : b.tail = b.head+b.size.toNat
  tail_le : b.tail ≤ b.blockTail

structure NetBuf.WellFormed (nbuf : NetBuf) : Prop where
  nonempty : nbuf.blockOp ≠ []
  blocks : ∀ b ∈ nbuf.blockOp, b.WellFormed
  totalSize_eq : nbuf.totalSize.toNat = total NetBlockOp.size nbuf.blockOp

section Total
variable {α : Type} {size : α → UInt32}

@[simp] theorem total_nil : total size ([] : List α) = 0 := rfl

@[simp] theorem total_cons (x : α) (l : List α) : total size (x :: l) = (size x).toNat + total size l := by
  simp [total]

@[simp] theorem total_append (l r : List α) : total size (l ++ r) = total size l + total size r := by
  simp [total]

theorem size_le_total {l : List α} {x : α} (h : x ∈ l) : (size x).toNat ≤ total size l := by
  induction l with
  | nil => exact absurd h not_mem_nil
  | cons y l ih =>
    rcases mem_cons.mp h with rfl | h
    · exact Nat.le_add_right _ _
    · exact Nat.le_add_left_of_le (ih h)

/-- If a table of byte strings has these lengths, their concatenation has the sum as its length. -/
theorem length_flatMap_total {f : α → Bytes} {l : List α}
    (h : ∀ x ∈ l, (f x).length = (size x).toNat) : (l.flatMap f).length = total size l := by
  induction l with
  | nil => rfl
  | cons x l ih =>
    have hx := h x (mem_cons_self ..)
    have hl := ih fun y hy => h y (mem_cons_of_mem _ hy)
    rw [flatMap_cons, length_append, hx, hl, total_cons]

theorem drop_flatMap {f : α → Bytes} {pre post : List α} {x : α} {n k : Nat}
    (hpre : (pre.flatMap f).length = n) (hk : k ≤ (f x).length) :
    ((pre ++ x :: post).flatMap f).drop (n+k) = (f x).drop k ++ post.flatMap f := by
  rw [flatMap_append, flatMap_cons, ← hpre, drop_length_add_append, drop_append_of_le_length hk]

end Total

@[simp] theorem length_data (m : Memory) (b : NetBlockOp) : (b.data m).length = b.size.toNat := by
  unfold NetBlockOp.data
  simp

theorem length_blocks (m : Memory) (l : List NetBlockOp) :
    (l.flatMap (NetBlockOp.data m)).length = total NetBlockOp.size l :=
  length_flatMap_total fun b _ => length_data m b

theorem NetBuf.WellFormed.length_contents {nbuf : NetBuf} (h : nbuf.WellFormed) (m : Memory) :
    (contents m nbuf).length = nbuf.totalSize.toNat := by rw [contents, length_blocks, h.totalSize_eq]

@[simp] theorem netbufSetBlockOp_size (p : Nat) (n : UInt32) : (netbufSetBlockOp p n).size = n := rfl

theorem netbufSetBlockOp_wellFormed (p : Nat) (n : UInt32) : (netbufSetBlockOp p n).WellFormed :=
  ⟨le_rfl, rfl, le_rfl⟩

theorem oneBlock_wellFormed (p : Nat) (n : UInt32) : NetBuf.WellFormed ⟨[netbufSetBlockOp p n], n⟩ where
  nonempty := cons_ne_nil _ _
  blocks b hb := mem_singleton.mp hb ▸ netbufSetBlockOp_wellFormed p n
  totalSize_eq := by
    rw [total_cons, total_nil]
    rfl

theorem data_netbufSetBlockOp (m : Memory) (p : Nat) (n : UInt32) :
    (netbufSetBlockOp p n).data m = bytesAt m p n.toNat := rfl

/-- The loop by which the code finds the block, or the buffer of a queue, that holds the byte at
`offset`: `Index`, the sum of the sizes before it, and the table from it on. NetbufCopy passes an
empty block by before it compares. -/
def seek {α : Type} (size : α → UInt32) (skipEmpty : Bool) (offset : UInt32) :
    List α → Nat → UInt32 → Nat × UInt32 × List α
  | [], index, cur => (index, cur, [])
  | x :: l, index, cur =>
    if skipEmpty = true ∧ size x = 0 then seek size skipEmpty offset l (index+1) cur
    else if offset < cur + size x then (index, cur, x :: l)
    else seek size skipEmpty offset l (index+1) (cur + size x)

/-- NetbufGetByte: the index of the block with the byte at `offset` and the byte's address. -/
def netbufGetByte (nbuf : NetBuf) (offset : UInt32) : Option (Nat × Nat) :=
  if nbuf.totalSize ≤ offset then none
  else
    match seek NetBlockOp.size false offset nbuf.blockOp 0 0 with
    | (_, _, []) => none
    | (index, cur, b :: _) => some (index, b.head + (offset-cur).toNat)

theorem toNat_add_of_lt {x y : UInt32} (h : x.toNat+y.toNat < 2^32) : (x+y).toNat = x.toNat+y.toNat := by
  exact Nat.mod_eq_of_lt h

theorem toNat_sub_of_le {x y : UInt32} (h : y.toNat ≤ x.toNat) : (x-y).toNat = x.toNat-y.toNat :=
  UInt32.toNat_sub_of_le _ _ (UInt32.le_iff_toNat_le.mpr h)

theorem seek_spec {α : Type} {size : α → UInt32} {skipEmpty : Bool} {offset : UInt32} {l : List α}
    {index : Nat} {cur : UInt32} (hcur : cur.toNat ≤ offset.toNat)
    (hlt : offset.toNat < cur.toNat + total size l) (hfit : cur.toNat + total size l < 2^32) :
    ∃ pre x post cur', l = pre ++ x :: post ∧
      seek size skipEmpty offset l index cur = (index+pre.length, cur', x :: post) ∧
      cur'.toNat = cur.toNat + total size pre ∧ cur'.toNat ≤ offset.toNat ∧
      offset.toNat < cur'.toNat + (size x).toNat := by
  induction l generalizing index cur with
  | nil =>
    rw [total_nil] at hlt
    exact absurd hlt (by omega)
  | cons x l ih =>
    rw [total_cons] at hlt hfit
    have hadd : (cur + size x).toNat = cur.toNat + (size x).toNat := toNat_add_of_lt (by omega)
    by_cases hskip : skipEmpty = true ∧ size x = 0
    · -- an empty entry adds nothing
      have hzero : (size x).toNat = 0 := by rw [hskip.2]; rfl
      obtain ⟨pre,y,post,cur',rfl,hseek,hsum,hle,hgt⟩ := @ih (index+1) cur hcur (by omega) (by omega)
      refine ⟨x :: pre, y, post, cur', rfl, ?_, ?_, hle, hgt⟩
      · rw [seek, if_pos hskip, hseek, length_cons, add_assoc, add_comm 1]
      · rw [total_cons, hsum, hzero, zero_add]
    by_cases hin : offset < cur + size x
    · have hin' : offset.toNat < cur.toNat + (size x).toNat := by
        rw [← hadd]
        exact UInt32.lt_iff_toNat_lt.mp hin
      refine ⟨[], x, l, cur, rfl, ?_, by simp, hcur, hin'⟩
      rw [seek, if_neg hskip, if_pos hin]
      rfl
    have hout : (cur + size x).toNat ≤ offset.toNat := by
      apply Nat.le_of_not_lt
      exact fun h => hin (UInt32.lt_iff_toNat_lt.mpr h)
    obtain ⟨pre,y,post,cur',rfl,hseek,hsum,hle,hgt⟩ :=
      @ih (index+1) (cur + size x) hout (by omega) (by omega)
    refine ⟨x :: pre, y, post, cur', rfl, ?_, ?_, hle, hgt⟩
    · rw [seek, if_neg hskip, if_neg hin, hseek, length_cons, add_assoc, add_comm 1]
    · rw [total_cons, hsum, hadd, add_assoc]

variable {nbuf : NetBuf}

theorem NetBuf.WellFormed.seek_spec (hw : nbuf.WellFormed) {offset : UInt32}
    (h : offset.toNat < nbuf.totalSize.toNat) (skipEmpty : Bool) :
    ∃ pre b post cur, nbuf.blockOp = pre ++ b :: post ∧
      seek NetBlockOp.size skipEmpty offset nbuf.blockOp 0 0 = (pre.length, cur, b :: post) ∧
      cur.toNat = total NetBlockOp.size pre ∧ cur.toNat ≤ offset.toNat ∧
      offset.toNat < cur.toNat+b.size.toNat := by
  have hfit := nbuf.totalSize.toNat_lt
  rw [hw.totalSize_eq] at h hfit
  have hzero : (0 : UInt32).toNat = 0 := rfl
  obtain ⟨pre,b,post,cur,hl,hseek,hsum,hrest⟩ :=
    @Net.seek_spec _ NetBlockOp.size skipEmpty offset nbuf.blockOp 0 0 (by omega) (by omega)
      (by omega)
  refine ⟨pre, b, post, cur, hl, ?_, by omega, hrest⟩
  rw [hseek, zero_add]

/-- The blocks after the first, copied until `len` bytes are. -/
def copyRest (m : Memory) : List NetBlockOp → UInt32 → UInt32 × Bytes
  | [], _ => (0, [])
  | b :: bs, len =>
    if b.size < len then
      let r := copyRest m bs (len-b.size)
      (b.size+r.1, bytesAt m b.head b.size.toNat ++ r.2)
    else (len, bytesAt m b.head len.toNat)

/-- NetbufCopy: the number of bytes copied, and the bytes stored from `Dest` on, which is memory of
the caller's. -/
def netbufCopy (m : Memory) (nbuf : NetBuf) (offset len : UInt32) : Except Fault (UInt32 × Bytes) :=
  if len = 0 ∨ nbuf.totalSize ≤ offset then .ok (0, [])
  else
    let len := if nbuf.totalSize-offset < len then nbuf.totalSize-offset else len
    match seek NetBlockOp.size true offset nbuf.blockOp 0 0 with
    | (_, _, []) => .error .outOfBounds
    | (_, cur, b :: rest) =>
      let skip := offset-cur
      let left := b.size-skip
      if len ≤ left then .ok (len, bytesAt m (b.head+skip.toNat) len.toNat)
      else
        let r := copyRest m rest (len-left)
        .ok (left+r.1, bytesAt m (b.head+skip.toNat) left.toNat ++ r.2)

/-- Copying stores the bytes from `offset` on, `len` of them or as many as there are. -/
def CopyExact (m : Memory) (nbuf : NetBuf) (offset len : UInt32) : Prop :=
  ∃ copied, netbufCopy m nbuf offset len =
      .ok (copied, Bytes.slice (contents m nbuf) offset.toNat len.toNat) ∧
    copied.toNat = (Bytes.slice (contents m nbuf) offset.toNat len.toNat).length

theorem copyRest_spec (m : Memory) {l : List NetBlockOp} {len : UInt32}
    (h : len.toNat ≤ total NetBlockOp.size l) :
    copyRest m l len = (len, (l.flatMap (NetBlockOp.data m)).take len.toNat) := by
  induction l generalizing len with
  | nil =>
    have hzero : len.toNat = 0 := Nat.le_zero.mp h
    have hlen : len = 0 := UInt32.toNat_inj.mp hzero
    rw [copyRest, hlen]
    rfl
  | cons b bs ih =>
    rw [total_cons] at h
    rw [copyRest, flatMap_cons]
    by_cases hlt : b.size < len
    · have hlt' := UInt32.lt_iff_toNat_lt.mp hlt
      have hsub : (len-b.size).toNat = len.toNat-b.size.toNat := toNat_sub_of_le (le_of_lt hlt')
      have hrest := @ih (len-b.size) (by omega)
      have htake : ((NetBlockOp.data m b) ++ bs.flatMap (NetBlockOp.data m)).take len.toNat =
          NetBlockOp.data m b ++ (bs.flatMap (NetBlockOp.data m)).take (len.toNat-b.size.toNat) := by
        rw [take_append, length_data, take_of_length_le]
        rw [length_data]
        exact le_of_lt hlt'
      have hsum : b.size + (len-b.size) = len := by rw [UInt32.add_comm, UInt32.sub_add_cancel]
      rw [if_pos hlt, hrest, htake, hsub]
      dsimp only
      rw [hsum, NetBlockOp.data]
    · have hle : len.toNat ≤ b.size.toNat := by
        apply Nat.le_of_not_lt
        exact fun h => hlt (UInt32.lt_iff_toNat_lt.mpr h)
      rw [if_neg hlt, take_append_of_le_length (by rw [length_data]; exact hle),
        NetBlockOp.data, take_bytesAt m _ hle]

/-- The block with an offset in it, and what lies from the offset on. -/
theorem NetBuf.WellFormed.seek_drop (m : Memory) (hw : nbuf.WellFormed) {offset : UInt32}
    (h : offset.toNat < nbuf.totalSize.toNat) (skipEmpty : Bool) :
    ∃ pre b post cur, seek NetBlockOp.size skipEmpty offset nbuf.blockOp 0 0 = (pre, cur, b :: post) ∧
      cur.toNat ≤ offset.toNat ∧ (offset-cur).toNat = offset.toNat-cur.toNat ∧
      (b.size - (offset-cur)).toNat = b.size.toNat - (offset.toNat-cur.toNat) ∧
      offset.toNat < cur.toNat+b.size.toNat ∧
      nbuf.totalSize.toNat = cur.toNat+b.size.toNat + total NetBlockOp.size post ∧
      (contents m nbuf).drop offset.toNat =
        bytesAt m (b.head + (offset-cur).toNat) (b.size - (offset-cur)).toNat ++
          post.flatMap (NetBlockOp.data m) := by
  obtain ⟨pre,b,post,cur,hblk,hseek,hcur,hle,hgt⟩ := hw.seek_spec h skipEmpty
  have hskip : (offset-cur).toNat = offset.toNat-cur.toNat := toNat_sub_of_le hle
  have hleft : (b.size - (offset-cur)).toNat = b.size.toNat - (offset.toNat-cur.toNat) := by
    rw [toNat_sub_of_le (by omega), hskip]
  refine ⟨_, b, post, cur, hseek, hle, hskip, hleft, hgt, ?_, ?_⟩
  · rw [hw.totalSize_eq, hblk, total_append, total_cons, hcur]
    omega
  · have hoff : offset.toNat = cur.toNat + (offset.toNat-cur.toNat) := by omega
    rw [contents, hblk, hoff, drop_flatMap ((length_blocks m pre).trans hcur.symm)
      (by rw [length_data]; omega), NetBlockOp.data, drop_bytesAt m _ (by omega), hskip, hleft]

theorem slice_of_none {l : Bytes} {size offset len : UInt32} (hl : l.length = size.toNat)
    (hnone : len = 0 ∨ size ≤ offset) : (l.drop offset.toNat).take len.toNat = [] := by
  rcases hnone with rfl | hle
  · rfl
  · rw [drop_eq_nil_of_le, take_nil]
    rw [hl]
    exact UInt32.le_iff_toNat_le.mp hle

theorem toNat_of_cut {size len n : UInt32} (hn : (if size < len then size else len) = n) :
    n.toNat = min len.toNat size.toNat := by
  rw [← hn]
  split
  · have h := UInt32.lt_iff_toNat_lt.mp ‹_›
    omega
  · have h : ¬ size.toNat < len.toNat := fun h => ‹¬ _› (UInt32.lt_iff_toNat_lt.mpr h)
    omega

/-- The length that is cut to the size of the source. -/
theorem slice_of_cut {l : Bytes} {size offset len n : UInt32} (hl : l.length = size.toNat)
    (hlt : offset.toNat < size.toNat) (hn : (if size-offset < len then size-offset else len) = n) :
    n.toNat = min len.toNat (size.toNat-offset.toNat) ∧
      (l.drop offset.toNat).take len.toNat = (l.drop offset.toNat).take n.toNat ∧
        ((l.drop offset.toNat).take n.toNat).length = n.toNat := by
  have hsub : (size-offset).toNat = size.toNat-offset.toNat := toNat_sub_of_le (le_of_lt hlt)
  have hmin : n.toNat = min len.toNat (size.toNat-offset.toNat) := hsub ▸ toNat_of_cut hn
  refine ⟨hmin, ?_, ?_⟩
  · rw [hmin, ← hl, ← length_drop, ← take_take]
    congr 1
    exact (take_of_length_le le_rfl).symm
  · rw [length_take, length_drop, hl]
    omega

theorem netbufCopy_exact (m : Memory) (hw : nbuf.WellFormed) (offset len : UInt32) :
    CopyExact m nbuf offset len := by
  have hcont := hw.length_contents m
  unfold CopyExact netbufCopy Bytes.slice
  by_cases hnone : len = 0 ∨ nbuf.totalSize ≤ offset
  · -- nothing to copy
    have hnil := slice_of_none hcont hnone
    refine ⟨0, ?_, ?_⟩
    · rw [if_pos hnone, hnil]
    · rw [hnil]
      rfl
  have hlt : offset.toNat < nbuf.totalSize.toNat := by
    apply Nat.lt_of_not_le
    exact fun h => hnone (.inr (UInt32.le_iff_toNat_le.mpr h))
  -- the length after the cut
  generalize hn : (if nbuf.totalSize-offset < len then nbuf.totalSize-offset else len) = n
  obtain ⟨hmin,htake,hlen⟩ := slice_of_cut hcont hlt hn
  obtain ⟨pre,b,post,cur,hseek,hle,hskip,hleft,hgt,htotal,hdrop⟩ := hw.seek_drop m hlt true
  refine ⟨n, ?_, by rw [htake, hlen]⟩
  rw [if_neg hnone, hseek, htake, hdrop]
  dsimp only
  by_cases hfits : n ≤ b.size - (offset-cur)
  · have hfits' := UInt32.le_iff_toNat_le.mp hfits
    rw [if_pos hfits, take_append_of_le_length (by rw [length_bytesAt]; exact hfits'),
      take_bytesAt m _ hfits']
  have hgt' : (b.size - (offset-cur)).toNat < n.toNat := by
    apply Nat.lt_of_not_le
    exact fun h => hfits (UInt32.le_iff_toNat_le.mpr h)
  have hrest : (n - (b.size - (offset-cur))).toNat =
      n.toNat - (b.size - (offset-cur)).toNat := toNat_sub_of_le (le_of_lt hgt')
  have hsum : b.size - (offset-cur) + (n - (b.size - (offset-cur))) = n := by
    rw [UInt32.add_comm, UInt32.sub_add_cancel]
  have hfst : (bytesAt m (b.head + (offset-cur).toNat) (b.size - (offset-cur)).toNat).take n.toNat =
      bytesAt m (b.head + (offset-cur).toNat) (b.size - (offset-cur)).toNat := by
    apply take_of_length_le
    rw [length_bytesAt]
    exact le_of_lt hgt'
  rw [if_neg hfits, copyRest_spec m (by omega), take_append, length_bytesAt, hfst, hrest]
  rw [hsum]

end Liano.Net
