import Liano.Net.Fragment

/-! NetbufFromExt: a net buffer over the fragments of a table. The header is pulled into a block of
its own, and a fragment it ends in is shortened in the caller's table until the buffer is built. -/
namespace Liano.Net

open List hiding min

open Memory

structure NetFragment where
  len : UInt32
  bulk : Nat
deriving DecidableEq, Repr

def NetFragment.data (m : Memory) (f : NetFragment) : Bytes := bytesAt m f.bulk f.len.toNat

/-- The variables of NetbufFromExt while the header is copied, with the caller's table and the
memory. -/
structure HeaderCopy where
  memory : Memory
  extFragment : List NetFragment
  index : Nat
  copied : UInt32
  totalLen : UInt32
  blockNum : Nat
  savedIndex : Nat
  savedFragment : NetFragment

/-- The loop that copies the header to `header` on, in a block that ends at `firstEnd`, from the
fragments that are left. -/
def copyHeader (header firstEnd : Nat) : List NetFragment → UInt32 → HeaderCopy → Except Fault HeaderCopy
  | [], _, st => .ok st
  | f :: fs, len, st =>
    if f.len ≤ len then
      if firstEnd < header+st.copied.toNat+f.len.toNat then .error .outOfBounds
      else
        let st := { st with
          memory := copyMem st.memory (header+st.copied.toNat) f.bulk f.len.toNat
          index := st.index+1
          copied := st.copied+f.len
          totalLen := st.totalLen+f.len
          blockNum := st.blockNum - 1 }
        if len-f.len = 0 then .ok st else copyHeader header firstEnd fs (len-f.len) st
    else if firstEnd < header+st.copied.toNat+len.toNat then .error .outOfBounds
    else
      .ok { st with
        memory := copyMem st.memory (header+st.copied.toNat) f.bulk len.toNat
        copied := st.copied+len
        totalLen := st.totalLen+len
        savedIndex := st.index
        savedFragment := f
        extFragment := st.extFragment.set st.index ⟨f.len-len, f.bulk+len.toNat⟩ }

/-- What NetbufFromExt leaves: the memory, the caller's table and the buffer or NULL. -/
abbrev FromExtResult := Memory × List NetFragment × Option NetBuf

/-- The second half of NetbufFromExt, from NetbufAllocStruct on. -/
def buildExt (st : HeaderCopy) (firstBlock : Nat) (firstBlockLen headSpace : UInt32)
    (allocated : Bool) : Except Fault FromExtResult :=
  if allocated = false then .ok (st.memory,st.extFragment,none)
  else
    let rest := st.extFragment.drop st.index
    let ops :=
      (if firstBlockLen = 0 then []
        else [{ netbufSetBlockOp firstBlock (headSpace+st.copied) with
          head := firstBlock+headSpace.toNat, size := st.copied }]) ++
        rest.map fun f => netbufSetBlockOp f.bulk f.len
    if st.blockNum < ops.length then .error .assertion
    else
      .ok (st.memory,
        if st.savedIndex = 0 then st.extFragment
        else st.extFragment.set st.savedIndex st.savedFragment,
        some ⟨ops ++ replicate (st.blockNum-ops.length) ⟨0, 0, 0, 0, 0⟩,
          rest.foldl (fun t f => t+f.len) st.totalLen⟩)

/-- HeadLen after the test whether the header is contiguous as it is. -/
def pulledLen (ext : List NetFragment) (headLen : UInt32) : UInt32 :=
  match ext with
  | [] => 0
  | f :: _ => if headLen ≤ f.len ∨ ext.length = 1 then 0 else headLen

def netbufFromExt (m : Memory) (ext : List NetFragment) (headSpace headLen : UInt32)
    (pool : Option Nat) (allocated : Bool) : Except Fault FromExtResult :=
  let headLen := pulledLen ext headLen
  let firstBlockLen := headLen+headSpace
  let start : HeaderCopy := ⟨m, ext, 0, 0, 0, ext.length, 0, ⟨0, 0⟩⟩
  if headSpace = 0 ∧ headLen = 0 then buildExt start 0 firstBlockLen headSpace allocated
  else
    match pool with
    | none => .ok (m,ext,none)
    | some firstBlock =>
      let start := { start with blockNum := ext.length + 1 }
      if headLen = 0 then buildExt start firstBlock firstBlockLen headSpace allocated
      else
        match copyHeader (firstBlock+headSpace.toNat) (firstBlock+firstBlockLen.toNat) ext
            headLen start with
        | .error fault => .error fault
        | .ok st => buildExt st firstBlock firstBlockLen headSpace allocated

def Fresh (ext : List NetFragment) (p n : Nat) : Prop := ∀ f ∈ ext, f.bulk+f.len.toNat ≤ p ∨ p+n ≤ f.bulk

/-- A header of `n` bytes ends inside a fragment. -/
def SplitsFragment : Nat → List NetFragment → Prop
  | _, [] => False
  | n, f :: fs => if f.len.toNat ≤ n then SplitsFragment (n-f.len.toNat) fs else 0 < n

/-- The buffer holds the bytes of the fragments, with the header in its first block where it is
pulled there, and the caller's table is as it was, whether there is a buffer or not. -/
def FromExtExact (m : Memory) (ext : List NetFragment) (headSpace headLen : UInt32) : Prop :=
  ∀ (pool : Option Nat) (allocated : Bool),
    (∀ p, pool = some p → Fresh ext p (pulledLen ext headLen + headSpace).toNat) →
    ∃ m' result, netbufFromExt m ext headSpace headLen pool allocated = .ok (m',ext,result) ∧
      (allocated = true → pool.isSome = true → result.isSome = true) ∧
      ∀ nbuf, result = some nbuf → nbuf.WellFormed ∧ HeadSpaceFree nbuf headSpace ∧
        contents m' nbuf = ext.flatMap (NetFragment.data m) ∧
        (pulledLen ext headLen ≠ 0 → ∃ b, nbuf.blockOp.head? = some b ∧
          b.data m' = (ext.flatMap (NetFragment.data m)).take headLen.toNat)

variable {m : Memory} {ext fs : List NetFragment} {headSpace headLen len : UInt32}

@[simp] theorem length_fragment (m : Memory) (f : NetFragment) : (f.data m).length = f.len.toNat := by
  unfold NetFragment.data
  simp

theorem length_fragments (m : Memory) (l : List NetFragment) :
    (l.flatMap (NetFragment.data m)).length = total NetFragment.len l :=
  length_flatMap_total fun f _ => length_fragment m f

theorem not_splitsFragment_zero (l : List NetFragment) : ¬ SplitsFragment 0 l := by
  induction l with
  | nil => exact id
  | cons f l ih =>
    rw [SplitsFragment]
    split
    · rw [Nat.zero_sub]
      exact ih
    · exact lt_irrefl 0

/-- The header's `n` bytes are at `header` on and the table has the others from `index` on. -/
structure Pulled (m : Memory) (ext : List NetFragment) (header n : Nat) (st : HeaderCopy) :
    Prop where
  header_eq : bytesAt st.memory header st.copied.toNat =
    (ext.flatMap (NetFragment.data m)).take n
  rest_eq : (st.extFragment.drop st.index).flatMap (NetFragment.data st.memory) =
    (ext.flatMap (NetFragment.data m)).drop n
  copied_eq : st.copied.toNat = min n (total NetFragment.len ext)
  totalLen_eq : st.totalLen = st.copied
  total_rest : total NetFragment.len (st.extFragment.drop st.index) =
    total NetFragment.len ext - n
  restored : (if st.savedIndex = 0 then st.extFragment
    else st.extFragment.set st.savedIndex st.savedFragment) = ext
  unchanged_iff : st.extFragment = ext ↔ ¬ SplitsFragment n ext

theorem pulled_start (m : Memory) (ext : List NetFragment) (header blockNum : Nat) :
    Pulled m ext header 0 ⟨m, ext, 0, 0, 0, blockNum, 0, ⟨0, 0⟩⟩ where
  header_eq := by rfl
  rest_eq := rfl
  copied_eq := (Nat.zero_min _).symm
  totalLen_eq := rfl
  total_rest := rfl
  restored := rfl
  unchanged_iff := ⟨fun _ => not_splitsFragment_zero ext, fun _ => rfl⟩

/-- What the loop does from the middle of the table on: `before` is the header copied so far. -/
structure CopiedFrom (m : Memory) (ext fs : List NetFragment) (header n : Nat)
    (st st' : HeaderCopy) : Prop where
  frame : ∀ f ∈ ext, f.data st'.memory = f.data m
  header_eq : bytesAt st'.memory header st'.copied.toNat =
    bytesAt st.memory header st.copied.toNat ++ (fs.flatMap (NetFragment.data m)).take n
  rest_eq : (st'.extFragment.drop st'.index).flatMap (NetFragment.data st'.memory) =
    (fs.flatMap (NetFragment.data m)).drop n
  copied_eq : st'.copied.toNat = st.copied.toNat + min n (total NetFragment.len fs)
  totalLen_eq : st'.totalLen = st'.copied
  total_rest : total NetFragment.len (st'.extFragment.drop st'.index) =
    total NetFragment.len fs - n
  blockNum_eq : st'.blockNum = (st'.extFragment.drop st'.index).length + 1
  restored : (if st'.savedIndex = 0 then st'.extFragment
    else st'.extFragment.set st'.savedIndex st'.savedFragment) = ext
  unchanged_iff : st'.extFragment = ext ↔ ¬ SplitsFragment n fs

theorem data_copyMem_of_fresh {header firstEnd dst src n : Nat} {st : Memory}
    (hfresh : ∀ f ∈ ext, f.bulk+f.len.toNat ≤ header ∨ firstEnd ≤ f.bulk)
    (hframe : ∀ f ∈ ext, f.data st = f.data m) (hdst : header ≤ dst) (hend : dst+n ≤ firstEnd) :
    ∀ f ∈ ext, f.data (copyMem st dst src n) = f.data m := by
  intro f hf
  rw [← hframe f hf, NetFragment.data, NetFragment.data]
  apply bytesAt_copyMem_of_disjoint
  rcases hfresh f hf with h | h
  · exact .inl (by omega)
  · exact .inr (by omega)

theorem bytesAt_copyMem_behind (st : Memory) (header k src n : Nat) :
    bytesAt (copyMem st (header+k) src n) header (k+n) =
      bytesAt st header k ++ bytesAt st src n := by
  rw [bytesAt_add, bytesAt_copyMem, bytesAt_copyMem_of_disjoint (.inl le_rfl)]

/-- The loop in the middle of the table, with `len` bytes of the header to come from `fs`. -/
structure Copying (m : Memory) (ext : List NetFragment) (header firstEnd : Nat) (fs : List NetFragment)
    (len : UInt32) (st : HeaderCopy) : Prop where
  fresh : ∀ f ∈ ext, f.bulk+f.len.toNat ≤ header ∨ firstEnd ≤ f.bulk
  frame : ∀ f ∈ ext, f.data st.memory = f.data m
  table : st.extFragment = ext
  rest : ext.drop st.index = fs
  room : header+st.copied.toNat+len.toNat ≤ firstEnd
  fits : st.copied.toNat+len.toNat < 2^32
  saved : st.savedIndex = 0
  first : st.index = 0 → ∀ f, fs.head? = some f → f.len ≤ len
  totalLen : st.totalLen = st.copied
  blockNum : st.blockNum = fs.length+1

section
variable {header firstEnd : Nat} {st st' : HeaderCopy} {f : NetFragment}

/-- Nothing is left to copy. -/
theorem Copying.done (h : Copying m ext header firstEnd fs len st) (hlast : len = 0 ∨ fs = []) :
    CopiedFrom m ext fs header len.toNat st st := by
  have htake : (fs.flatMap (NetFragment.data m)).take len.toNat = [] ∧ ¬ SplitsFragment len.toNat fs ∧
      (fs.flatMap (NetFragment.data m)).drop len.toNat = fs.flatMap (NetFragment.data m) ∧
      min len.toNat (total NetFragment.len fs) = 0 ∧
      total NetFragment.len fs - len.toNat = total NetFragment.len fs := by
    rcases hlast with rfl | rfl
    · exact ⟨take_zero, not_splitsFragment_zero fs, drop_zero, Nat.zero_min _, Nat.sub_zero _⟩
    · exact ⟨take_nil, id, drop_nil, Nat.min_zero _, Nat.zero_sub _⟩
  obtain ⟨htake,hsplit,hdrop,hmin,hsub⟩ := htake
  refine ⟨h.frame, ?_, ?_, ?_, h.totalLen, ?_, ?_, ?_, fun _ => hsplit, fun _ => h.table⟩
  · rw [htake, append_nil]
  · rw [h.table, h.rest, hdrop]
    apply flatMap_congr
    intro g hg
    rw [← h.rest] at hg
    exact h.frame g (mem_of_mem_drop hg)
  · rw [hmin, add_zero]
  · rw [h.table, h.rest, hsub]
  · rw [h.table, h.rest, h.blockNum]
  · rw [if_pos h.saved, h.table]

theorem Copying.at_index (h : Copying m ext header firstEnd (f :: fs) len st) : ext[st.index]? = some f := by
  rw [← head?_drop, h.rest, head?_cons]

theorem Copying.drop_succ (h : Copying m ext header firstEnd (f :: fs) len st) :
    ext.drop (st.index+1) = fs := by rw [← tail_drop, h.rest, tail_cons]

theorem Copying.data (h : Copying m ext header firstEnd (f :: fs) len st) {k : Nat} (hk : k ≤ f.len.toNat) :
    bytesAt st.memory f.bulk k = (f.data m).take k := by
  rw [← h.frame f (mem_of_getElem? h.at_index), NetFragment.data, take_bytesAt _ _ hk]

def HeaderCopy.whole (header : Nat) (f : NetFragment) (st : HeaderCopy) : HeaderCopy :=
  { st with
    memory := copyMem st.memory (header+st.copied.toNat) f.bulk f.len.toNat
    index := st.index+1
    copied := st.copied+f.len
    totalLen := st.totalLen+f.len
    blockNum := st.blockNum - 1 }

/-- The whole fragment goes to the header. -/
theorem Copying.whole (h : Copying m ext header firstEnd (f :: fs) len st) (hwhole : f.len ≤ len) :
    Copying m ext header firstEnd fs (len-f.len) (st.whole header f) := by
  have hle := UInt32.le_iff_toNat_le.mp hwhole
  have hroom := h.room
  have hfits := h.fits
  have hsub : (len-f.len).toNat = len.toNat-f.len.toNat := toNat_sub_of_le hle
  have hadd : (st.copied+f.len).toNat = st.copied.toNat+f.len.toNat := toNat_add_of_lt (by omega)
  exact {
    fresh := h.fresh
    frame := data_copyMem_of_fresh h.fresh h.frame (by omega) (by omega)
    table := h.table
    rest := h.drop_succ
    room := by
      dsimp only [HeaderCopy.whole]
      omega
    fits := by
      dsimp only [HeaderCopy.whole]
      omega
    saved := h.saved
    first := fun hzero => absurd hzero (Nat.succ_ne_zero _)
    totalLen := by
      dsimp only [HeaderCopy.whole]
      rw [h.totalLen]
    blockNum := by
      dsimp only [HeaderCopy.whole]
      rw [h.blockNum]
      rfl }

theorem CopiedFrom.whole (h : Copying m ext header firstEnd (f :: fs) len st) (hwhole : f.len ≤ len)
    (hrest : CopiedFrom m ext fs header (len-f.len).toNat (st.whole header f) st') :
    CopiedFrom m ext (f :: fs) header len.toNat st st' := by
  have hle := UInt32.le_iff_toNat_le.mp hwhole
  have hfits := h.fits
  have hsub : (len-f.len).toNat = len.toNat-f.len.toNat := toNat_sub_of_le hle
  have hadd : (st.copied+f.len).toNat = st.copied.toNat+f.len.toNat := toNat_add_of_lt (by omega)
  have hcopied : (st.whole header f).copied = st.copied+f.len := rfl
  have hlen : (f.data m).length ≤ len.toNat := by rwa [length_fragment]
  refine ⟨hrest.frame, ?_, ?_, ?_, hrest.totalLen_eq, ?_, hrest.blockNum_eq, hrest.restored, ?_⟩
  · have hhdr : bytesAt (st.whole header f).memory header (st.copied+f.len).toNat =
        bytesAt st.memory header st.copied.toNat ++ f.data m := by
      rw [hadd]
      dsimp only [HeaderCopy.whole]
      rw [bytesAt_copyMem_behind, h.data le_rfl, ← length_fragment m f, take_length]
    rw [hrest.header_eq, hcopied, hhdr, flatMap_cons, take_append, length_fragment, take_of_length_le hlen,
      hsub, append_assoc]
  · rw [hrest.rest_eq, flatMap_cons, drop_append, length_fragment, drop_eq_nil_of_le hlen, nil_append, hsub]
  · rw [hrest.copied_eq, hcopied, total_cons]
    omega
  · rw [hrest.total_rest, total_cons]
    omega
  · rw [hrest.unchanged_iff, SplitsFragment, if_pos hle, hsub]

/-- The header ends inside the fragment. -/
theorem Copying.inside (h : Copying m ext header firstEnd (f :: fs) len st) (hwhole : ¬ f.len ≤ len)
    (hne : len ≠ 0) : CopiedFrom m ext (f :: fs) header len.toNat st { st with
      memory := copyMem st.memory (header+st.copied.toNat) f.bulk len.toNat
      copied := st.copied+len
      totalLen := st.totalLen+len
      savedIndex := st.index
      savedFragment := f
      extFragment := st.extFragment.set st.index ⟨f.len-len, f.bulk+len.toNat⟩ } := by
  have hlt : len.toNat < f.len.toNat := by
    apply Nat.lt_of_not_le
    exact fun h => hwhole (UInt32.le_iff_toNat_le.mpr h)
  have hpos : len.toNat ≠ 0 := fun h => hne (UInt32.toNat_inj.mp h)
  have hidx : st.index ≠ 0 := fun hzero => hwhole (h.first hzero f head?_cons)
  have hsub : (f.len-len).toNat = f.len.toNat-len.toNat := toNat_sub_of_le (le_of_lt hlt)
  have hadd : (st.copied+len).toNat = st.copied.toNat+len.toNat := toNat_add_of_lt h.fits
  have hroom := h.room
  have hframe := @data_copyMem_of_fresh m ext header firstEnd (header+st.copied.toNat)
    f.bulk len.toNat st.memory h.fresh h.frame (by omega) (by omega)
  have hbnd : st.index < ext.length := (List.getElem?_eq_some_iff.mp h.at_index).1
  have hcut : (ext.set st.index ⟨f.len-len, f.bulk+len.toNat⟩).drop st.index =
      ⟨f.len-len, f.bulk+len.toNat⟩ :: fs := by
    rw [drop_set, if_neg (lt_irrefl _), Nat.sub_self, h.rest, set_cons_zero]
  have hkept : fs.flatMap (NetFragment.data
      (copyMem st.memory (header+st.copied.toNat) f.bulk len.toNat)) =
      fs.flatMap (NetFragment.data m) := by
    apply flatMap_congr
    intro g hg
    apply hframe
    rw [← h.drop_succ] at hg
    exact mem_of_mem_drop hg
  refine ⟨hframe, ?_, ?_, ?_, ?_, ?_, ?_, ?_, ?_, ?_⟩
  · dsimp only
    rw [hadd, bytesAt_copyMem_behind, h.data (le_of_lt hlt), flatMap_cons,
      take_append_of_le_length (by rw [length_fragment]; omega)]
  · dsimp only
    have htail : NetFragment.data
        (copyMem st.memory (header+st.copied.toNat) f.bulk len.toNat)
        ⟨f.len-len, f.bulk+len.toNat⟩ = (f.data m).drop len.toNat := by
      rw [← hframe f (mem_of_getElem? h.at_index), NetFragment.data, NetFragment.data,
        drop_bytesAt _ _ (by omega), hsub]
    rw [h.table, hcut, flatMap_cons, htail, hkept, flatMap_cons,
      drop_append_of_le_length (by rw [length_fragment]; omega)]
  · rw [total_cons]
    dsimp only
    omega
  · dsimp only
    rw [h.totalLen]
  · dsimp only
    rw [h.table, hcut, total_cons, total_cons]
    dsimp only
    omega
  · dsimp only
    rw [h.table, hcut, h.blockNum]
    rfl
  · dsimp only
    rw [if_neg hidx, h.table, set_set]
    apply ext_getElem?
    intro i
    rw [getElem?_set]
    by_cases hi : st.index = i
    · rw [if_pos hi, if_pos hbnd, ← hi, h.at_index]
    · rw [if_neg hi]
  · intro heq
    dsimp only at heq
    rw [h.table] at heq
    have hsame : (ext.set st.index ⟨f.len-len, f.bulk+len.toNat⟩)[st.index]? =
        ext[st.index]? := by rw [heq]
    rw [getElem?_set_self hbnd, h.at_index] at hsame
    have hlen : f.len-len = f.len := congrArg NetFragment.len (Option.some.inj hsame)
    have : (f.len-len).toNat = f.len.toNat := by rw [hlen]
    omega
  · intro hnot
    refine absurd ?_ hnot
    rw [SplitsFragment, if_neg (by omega)]
    omega

theorem copyHeader_spec (h : Copying m ext header firstEnd fs len st) (hne : len ≠ 0) :
    ∃ st', copyHeader header firstEnd fs len st = .ok st' ∧
      CopiedFrom m ext fs header len.toNat st st' := by
  induction fs generalizing len st with
  | nil => exact ⟨st, rfl, h.done (.inr rfl)⟩
  | cons f fs ih =>
    have hroom := h.room
    by_cases hwhole : f.len ≤ len
    · have hle := UInt32.le_iff_toNat_le.mp hwhole
      rw [copyHeader, if_pos hwhole, if_neg (by omega)]
      by_cases hdone : len-f.len = 0
      · exact ⟨_, if_pos hdone, .whole h hwhole ((h.whole hwhole).done (.inl hdone))⟩
      · obtain ⟨st',hrun,hrest⟩ := ih (h.whole hwhole) hdone
        exact ⟨st', (if_neg hdone).trans hrun, .whole h hwhole hrest⟩
    · rw [copyHeader, if_neg hwhole, if_neg (by omega)]
      exact ⟨_, rfl, h.inside hwhole hne⟩

end

theorem foldl_len (t : UInt32) (l : List NetFragment) :
    (l.foldl (fun t f => t+f.len) t).toNat = (t.toNat + total NetFragment.len l) % 2^32 := by
  induction l generalizing t with
  | nil => exact (Nat.mod_eq_of_lt t.toNat_lt).symm
  | cons f l ih =>
    rw [foldl_cons, ih, UInt32.toNat_add, total_cons]
    omega

/-- The buffer that is built, whose total size is the sum of the fragments' as far as 32 bits can
hold it. -/
theorem buildExt_spec {st : HeaderCopy} {firstBlock n : Nat} {firstBlockLen : UInt32}
    (h : Pulled m ext (firstBlock+headSpace.toNat) n st)
    (hnone : firstBlockLen = 0 → headSpace = 0 ∧ n = 0)
    (hfit : headSpace.toNat+st.copied.toNat < 2^32) (hnum : st.blockNum =
      (st.extFragment.drop st.index).length + if firstBlockLen = 0 then 0 else 1)
    (hne : st.blockNum ≠ 0) :
    ∃ nbuf, buildExt st firstBlock firstBlockLen headSpace true =
        .ok (st.memory, ext, some nbuf) ∧
      nbuf.blockOp ≠ [] ∧ (∀ b ∈ nbuf.blockOp, b.WellFormed) ∧
      total NetBlockOp.size nbuf.blockOp = total NetFragment.len ext ∧
      nbuf.totalSize.toNat = total NetFragment.len ext % 2^32 ∧
      HeadSpaceFree nbuf headSpace ∧
      contents st.memory nbuf = ext.flatMap (NetFragment.data m) ∧
      (firstBlockLen ≠ 0 → ∃ b, nbuf.blockOp.head? = some b ∧
        b.data st.memory = (ext.flatMap (NetFragment.data m)).take n) := by
  generalize hrest : st.extFragment.drop st.index = rest at hnum
  have hdata := h.rest_eq
  have htotal := h.total_rest
  rw [hrest] at hdata htotal
  have hcopied := h.copied_eq
  have hblk : (rest.map fun f => netbufSetBlockOp f.bulk f.len).flatMap
      (NetBlockOp.data st.memory) = rest.flatMap (NetFragment.data st.memory) := by
    rw [flatMap_map]
    rfl
  have hsizes : total NetBlockOp.size (rest.map fun f => netbufSetBlockOp f.bulk f.len) =
      total NetFragment.len rest := by
    rw [total, map_map]
    rfl
  have hwell : ∀ b ∈ rest.map fun f => netbufSetBlockOp f.bulk f.len, b.WellFormed := by
    intro b hb
    obtain ⟨f,-,rfl⟩ := mem_map.mp hb
    exact netbufSetBlockOp_wellFormed _ _
  have hsum : (rest.foldl (fun t f => t+f.len) st.totalLen).toNat =
      total NetFragment.len ext % 2^32 := by
    rw [foldl_len, h.totalLen_eq]
    omega
  unfold buildExt
  rw [if_neg (by decide), hrest, h.restored]
  dsimp only
  by_cases hzero : firstBlockLen = 0
  · -- no first block: the buffer is the table
    obtain ⟨rfl,rfl⟩ := hnone hzero
    rw [if_pos hzero, add_zero] at hnum
    have hlen : ([] ++ rest.map fun (f : NetFragment) => netbufSetBlockOp f.bulk f.len).length =
        st.blockNum := by rw [nil_append, length_map, hnum]
    rw [if_pos hzero, hlen, if_neg (lt_irrefl _), Nat.sub_self, replicate_zero,
      append_nil, nil_append]
    have hnil : rest ≠ [] := by
      intro hnil
      apply hne
      rw [hnum, hnil]
      rfl
    refine ⟨_, rfl, by simp [hnil], hwell, ?_, hsum, ?_, ?_, fun h => absurd hzero h⟩
    · rw [hsizes, htotal, Nat.sub_zero]
    · obtain ⟨f,fs,rfl⟩ := exists_cons_of_ne_nil hnil
      exact congrArg some (Nat.sub_self f.bulk)
    · rw [contents, hblk, hdata, drop_zero]
  · rw [if_neg hzero] at hnum
    generalize hb : ({ netbufSetBlockOp firstBlock (headSpace+st.copied) with
      head := firstBlock+headSpace.toNat, size := st.copied } : NetBlockOp) = b
    have hadd : (headSpace+st.copied).toNat = headSpace.toNat+st.copied.toNat := toNat_add_of_lt hfit
    have hbsize : b.size = st.copied := by rw [← hb]
    have hbdata : b.data st.memory = (ext.flatMap (NetFragment.data m)).take n := by
      rw [← h.header_eq, ← hb, NetBlockOp.data]
    have hbwell : b.WellFormed := by
      rw [← hb]
      refine ⟨Nat.le_add_right _ _, ?_, le_rfl⟩
      change firstBlock + (headSpace+st.copied).toNat =
        firstBlock+headSpace.toNat+st.copied.toNat
      omega
    have hlen : ([b] ++ rest.map fun f => netbufSetBlockOp f.bulk f.len).length =
        st.blockNum := by rw [length_append, length_map, length_singleton, hnum, add_comm]
    rw [if_neg hzero, hlen, if_neg (lt_irrefl _), Nat.sub_self, replicate_zero,
      append_nil]
    refine ⟨_, rfl, by simp, ?_, ?_, hsum, ?_, ?_, fun _ => ⟨b, rfl, hbdata⟩⟩
    · intro c hc
      rcases mem_cons.mp hc with rfl | hc
      · exact hbwell
      · exact hwell c hc
    · dsimp only
      rw [singleton_append, total_cons, hsizes, hbsize]
      omega
    · rw [HeadSpaceFree, singleton_append, head?_cons, Option.map_some, ← hb]
      exact congrArg some (Nat.add_sub_cancel_left ..)
    · rw [contents, singleton_append, flatMap_cons, hblk, hbdata, hdata,
        take_append_drop]

theorem pulledLen_cons {f : NetFragment} (h : pulledLen (f :: fs) headLen ≠ 0) :
    pulledLen (f :: fs) headLen = headLen ∧ f.len.toNat < headLen.toNat := by
  by_cases hshort : headLen ≤ f.len ∨ (f :: fs).length = 1
  · exact absurd (if_pos hshort) h
  · refine ⟨if_neg hshort, ?_⟩
    apply Nat.lt_of_not_le
    exact fun hle => hshort (.inl (UInt32.le_iff_toNat_le.mpr hle))

theorem eq_zero_of_add {x y : UInt32} (hfit : x.toNat+y.toNat < 2^32) (h : x+y = 0) :
    y = 0 ∧ x.toNat = 0 := by
  have hsum : x.toNat+y.toNat = 0 := by
    rw [← toNat_add_of_lt hfit, h]
    rfl
  have hy : y.toNat = 0 := by omega
  exact ⟨UInt32.toNat_inj.mp hy, by omega⟩

theorem netbufFromExt_run (m : Memory) (hne : ext ≠ []) {pool : Option Nat}
    (hfit : (pulledLen ext headLen).toNat + headSpace.toNat < 2^32)
    (hfresh : ∀ p, pool = some p → Fresh ext p (pulledLen ext headLen + headSpace).toNat)
    (hmem : ¬ (headSpace = 0 ∧ pulledLen ext headLen = 0) → pool.isSome = true) :
    ∃ st firstBlock,
      (∀ allocated, netbufFromExt m ext headSpace headLen pool allocated =
        buildExt st firstBlock (pulledLen ext headLen + headSpace) headSpace allocated) ∧
      Pulled m ext (firstBlock+headSpace.toNat) (pulledLen ext headLen).toNat st ∧
      st.blockNum = (st.extFragment.drop st.index).length +
        (if pulledLen ext headLen + headSpace = 0 then 0 else 1) ∧ st.blockNum ≠ 0 := by
  have hsum : (pulledLen ext headLen + headSpace).toNat =
      (pulledLen ext headLen).toNat + headSpace.toNat := toNat_add_of_lt hfit
  have hlen : ext.length ≠ 0 := fun h => hne (eq_nil_of_length_eq_zero h)
  by_cases hnone : headSpace = 0 ∧ pulledLen ext headLen = 0
  · have hstart := pulled_start m ext (0+headSpace.toNat) ext.length
    refine ⟨⟨m, ext, 0, 0, 0, ext.length, 0, ⟨0, 0⟩⟩, 0, fun allocated => ?_, ?_, ?_, hlen⟩
    · unfold netbufFromExt
      exact if_pos hnone
    · rw [hnone.2]
      exact hstart
    · rw [hnone.1, hnone.2, if_pos (by decide)]
      rfl
  · obtain ⟨p,rfl⟩ := Option.isSome_iff_exists.mp (hmem hnone)
    have hblock : pulledLen ext headLen + headSpace ≠ 0 := by
      intro h
      obtain ⟨hspace,hpull⟩ := eq_zero_of_add hfit h
      exact hnone ⟨hspace, UInt32.toNat_inj.mp hpull⟩
    rw [if_neg hblock]
    by_cases hpull : pulledLen ext headLen = 0
    · have hstart := pulled_start m ext (p+headSpace.toNat) (ext.length+1)
      refine ⟨⟨m, ext, 0, 0, 0, ext.length+1, 0, ⟨0, 0⟩⟩, p, fun allocated => ?_, ?_, ?_,
        Nat.succ_ne_zero _⟩
      · rw [netbufFromExt, if_neg hnone]
        exact if_pos hpull
      · rw [hpull]
        exact hstart
      · rfl
    · have hin : ∀ f ∈ ext, f.bulk+f.len.toNat ≤ p+headSpace.toNat ∨
          p + (pulledLen ext headLen + headSpace).toNat ≤ f.bulk := by
        intro f hf
        rcases hfresh p rfl f hf with h | h
        · exact .inl (by omega)
        · exact .inr h
      have hfst : ∀ f, ext.head? = some f → f.len ≤ pulledLen ext headLen := by
        intro f hf
        obtain ⟨f',fs,rfl⟩ := exists_cons_of_ne_nil hne
        obtain ⟨heq,hlt⟩ := pulledLen_cons hpull
        rw [← Option.some.inj hf, heq]
        exact UInt32.le_iff_toNat_le.mpr (le_of_lt hlt)
      have hzero : (0 : UInt32).toNat = 0 := rfl
      have hcopying : Copying m ext (p+headSpace.toNat) (p + (pulledLen ext headLen + headSpace).toNat) ext
          (pulledLen ext headLen) ⟨m, ext, 0, 0, 0, ext.length+1, 0, ⟨0, 0⟩⟩ :=
        ⟨hin, fun _ _ => rfl, rfl, rfl, by dsimp only; omega, by dsimp only; omega, rfl, fun _ => hfst, rfl, rfl⟩
      obtain ⟨st,hrun,h⟩ := copyHeader_spec hcopying hpull
      refine ⟨st, p, fun allocated => ?_, ⟨?_, h.rest_eq, ?_, h.totalLen_eq, h.total_rest,
        h.restored, h.unchanged_iff⟩, h.blockNum_eq, ?_⟩
      · rw [netbufFromExt, if_neg hnone]
        rw [if_neg hpull, hrun]
      · rw [h.header_eq]
        rfl
      · rw [h.copied_eq]
        exact zero_add _
      · rw [h.blockNum_eq]
        exact Nat.succ_ne_zero _

theorem exists_behind (ext : List NetFragment) : ∃ p, ∀ f ∈ ext, f.bulk+f.len.toNat ≤ p := by
  induction ext with
  | nil => exact ⟨0, fun f hf => absurd hf not_mem_nil⟩
  | cons f ext ih =>
    obtain ⟨p,hp⟩ := ih
    refine ⟨p + (f.bulk+f.len.toNat), ?_⟩
    intro g hg
    rcases mem_cons.mp hg with rfl | hg
    · exact Nat.le_add_left _ _
    · exact Nat.le_add_right_of_le (hp g hg)

theorem netbufFromExt_overrun (m : Memory) (hne : ext ≠ [])
    (hwrap : 2^32 ≤ (pulledLen ext headLen).toNat + headSpace.toNat) (p : Nat) (allocated : Bool) :
    netbufFromExt m ext headSpace headLen (some p) allocated = .error .outOfBounds := by
  have hpull : pulledLen ext headLen ≠ 0 := by
    intro h
    have hlt := headSpace.toNat_lt
    rw [h] at hwrap
    have hzero : (0 : UInt32).toNat = 0 := rfl
    omega
  have hsum : (pulledLen ext headLen + headSpace).toNat =
      ((pulledLen ext headLen).toNat + headSpace.toNat) % 2^32 := UInt32.toNat_add ..
  have hlt := (pulledLen ext headLen).toNat_lt
  obtain ⟨f,fs,rfl⟩ := exists_cons_of_ne_nil hne
  obtain ⟨heq,hshort⟩ := pulledLen_cons hpull
  have hwhole : f.len ≤ pulledLen (f :: fs) headLen := by
    rw [heq]
    exact UInt32.le_iff_toNat_le.mpr (le_of_lt hshort)
  have hrun : ∀ st : HeaderCopy, copyHeader (p+headSpace.toNat)
      (p + (pulledLen (f :: fs) headLen + headSpace).toNat) (f :: fs)
      (pulledLen (f :: fs) headLen) st = .error .outOfBounds := by
    intro st
    rw [copyHeader, if_pos hwhole, if_pos (by omega)]
  rw [netbufFromExt, if_neg fun h => hpull h.2]
  rw [if_neg hpull, hrun]

/-- The buffer and the caller's table are as they should be exactly where the two 32-bit sums do
not wrap and the header does not end inside a fragment. -/
theorem netbufFromExt_exact_iff (m : Memory) (hne : ext ≠ []) (headSpace headLen : UInt32) :
    FromExtExact m ext headSpace headLen ↔
      total NetFragment.len ext < 2^32 ∧
        (pulledLen ext headLen).toNat + headSpace.toNat < 2^32 ∧
        ¬ SplitsFragment (pulledLen ext headLen).toNat ext := by
  constructor
  · intro h
    obtain ⟨p,hp⟩ := exists_behind ext
    have hfresh : ∀ q, some p = some q →
        Fresh ext q (pulledLen ext headLen + headSpace).toNat := by
      intro q hq f hf
      rw [← Option.some.inj hq]
      exact .inl (hp f hf)
    have hfit : (pulledLen ext headLen).toNat + headSpace.toNat < 2^32 := by
      apply Nat.lt_of_not_le
      intro hwrap
      obtain ⟨m',result,hrun,-⟩ := h (some p) true hfresh
      rw [netbufFromExt_overrun m hne hwrap] at hrun
      exact nomatch hrun
    obtain ⟨st,firstBlock,hrun,hpulled,hnum,hpos⟩ := netbufFromExt_run m hne hfit hfresh fun _ => rfl
    refine ⟨?_, hfit, ?_⟩
    · -- the total size of the buffer that is built
      obtain ⟨m',result,hres,hsome,hspec⟩ := h (some p) true hfresh
      obtain ⟨nbuf,rfl⟩ := Option.isSome_iff_exists.mp (hsome rfl rfl)
      obtain ⟨hw,-⟩ := hspec nbuf rfl
      obtain ⟨nbuf',hbuild,-,-,hsizes,htotal,-⟩ := buildExt_spec hpulled
        (eq_zero_of_add hfit) (by have := hpulled.copied_eq; omega) hnum hpos
      rw [hrun, hbuild] at hres
      injection hres with hres
      injection hres with hm hres
      injection hres with ht hres
      have hsame : nbuf' = nbuf := Option.some.inj hres
      have hlt := nbuf.totalSize.toNat_lt
      rw [hsame] at hsizes
      have hw' := hw.totalSize_eq
      omega
    · -- the table that is left when the buffer cannot be allocated
      obtain ⟨m',result,hres,-⟩ := h (some p) false hfresh
      rw [hrun] at hres
      injection hres with hres
      injection hres with hm hres
      injection hres with ht hres
      exact hpulled.unchanged_iff.mp ht
  · rintro ⟨htotal,hfit,hborder⟩ pool allocated hfresh
    by_cases hmem : ¬ (headSpace = 0 ∧ pulledLen ext headLen = 0) → pool.isSome = true
    · obtain ⟨st,firstBlock,hrun,hpulled,hnum,hpos⟩ := netbufFromExt_run m hne hfit hfresh hmem
      rw [hrun]
      cases allocated with
      | false =>
        refine ⟨st.memory, none, ?_, (fun h => nomatch h), (fun nbuf h => nomatch h)⟩
        unfold buildExt
        rw [if_pos rfl, hpulled.unchanged_iff.mpr hborder]
      | true =>
        obtain ⟨nbuf,hbuild,hops,hblk,hsizes,hsum,hfree,hcont,hhead⟩ :=
          buildExt_spec hpulled (eq_zero_of_add hfit) (by have := hpulled.copied_eq; omega)
            hnum hpos
        refine ⟨st.memory, some nbuf, hbuild, fun _ _ => rfl, ?_⟩
        intro nbuf' h
        rw [← Option.some.inj h]
        refine ⟨⟨hops, hblk, ?_⟩, hfree, hcont, ?_⟩
        · rw [hsum, hsizes]
          exact Nat.mod_eq_of_lt htotal
        · intro hpull
          have heq : pulledLen ext headLen = headLen := by
            obtain ⟨f,fs,rfl⟩ := exists_cons_of_ne_nil hne
            exact (pulledLen_cons hpull).1
          rw [← heq]
          apply hhead
          intro hzero
          exact hpull (UInt32.toNat_inj.mp (eq_zero_of_add hfit hzero).2)
    · -- there is no memory for the first block
      have hneed : ¬ (headSpace = 0 ∧ pulledLen ext headLen = 0) := fun h => hmem fun hn => absurd h hn
      have hpool : pool = none := by
        cases pool with
        | none => rfl
        | some p => exact absurd (fun _ => rfl) hmem
      refine ⟨m, none, ?_, fun _ h => ?_, (fun nbuf h => nomatch h)⟩
      · unfold netbufFromExt
        rw [if_neg hneed, hpool]
      · rw [hpool] at h
        exact nomatch h

end Liano.Net
