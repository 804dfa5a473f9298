import Liano.Net.FromExt

/-! NetbufFromBufList: a net buffer over the blocks of a list of buffers. -/
namespace Liano.Net

open Memory List

def bufListFragments (bufList : List NetBuf) : List NetFragment := bufList.flatMap fun nbuf =>
    (nbuf.blockOp.filter fun b => b.size != 0).map fun b => ⟨b.size, b.head⟩

structure BufListPool where
  fragments : Bool
  firstBlock : Option Nat
  nbuf : Bool
deriving DecidableEq, Repr

/-- NetbufFromBufList; NetbufFromExt asserts that its table is not empty. -/
def netbufFromBufList (m : Memory) (bufList : List NetBuf) (headSpace headerLen : UInt32)
    (pool : BufListPool) : Except Fault (Memory × Option NetBuf) :=
  if pool.fragments = false then .ok (m,none)
  else if bufListFragments bufList = [] then .error .assertion
  else
    match netbufFromExt m (bufListFragments bufList) headSpace headerLen pool.firstBlock
        pool.nbuf with
    | .error fault => .error fault
    | .ok (m,_,nbuf) => .ok (m,nbuf)

section
variable {m : Memory} {bufList : List NetBuf}

theorem fragment_data_of_block (b : NetBlockOp) :
    (⟨b.size, b.head⟩ : NetFragment).data m = b.data m := rfl

theorem flatMap_blocks_in_use (l : List NetBlockOp) :
    ((l.filter fun b => b.size != 0).map fun b => (⟨b.size, b.head⟩ : NetFragment)).flatMap
      (NetFragment.data m) = l.flatMap (NetBlockOp.data m) := by
  induction l with
  | nil => rfl
  | cons b l ih =>
    by_cases hb : b.size = 0
    · have hempty : b.data m = [] := by
        rw [← length_eq_zero_iff, length_data, hb]
        rfl
      rw [filter_cons_of_neg (by rw [hb]; decide), ih, flatMap_cons, hempty, nil_append]
    · rw [filter_cons_of_pos (by rw [bne_iff_ne]; exact hb), map_cons,
        flatMap_cons, ih, flatMap_cons, fragment_data_of_block]

theorem bufListFragments_data (m : Memory) (bufList : List NetBuf) :
    (bufListFragments bufList).flatMap (NetFragment.data m) = bufList.flatMap (contents m) := by
  induction bufList with
  | nil => rfl
  | cons nbuf rest ih =>
    unfold bufListFragments at ih ⊢
    rw [flatMap_cons, flatMap_append, ih, flatMap_blocks_in_use, flatMap_cons]
    rfl

theorem pulledLen_zero (ext : List NetFragment) : pulledLen ext 0 = 0 := by
  cases ext with
  | nil => rfl
  | cons f ext =>
    unfold pulledLen
    dsimp only
    rw [if_pos (.inl (UInt32.zero_le))]

theorem netbufFromExt_without_header (m : Memory) (ext : List NetFragment)
    (pool pool' : Option Nat) (allocated : Bool) :
    netbufFromExt m ext 0 0 pool allocated = netbufFromExt m ext 0 0 pool' allocated := by
  unfold netbufFromExt
  rw [pulledLen_zero]
  rfl

theorem netbufFromExt_memory {m m' : Memory} {ext ext' : List NetFragment} {pool : Option Nat}
    {allocated : Bool} {result : Option NetBuf}
    (h : netbufFromExt m ext 0 0 pool allocated = .ok (m',ext',result)) : m = m' := by
  unfold netbufFromExt at h
  rw [pulledLen_zero] at h
  rw [if_pos ⟨rfl, rfl⟩] at h
  unfold buildExt at h
  dsimp only at h
  split at h
  · exact (Prod.mk.inj (Except.ok.inj h)).1
  rw [if_pos (show (0 : UInt32) + 0 = 0 from rfl)] at h
  split at h
  · exact nomatch h
  · exact (Prod.mk.inj (Except.ok.inj h)).1

theorem netbufFromBufList_contents (m : Memory) {bufList : List NetBuf} {s : Bytes}
    (hcont : bufList.flatMap (contents m) = s) (hne : s ≠ []) (hlen : s.length < 2^32)
    (pool : BufListPool) : ∃ result, netbufFromBufList m bufList 0 0 pool = .ok (m,result) ∧
      (pool.fragments = true → pool.nbuf = true → result.isSome = true) ∧
      ∀ nbuf, result = some nbuf → nbuf.WellFormed ∧ contents m nbuf = s := by
  have hdata := bufListFragments_data m bufList
  rw [hcont] at hdata
  have hext : bufListFragments bufList ≠ [] := by
    intro h
    rw [h] at hdata
    exact hne hdata.symm
  have htotal : total NetFragment.len (bufListFragments bufList) < 2^32 := by
    rw [← length_fragments m, hdata]
    exact hlen
  have hexact : FromExtExact m (bufListFragments bufList) 0 0 := by
    rw [netbufFromExt_exact_iff m hext, pulledLen_zero]
    exact ⟨htotal, by decide, not_splitsFragment_zero _⟩
  obtain ⟨p,hp⟩ := exists_behind (bufListFragments bufList)
  obtain ⟨m',result,hrun,hsome,hres⟩ := hexact (some p) pool.nbuf (by
    intro q hq f hf
    rw [← Option.some.inj hq]
    exact .inl (hp f hf))
  obtain rfl := netbufFromExt_memory hrun
  rw [netbufFromExt_without_header m _ (some p) pool.firstBlock] at hrun
  unfold netbufFromBufList
  by_cases hfragments : pool.fragments = false
  · refine ⟨none, if_pos hfragments, fun h => ?_, fun nbuf h => nomatch h⟩
    rw [hfragments] at h
    exact absurd h Bool.false_ne_true
  rw [if_neg hfragments, if_neg hext, hrun]
  refine ⟨result, rfl, fun _ h => hsome h rfl, fun nbuf hnbuf => ?_⟩
  obtain ⟨hw,-,hc,-⟩ := hres nbuf hnbuf
  exact ⟨hw, hc.trans hdata⟩

end

end Liano.Net
