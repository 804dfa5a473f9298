import Liano.Efi
import Liano.Lib.Separated

/-! The free page list of the SMM core, `mSmmMemoryMap`. `UINTN` has 64 bits. A `FREE_PAGE_LIST` node is in
the first of its pages, so that its address is the start of the run. -/
namespace Liano.Smm

open List hiding after max min

open Liano.Lib

def efiPageSize : Nat := 0x1000

def efiPagesToSize (pages : Nat) : Nat := toUint64 (pages*efiPageSize)

def truncateToPages (a : Nat) : Nat := a / efiPageSize

/-- A difference of two `UINTN`. -/
def subUint64 (a b : Nat) : Nat := toUint64 (a + (2^64-b))

structure FreePageList where
  start : Nat
  numberOfPages : Nat
deriving DecidableEq, Repr

def FreePageList.span (pages : FreePageList) : Span :=
  ⟨pages.start, pages.start + pages.numberOfPages*efiPageSize⟩

/-- What is left of a node, in the order of the list, and the address of the pages that are taken.
`none` stands for a list whose links are destroyed: a node that is put behind itself. -/
def internalAllocPagesOnOneNode (pages : FreePageList) (numberOfPages maxAddress : Nat) :
    Option (List FreePageList × Nat) :=
  let top := min (truncateToPages (subUint64 (toUint64 (maxAddress+1)) pages.start)) pages.numberOfPages
  let bottom := subUint64 top numberOfPages
  if top = 0 ∧ top < pages.numberOfPages then none
  else
    let lower := if bottom > 0 then [⟨pages.start, bottom⟩] else []
    let upper := if top < pages.numberOfPages then
        [⟨pages.start + efiPagesToSize top, pages.numberOfPages-top⟩]
      else []
    some (lower ++ upper, toUint64 (pages.start + efiPagesToSize bottom))

def findBack (p : FreePageList → Bool) :
    List FreePageList → Option (List FreePageList × FreePageList × List FreePageList)
  | [] => none
  | pages :: rest =>
    match findBack p rest with
    | some (before,found,after) => some (pages :: before, found, after)
    | none => if p pages then some ([], pages, rest) else none

def fitsBelow (numberOfPages maxAddress : Nat) (pages : FreePageList) : Bool :=
  pages.numberOfPages ≥ numberOfPages &&
    subUint64 (toUint64 (pages.start + efiPagesToSize numberOfPages)) 1 ≤ maxAddress

def maxUint64 : Nat := 2^64-1

section
variable (freePageList : List FreePageList)

/-- The list without the pages, and their address; `(UINTN)(-1)` where no node has them. -/
def internalAllocMaxAddress (numberOfPages maxAddress : Nat) :
    Option (List FreePageList × Nat) := match findBack (fitsBelow numberOfPages maxAddress) freePageList with
  | none => some (freePageList,maxUint64)
  | some (before,pages,after) =>
    (internalAllocPagesOnOneNode pages numberOfPages maxAddress).map fun (pieces,memory) =>
      (before ++ (pieces ++ after), memory)

/-- `~Address`. -/
def complement (address : Nat) : Nat := maxUint64-address

def isPageAligned (address : Nat) : Bool := address % efiPageSize = 0

def FreePageList.endAddress (pages : FreePageList) : Nat :=
  toUint64 (pages.start + efiPagesToSize pages.numberOfPages)

def internalAllocAddress (numberOfPages address : Nat) :
    Option (List FreePageList × Nat) := if !isPageAligned address then some (freePageList, complement address)
  else
    let endAddress := toUint64 (address + efiPagesToSize numberOfPages)
    match findBack (fun pages => pages.start ≤ address) freePageList with
    | none => some (freePageList, complement address)
    | some (before,pages,after) =>
      if pages.endAddress < endAddress then some (freePageList, complement address)
      else
        (internalAllocPagesOnOneNode pages numberOfPages endAddress).map fun (pieces,memory) =>
          (before ++ (pieces ++ after), memory)

def mergesWith (first next : FreePageList) : Bool :=
  truncateToPages (subUint64 next.start first.start) = first.numberOfPages

def FreePageList.merge (first next : FreePageList) : FreePageList :=
  ⟨first.start, toUint64 (first.numberOfPages+next.numberOfPages)⟩

def internalMergeNodes (first : FreePageList) : List FreePageList → List FreePageList
  | [] => [first]
  | next :: after => if mergesWith first next then first.merge next :: after else first :: next :: after

def insertNode (before : List FreePageList) (node : FreePageList) (after : List FreePageList) :
    List FreePageList := match before.getLast? with
  | none => internalMergeNodes node after
  | some previous =>
    if mergesWith previous node then before.dropLast ++ internalMergeNodes (previous.merge node) after
    else before ++ internalMergeNodes node after

def isBefore (memory : Nat) (pages : FreePageList) : Bool := !decide (memory < pages.start)

/-- The part of `SmmInternalFreePagesEx` about the list; `none` where some of the pages are free. -/
def insertFreePages (memory numberOfPages : Nat) :
    Option (List FreePageList) := let before := freePageList.takeWhile (isBefore memory)
  let after := freePageList.dropWhile (isBefore memory)
  if after.head?.any fun pages => toUint64 (memory + efiPagesToSize numberOfPages) > pages.start then none
  else if before.getLast?.any fun pages => pages.endAddress > memory then none
  else some (insertNode before ⟨memory, numberOfPages⟩ after)

structure NodeOk (pages : FreePageList) : Prop where
  positive : 0 < pages.start
  aligned : pages.start % efiPageSize = 0
  stop : pages.span.stop < 2^64

def spans : List Span := freePageList.map FreePageList.span

structure FreeListOk (freePageList : List FreePageList) : Prop where
  nodes : ∀ pages ∈ freePageList, NodeOk pages
  separated : Separated (spans freePageList)

def IsFree (a : Nat) : Prop := Covers (spans freePageList) a

end

/-- The addresses of `numberOfPages` pages from `memory` on. -/
def InPages (memory numberOfPages a : Nat) : Prop := memory ≤ a ∧ a < memory + numberOfPages*efiPageSize

/-- The list `l'` is `l` without the pages, which were free. -/
structure Takes (l : List FreePageList) (memory numberOfPages : Nat) (l' : List FreePageList) : Prop where
  ok : FreeListOk l'
  positive : 0 < memory
  aligned : memory % efiPageSize = 0
  stop : memory + numberOfPages*efiPageSize < 2^64
  wereFree : ∀ a, InPages memory numberOfPages a → IsFree l a
  free : ∀ a, IsFree l' a ↔ IsFree l a ∧ ¬ InPages memory numberOfPages a

/-- The list `l'` is `l` with the pages, which were not free. -/
structure Gives (l : List FreePageList) (memory numberOfPages : Nat) (l' : List FreePageList) : Prop where
  ok : FreeListOk l'
  wereNot : ∀ a, InPages memory numberOfPages a → ¬ IsFree l a
  free : ∀ a, IsFree l' a ↔ IsFree l a ∨ InPages memory numberOfPages a

section
variable {l l' before after pieces : List FreePageList} {pages node first next : FreePageList}
  {p : FreePageList → Bool} {n max memory address top : Nat}

theorem efiPagesToSize_of_lt (h : n*efiPageSize < 2^64) : efiPagesToSize n = n*efiPageSize := toUint64_of_lt h

theorem subUint64_of_le {a b : Nat} (hle : b ≤ a) (ha : a < 2^64) : subUint64 a b = a-b := by
  unfold subUint64 toUint64
  omega

theorem add_pages {a b : Nat} (hle : a ≤ b) (ha : a % efiPageSize = 0) (hb : b % efiPageSize = 0) :
    a + (b-a) / efiPageSize * efiPageSize = b := by
  unfold efiPageSize at *
  omega

theorem NodeOk.size (h : NodeOk pages) : pages.numberOfPages*efiPageSize < 2^64 := by
  have hstop : pages.start + pages.numberOfPages*efiPageSize < 2^64 := h.stop
  omega

theorem NodeOk.endAddress (h : NodeOk pages) : pages.endAddress = pages.span.stop := by
  unfold FreePageList.endAddress
  rw [efiPagesToSize_of_lt h.size]
  exact toUint64_of_lt h.stop

theorem findBack_none (h : findBack p l = none) : ∀ q ∈ l, p q = false := by
  induction l with
  | nil =>
    intro q hq
    cases hq
  | cons r rs ih =>
    rw [findBack] at h
    cases hrest : findBack p rs with
    | some found =>
      rw [hrest] at h
      cases h
    | none =>
      rw [hrest] at h
      dsimp only at h
      split at h
      · cases h
      rename_i hp
      intro q hq
      rcases mem_cons.mp hq with rfl | hq
      · exact Bool.eq_false_iff.mpr hp
      · exact ih hrest q hq

theorem findBack_some (h : findBack p l = some (before,pages,after)) :
    l = before ++ pages :: after ∧ p pages = true ∧ ∀ q ∈ after, p q = false := by
  induction l generalizing before with
  | nil => cases h
  | cons q qs ih =>
    rw [findBack] at h
    cases hrest : findBack p qs with
    | some found =>
      rw [hrest] at h
      cases h
      obtain ⟨hsplit,hp,hafter⟩ := ih hrest
      exact ⟨by rw [hsplit]; rfl, hp, hafter⟩
    | none =>
      rw [hrest] at h
      dsimp only at h
      split at h
      · rename_i hp
        cases h
        exact ⟨rfl, hp, findBack_none hrest⟩
      · cases h

theorem spans_append : spans (before ++ after) = spans before ++ spans after := map_append

theorem spans_cons : spans (pages :: after) = pages.span :: spans after := rfl

/-- Taking pages of a node cuts them out of its run: the pages below the limit and below the end of the
run, `top` of them, end where the taken ones do. -/
theorem internalAllocPagesOnOneNode_spec (h : NodeOk pages) (hn : 0 < n) (hmax : max < 2^64)
    (hle : pages.start ≤ max+1)
    (htop : top = min ((max+1-pages.start) / efiPageSize) pages.numberOfPages) (hroom : n ≤ top) :
    ∃ pieces, internalAllocPagesOnOneNode pages n max = some (pieces, pages.start + (top-n) * efiPageSize) ∧
      spans pieces = cutOut pages.span (pages.start + (top-n) * efiPageSize)
        (pages.start + top*efiPageSize) ∧ ∀ q ∈ pieces, NodeOk q := by
  obtain ⟨hpos,hal,hstop⟩ := h
  have hstop : pages.start + pages.numberOfPages*efiPageSize < 2^64 := hstop
  have hlim : subUint64 (toUint64 (max+1)) pages.start = max+1-pages.start := by
    unfold subUint64 toUint64
    omega
  have hbottom : subUint64 top n = top-n := by
    refine subUint64_of_le hroom ?_
    unfold efiPageSize at hstop
    omega
  have hsize : ∀ k, k ≤ top → efiPagesToSize k = k*efiPageSize := by
    intro k hk
    refine efiPagesToSize_of_lt (lt_of_le_of_lt ?_ hstop)
    unfold efiPageSize
    omega
  have hmem : toUint64 (pages.start + efiPagesToSize (top-n)) = pages.start + (top-n) * efiPageSize := by
    rw [hsize _ (Nat.sub_le _ _)]
    refine toUint64_of_lt (lt_of_le_of_lt ?_ hstop)
    unfold efiPageSize
    omega
  unfold internalAllocPagesOnOneNode
  rw [hlim, truncateToPages, ← htop]
  rw [if_neg (by omega), hbottom, hmem, hsize top le_rfl]
  refine ⟨_, rfl, ?_, ?_⟩
  · unfold cutOut FreePageList.span
    rw [spans_append]
    dsimp only
    congr 1
    · by_cases hlower : top-n > 0
      · rw [if_pos hlower, if_pos (by unfold efiPageSize; omega)]
        rfl
      · rw [if_neg hlower, if_neg (by unfold efiPageSize; omega)]
        rfl
    · by_cases hupper : top < pages.numberOfPages
      · rw [if_pos hupper, if_pos (by unfold efiPageSize; omega), spans_cons]
        unfold FreePageList.span efiPageSize
        dsimp only
        congr 2
        omega
      · rw [if_neg hupper, if_neg (by unfold efiPageSize; omega)]
        rfl
  · intro q hq
    rcases mem_append.mp hq with hq | hq
    · by_cases hlower : top-n > 0
      · rw [if_pos hlower] at hq
        rw [mem_singleton.mp hq]
        refine ⟨hpos, hal, lt_of_le_of_lt ?_ hstop⟩
        unfold FreePageList.span efiPageSize
        dsimp only
        omega
      · rw [if_neg hlower] at hq
        cases hq
    · by_cases hupper : top < pages.numberOfPages
      · rw [if_pos hupper] at hq
        rw [mem_singleton.mp hq]
        refine ⟨?_, ?_, ?_⟩
        · show 0 < pages.start + top*efiPageSize
          omega
        · show (pages.start + top*efiPageSize) % efiPageSize = 0
          rw [Nat.add_mul_mod_self_right]
          exact hal
        · refine lt_of_le_of_lt ?_ hstop
          unfold FreePageList.span efiPageSize
          dsimp only
          omega
      · rw [if_neg hupper] at hq
        cases hq

theorem takes_of_cut (hlist : FreeListOk (before ++ pages :: after)) (hn : 0 < n)
    (hmem : pages.start ≤ memory) (hend : memory + n*efiPageSize ≤ pages.span.stop)
    (hal : memory % efiPageSize = 0)
    (hspans : spans pieces = cutOut pages.span memory (memory + n*efiPageSize))
    (hnodes : ∀ q ∈ pieces, NodeOk q) : Takes (before ++ pages :: after) memory n (before ++ (pieces ++ after)) := by
  have hok := hlist.nodes pages (mem_append_right _ mem_cons_self)
  have hlt : memory < memory + n*efiPageSize := by
    unfold efiPageSize
    omega
  have hsep := hlist.separated
  rw [spans_append, spans_cons] at hsep
  refine ⟨⟨?_, ?_⟩, ?_, hal, ?_, ?_, ?_⟩
  · intro q hq
    rcases mem_append.mp hq with hq | hq
    · exact hlist.nodes q (mem_append_left _ hq)
    · rcases mem_append.mp hq with hq | hq
      · exact hnodes q hq
      · exact hlist.nodes q (mem_append_right _ (mem_cons_of_mem _ hq))
  · rw [spans_append, spans_append, hspans]
    exact hsep.cutOut hmem hlt hend
  · have hpos := hok.positive
    omega
  · have hstop := hok.stop
    omega
  · intro a ha
    unfold IsFree
    rw [spans_append, spans_cons, covers_append, covers_cons]
    exact .inr (.inl ⟨le_trans hmem ha.1, lt_of_lt_of_le ha.2 hend⟩)
  · intro a
    unfold IsFree
    rw [spans_append, spans_append, hspans, spans_append, spans_cons]
    exact hsep.covers_cutOut hmem hlt hend

theorem FreeListOk.one_node (h : FreeListOk l) (hn : 0 < n)
    (hfree : ∀ a, InPages memory n a → IsFree l a) :
    ∃ pages ∈ l, pages.start ≤ memory ∧ memory + n*efiPageSize ≤ pages.span.stop := by
  have hlt : memory < memory + n*efiPageSize := by
    unfold efiPageSize
    omega
  obtain ⟨x,hx,hstart,hstop⟩ := h.separated.one_span hlt fun a hlow hhigh => hfree a ⟨hlow, hhigh⟩
  obtain ⟨pages,hpgs,rfl⟩ := mem_map.mp hx
  exact ⟨pages, hpgs, hstart, hstop⟩

theorem fitsBelow_iff (h : NodeOk pages) (hn : 0 < n) : fitsBelow n max pages = true ↔
      n ≤ pages.numberOfPages ∧ pages.start + n*efiPageSize ≤ max+1 := by
  unfold fitsBelow
  rw [Bool.and_eq_true, decide_eq_true_iff, decide_eq_true_iff]
  refine and_congr_right fun hle => ?_
  have hstop : pages.start + pages.numberOfPages*efiPageSize < 2^64 := h.stop
  have hend : pages.start + n*efiPageSize < 2^64 := by
    refine lt_of_le_of_lt ?_ hstop
    unfold efiPageSize
    omega
  have hpos : 0 < n*efiPageSize := Nat.mul_pos hn (by decide)
  rw [efiPagesToSize_of_lt (by omega), toUint64_of_lt hend, subUint64_of_le (by omega) hend]
  omega

theorem internalAllocMaxAddress_spec (h : FreeListOk l) (hn : 0 < n) (hmax : max < 2^64) :
    (∃ l' memory, internalAllocMaxAddress l n max = some (l',memory) ∧ Takes l memory n l' ∧
        memory + n*efiPageSize ≤ max+1) ∨ (internalAllocMaxAddress l n max = some (l,maxUint64) ∧
        ∀ memory, memory + n*efiPageSize ≤ max+1 → ¬ ∀ a, InPages memory n a → IsFree l a) := by
  unfold internalAllocMaxAddress
  cases hfind : findBack (fitsBelow n max) l with
  | none =>
    refine .inr ⟨rfl, fun memory hmemory hfree => ?_⟩
    obtain ⟨pages,hpgs,hstart,hstop⟩ := h.one_node hn hfree
    have hfits := findBack_none hfind pages hpgs
    have hstop : memory + n*efiPageSize ≤ pages.start + pages.numberOfPages*efiPageSize := hstop
    refine absurd ((fitsBelow_iff (h.nodes pages hpgs) hn).mpr ⟨?_, ?_⟩) (Bool.eq_false_iff.mp hfits)
    · unfold efiPageSize at hstop
      omega
    · omega
  | some found =>
    obtain ⟨before,pages,after⟩ := found
    obtain ⟨rfl,hfits,-⟩ := findBack_some hfind
    have hok := h.nodes pages (mem_append_right _ mem_cons_self)
    obtain ⟨hroom,hbelow⟩ := (fitsBelow_iff hok hn).mp hfits
    have hdiv : n ≤ (max+1-pages.start) / efiPageSize := by
      unfold efiPageSize at hbelow ⊢
      omega
    obtain ⟨pieces,halloc,hspans,hnodes⟩ :=
      internalAllocPagesOnOneNode_spec hok hn hmax (by omega) rfl (Nat.le_min.mpr ⟨hdiv, hroom⟩)
    have hle1 := min_le_left ((max+1-pages.start) / efiPageSize) pages.numberOfPages
    have hle2 := min_le_right ((max+1-pages.start) / efiPageSize) pages.numberOfPages
    have hle := Nat.le_min.mpr ⟨hdiv, hroom⟩
    generalize min ((max+1-pages.start) / efiPageSize) pages.numberOfPages = top at *
    have hend : pages.start + (top-n) * efiPageSize + n*efiPageSize = pages.start + top*efiPageSize := by
      unfold efiPageSize
      omega
    refine .inl ⟨before ++ (pieces ++ after), pages.start + (top-n) * efiPageSize, ?_, ?_, ?_⟩
    · dsimp only
      rw [halloc]
      rfl
    · refine takes_of_cut h hn (Nat.le_add_right _ _) ?_ ?_ ?_ hnodes
      · rw [hend]
        show _ ≤ pages.start + pages.numberOfPages*efiPageSize
        unfold efiPageSize
        omega
      · rw [Nat.add_mul_mod_self_right]
        exact hok.aligned
      · rw [hend]
        exact hspans
    · rw [hend]
      unfold efiPageSize at hle1 ⊢
      omega

theorem internalAllocAddress_spec (h : FreeListOk l) (hn : 0 < n)
    (hend : address + n*efiPageSize < 2^64) :
    (∃ l', internalAllocAddress l n address = some (l',address) ∧ Takes l address n l') ∨
      (internalAllocAddress l n address = some (l, complement address) ∧
        (address % efiPageSize = 0 → ¬ ∀ a, InPages address n a → IsFree l a)) := by
  unfold internalAllocAddress isPageAligned
  by_cases haligned : address % efiPageSize = 0
  · rw [if_neg (by simpa using haligned)]
    have hsize : efiPagesToSize n = n*efiPageSize := efiPagesToSize_of_lt (by omega)
    rw [hsize, toUint64_of_lt hend]
    cases hfind : findBack (fun pages => pages.start ≤ address) l with
    | none =>
      refine .inr ⟨rfl, fun _ hfree => ?_⟩
      obtain ⟨pages,hpgs,hstart,-⟩ := h.one_node hn hfree
      have hnot := findBack_none hfind pages hpgs
      exact absurd hstart (of_decide_eq_false hnot)
    | some found =>
      obtain ⟨before,pages,after⟩ := found
      obtain ⟨rfl,hstart,hlater⟩ := findBack_some hfind
      have hok := h.nodes pages (mem_append_right _ mem_cons_self)
      have hstart : pages.start ≤ address := of_decide_eq_true hstart
      dsimp only
      rw [hok.endAddress]
      by_cases hshort : pages.span.stop < address + n*efiPageSize
      · rw [if_pos hshort]
        refine .inr ⟨rfl, fun _ hfree => ?_⟩
        obtain ⟨pages',hpages',hstart',hstop'⟩ := h.one_node hn hfree
        rcases mem_append.mp hpages' with hbef | hrest
        · have hsep := h.separated.gaps
          rw [spans_append, spans_cons, pairwise_append] at hsep
          have hgap := hsep.2.2 pages'.span (mem_map_of_mem hbef) pages.span mem_cons_self
          have hgap : pages'.span.stop < pages.start := hgap
          omega
        rcases mem_cons.mp hrest with rfl | hafter
        · omega
        · have hnot := hlater pages' hafter
          exact absurd hstart' (of_decide_eq_false hnot)
      · rw [if_neg hshort]
        have hroom : address + n*efiPageSize ≤ pages.start + pages.numberOfPages*efiPageSize :=
          Nat.le_of_not_lt hshort
        have hstartAl := hok.aligned
        have htop : (address-pages.start) / efiPageSize + n =
            min ((address + n*efiPageSize + 1 - pages.start) / efiPageSize) pages.numberOfPages := by
          unfold efiPageSize at *
          omega
        obtain ⟨pieces,halloc,hspans,hnodes⟩ :=
          internalAllocPagesOnOneNode_spec hok hn hend (by omega) htop (Nat.le_add_left _ _)
        have hmem : pages.start + ((address-pages.start) / efiPageSize + n - n) * efiPageSize = address := by
          rw [Nat.add_sub_cancel]
          exact add_pages hstart hstartAl haligned
        have hlast : pages.start + ((address-pages.start) / efiPageSize + n) * efiPageSize =
            address + n*efiPageSize := by
          rw [add_mul, ← add_assoc, add_pages hstart hstartAl haligned]
        rw [hmem] at halloc hspans
        rw [hlast] at hspans
        refine .inl ⟨before ++ (pieces ++ after), ?_, ?_⟩
        · rw [halloc]
          rfl
        · exact takes_of_cut h hn hstart hroom haligned hspans hnodes
  · rw [if_pos (by simpa using haligned)]
    exact .inr ⟨rfl, fun hal => absurd hal haligned⟩

theorem mergesWith_iff (hfst : NodeOk first) (hnext : next.start % efiPageSize = 0)
    (hstop : next.start < 2^64) (hle : first.span.stop ≤ next.start) :
    mergesWith first next = true ↔ first.span.stop = next.start := by
  have hal := hfst.aligned
  have hle : first.start + first.numberOfPages*efiPageSize ≤ next.start := hle
  have hstart : first.start ≤ next.start := by omega
  unfold mergesWith truncateToPages
  rw [decide_eq_true_iff, subUint64_of_le hstart hstop]
  show _ ↔ first.start + first.numberOfPages*efiPageSize = next.start
  unfold efiPageSize at *
  omega

theorem merge_spec (hfst : NodeOk first) (hstop : next.span.stop < 2^64)
    (htouch : first.span.stop = next.start) :
    NodeOk (first.merge next) ∧ (first.merge next).span = ⟨first.start, next.span.stop⟩ := by
  have htouch : first.start + first.numberOfPages*efiPageSize = next.start := htouch
  have hstop : next.start + next.numberOfPages*efiPageSize < 2^64 := hstop
  have hend : first.start + (first.numberOfPages+next.numberOfPages) * efiPageSize =
      next.start + next.numberOfPages*efiPageSize := by rw [add_mul, ← add_assoc, htouch]
  have hsum : toUint64 (first.numberOfPages+next.numberOfPages) = first.numberOfPages+next.numberOfPages := by
    refine toUint64_of_lt (lt_of_le_of_lt ?_ hstop)
    rw [← hend]
    unfold efiPageSize
    omega
  have hspan : (first.merge next).span = ⟨first.start, next.span.stop⟩ := by
    unfold FreePageList.merge FreePageList.span
    rw [hsum]
    rw [hend]
  refine ⟨⟨hfst.positive, hfst.aligned, ?_⟩, hspan⟩
  rw [hspan]
  exact hstop

theorem internalMergeNodes_spec (hnode : NodeOk node) (hafter : ∀ q ∈ after, NodeOk q)
    (hsep : Separated (spans after)) (hbeh : ∀ q ∈ after, node.span.stop ≤ q.start) :
    ∃ t' after', JoinsAfter node.span.stop (spans after) t' after' ∧
      spans (internalMergeNodes node after) = ⟨node.start, t'⟩ :: after' ∧
      ∀ q ∈ internalMergeNodes node after, NodeOk q := by
  cases after with
  | nil =>
    refine ⟨_, _, .apart fun x hx => ?_, rfl, fun q hq => ?_⟩
    · cases hx
    · rw [mem_singleton.mp hq]
      exact hnode
  | cons next after =>
    have hnext := hafter next mem_cons_self
    have hle := hbeh next mem_cons_self
    have hlt : next.start < 2^64 := lt_of_le_of_lt (Nat.le_add_right _ _) hnext.stop
    have hmerges := mergesWith_iff hnode hnext.aligned hlt hle
    rw [internalMergeNodes]
    by_cases htouch : mergesWith node next = true
    · obtain ⟨hok,hspan⟩ := merge_spec hnode hnext.stop (hmerges.mp htouch)
      rw [if_pos htouch]
      refine ⟨next.span.stop, spans after, .joined ?_, ?_, fun q hq => ?_⟩
      · rw [hmerges.mp htouch]
        rfl
      · rw [spans_cons, hspan]
      · rcases mem_cons.mp hq with rfl | hq
        · exact hok
        · exact hafter q (mem_cons_of_mem _ hq)
    · rw [if_neg htouch]
      refine ⟨_, _, .apart fun x hx => ?_, rfl, fun q hq => ?_⟩
      · have hfst : node.span.stop < next.start := Nat.lt_of_le_of_ne hle fun heq => htouch (hmerges.mpr heq)
        rcases mem_cons.mp hx with rfl | hx
        · exact hfst
        have hgap := (pairwise_cons.mp hsep.gaps).1 x hx
        have hlen := hsep.nonempty next.span mem_cons_self
        have hlen : next.start < next.span.stop := hlen
        omega
      · rcases mem_cons.mp hq with rfl | hq
        · exact hnode
        · exact hafter q hq

theorem insertNode_spec (hlist : FreeListOk (before ++ after)) (hnode : NodeOk node)
    (hbef : ∀ q ∈ before, q.span.stop ≤ node.start) (hbeh : ∀ q ∈ after, node.span.stop ≤ q.start) :
    ∃ before' s' t' after', JoinsBefore (spans before) node.start before' s' ∧
      JoinsAfter node.span.stop (spans after) t' after' ∧
      spans (insertNode before node after) = before' ++ ⟨s', t'⟩ :: after' ∧
      ∀ q ∈ insertNode before node after, NodeOk q := by
  have hsep := hlist.separated
  rw [spans_append] at hsep
  have hafterOk : ∀ q ∈ after, NodeOk q := fun q hq => hlist.nodes q (mem_append_right _ hq)
  have hbefOk : ∀ q ∈ before, NodeOk q := fun q hq => hlist.nodes q (mem_append_left _ hq)
  unfold insertNode
  rcases eq_nil_or_concat' before with rfl | ⟨first,previous,rfl⟩
  · obtain ⟨t',after',hjoins,hspans,hnodes⟩ := internalMergeNodes_spec hnode hafterOk hsep.right hbeh
    refine ⟨[], node.start, t', after', .apart fun x hx => ?_, hjoins, hspans, hnodes⟩
    cases hx
  rw [getLast?_concat, dropLast_concat]
  have hprev := hbefOk previous (mem_append_right _ mem_cons_self)
  have hle := hbef previous (mem_append_right _ mem_cons_self)
  have hlt : node.start < 2^64 := lt_of_le_of_lt (Nat.le_add_right _ _) hnode.stop
  have hmerges := mergesWith_iff hprev hnode.aligned hlt hle
  dsimp only
  by_cases htouch : mergesWith previous node = true
  · obtain ⟨hok,hspan⟩ := merge_spec hprev hnode.stop (hmerges.mp htouch)
    rw [if_pos htouch]
    have hstop : (previous.merge node).span.stop = node.span.stop := by rw [hspan]
    obtain ⟨t',after',hjoins,hspans,hnodes⟩ :=
      internalMergeNodes_spec hok hafterOk hsep.right (by rw [hstop]; exact hbeh)
    refine ⟨spans first, previous.start, t', after', .joined ?_, hstop ▸ hjoins, ?_, fun q hq => ?_⟩
    · rw [spans_append, ← hmerges.mp htouch]
      rfl
    · rw [spans_append, hspans]
      rfl
    · rcases mem_append.mp hq with hq | hq
      · exact hbefOk q (mem_append_left _ hq)
      · exact hnodes q hq
  · rw [if_neg htouch]
    obtain ⟨t',after',hjoins,hspans,hnodes⟩ := internalMergeNodes_spec hnode hafterOk hsep.right hbeh
    refine ⟨spans (first ++ [previous]), node.start, t', after', .apart fun x hx => ?_, hjoins, ?_,
      fun q hq => ?_⟩
    · have hlast : previous.span.stop < node.start :=
        Nat.lt_of_le_of_ne hle fun heq => htouch (hmerges.mpr heq)
      have hgaps := hsep.left.gaps
      rw [spans_append, pairwise_append] at hgaps
      rw [spans_append] at hx
      rcases mem_append.mp hx with hx | hx
      · have hgap := hgaps.2.2 x hx previous.span mem_cons_self
        have hgap : x.stop < previous.start := hgap
        have hlen : previous.start ≤ previous.span.stop := Nat.le_add_right _ _
        omega
      · rw [mem_singleton.mp hx]
        exact hlast
    · rw [spans_append, hspans]
    · rcases mem_append.mp hq with hq | hq
      · exact hbefOk q hq
      · exact hnodes q hq

theorem insertFreePages_spec (h : FreeListOk l) (hn : 0 < n) (hpos : 0 < memory)
    (hal : memory % efiPageSize = 0) (hend : memory + n*efiPageSize < 2^64) :
    (∃ l', insertFreePages l memory n = some l' ∧ Gives l memory n l') ∨
      (insertFreePages l memory n = none ∧ ∃ a, InPages memory n a ∧ IsFree l a) := by
  have hsize : efiPagesToSize n = n*efiPageSize := efiPagesToSize_of_lt (by omega)
  have hpgs : 0 < n*efiPageSize := Nat.mul_pos hn (by decide)
  unfold insertFreePages
  rw [hsize, toUint64_of_lt hend]
  have hsplit := takeWhile_append_dropWhile (p := isBefore memory) (l := l)
  have hlow : ∀ q ∈ l.takeWhile (isBefore memory), q.start ≤ memory := by
    intro q hq
    have hpass := mem_takeWhile_imp hq
    unfold isBefore at hpass
    simpa using hpass
  have hhead : ∀ q ∈ (l.dropWhile (isBefore memory)).head?, memory < q.start := by
    intro q hq
    have hnot := head?_dropWhile_not (isBefore memory) l
    rw [hq] at hnot
    unfold isBefore at hnot
    simpa using hnot
  generalize l.takeWhile (isBefore memory) = before at *
  generalize l.dropWhile (isBefore memory) = after at *
  subst hsplit
  have hsep := h.separated
  rw [spans_append] at hsep
  have hcov : ∀ q ∈ before ++ after, ∀ a, q.start ≤ a → a < q.span.stop → IsFree (before ++ after) a :=
    fun q hq a hlow hhigh => ⟨q.span, mem_map_of_mem hq, hlow, hhigh⟩
  have hne : ∀ q ∈ before ++ after, q.start < q.span.stop :=
    fun q hq => h.separated.nonempty q.span (mem_map_of_mem hq)
  by_cases hnext : (after.head?.any fun pages => decide (memory + n*efiPageSize > pages.start)) = true
  · -- the first node behind the address starts inside the pages
    rw [if_pos hnext]
    refine .inr ⟨rfl, ?_⟩
    cases after with
    | nil => cases hnext
    | cons next after =>
      have hlt : next.start < memory + n*efiPageSize := of_decide_eq_true hnext
      have hmem : next ∈ before ++ next :: after := mem_append_right _ mem_cons_self
      exact ⟨next.start, ⟨le_of_lt (hhead next rfl), hlt⟩,
        hcov next hmem _ le_rfl (hne next hmem)⟩
  · rw [if_neg hnext]
    have hbeh : ∀ q ∈ after, memory + n*efiPageSize ≤ q.start := by
      cases after with
      | nil =>
        intro q hq
        cases hq
      | cons next after =>
        have hle : memory + n*efiPageSize ≤ next.start := by
          by_contra hlt
          exact hnext (decide_eq_true (Nat.lt_of_not_le hlt))
        intro q hq
        rcases mem_cons.mp hq with rfl | hq
        · exact hle
        have hgap := (pairwise_cons.mp hsep.right.gaps).1 q.span (mem_map_of_mem hq)
        have hgap : next.span.stop < q.start := hgap
        have hlen := hne next (mem_append_right _ mem_cons_self)
        omega
    by_cases hprev : (before.getLast?.any fun pages => decide (pages.endAddress > memory)) = true
    · -- the address is in the last node that starts at or before it
      rw [if_pos hprev]
      refine .inr ⟨rfl, ?_⟩
      rcases eq_nil_or_concat' before with rfl | ⟨first,prev,rfl⟩
      · cases hprev
      rw [getLast?_concat] at hprev
      have hmem : prev ∈ first ++ [prev] := mem_append_right _ mem_cons_self
      have hlt : memory < prev.endAddress := of_decide_eq_true hprev
      rw [(h.nodes prev (mem_append_left _ hmem)).endAddress] at hlt
      exact ⟨memory, ⟨le_rfl, by omega⟩,
        hcov prev (mem_append_left _ hmem) _ (hlow prev hmem) hlt⟩
    · rw [if_neg hprev]
      have hbef : ∀ q ∈ before, q.span.stop ≤ memory := by
        rcases eq_nil_or_concat' before with rfl | ⟨first,prev,rfl⟩
        · intro q hq
          cases hq
        rw [getLast?_concat] at hprev
        have hmem : prev ∈ first ++ [prev] := mem_append_right _ mem_cons_self
        have hle : prev.span.stop ≤ memory := by
          rw [← (h.nodes prev (mem_append_left _ hmem)).endAddress]
          by_contra hlt
          exact hprev (decide_eq_true (Nat.lt_of_not_le hlt))
        intro q hq
        rcases mem_append.mp hq with hq | hq
        · have hgaps := hsep.left.gaps
          rw [spans_append, pairwise_append] at hgaps
          have hgap := hgaps.2.2 q.span (mem_map_of_mem hq) prev.span mem_cons_self
          have hgap : q.span.stop < prev.start := hgap
          have hlast := hlow prev hmem
          omega
        · rw [mem_singleton.mp hq]
          exact hle
      obtain ⟨before',s',t',after',hjoinsBef,hjoinsAfter,hspans,hnodes⟩ :=
        insertNode_spec h (show NodeOk ⟨memory, n⟩ from ⟨hpos, hal, hend⟩) hbef hbeh
      obtain ⟨hjoined,hcovers⟩ := hsep.join (Nat.lt_add_of_pos_right hpgs) hjoinsBef hjoinsAfter
      refine .inl ⟨_, rfl, ⟨hnodes, ?_⟩, ?_, ?_⟩
      · rw [hspans]
        exact hjoined
      · rintro a ⟨hlowA,hhighA⟩ ⟨x,hx,hstart,hstop⟩
        obtain ⟨q,hq,rfl⟩ := mem_map.mp hx
        rcases mem_append.mp hq with hq | hq
        · have hle := hbef q hq
          omega
        · have hle := hbeh q hq
          have hstart : q.start ≤ a := hstart
          omega
      · intro a
        unfold IsFree
        rw [hspans, spans_append]
        exact hcovers a

end

end Liano.Smm
