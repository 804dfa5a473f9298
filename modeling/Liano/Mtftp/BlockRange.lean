import Liano.Efi
import Liano.Lib.Spans
import Mathlib.Data.List.Induction

/-! The ranges of block numbers that an MTFTP download has not received (Mtftp4Dxe/Mtftp4Support.c):
the list of holes, the cut behind the last block, and the removal of one number, which shrinks a hole,
takes it away, splits it or wraps it into the next round. -/
namespace Liano.Mtftp

open List hiding range

open Lib

/-- MTFTP4_BLOCK_RANGE: the hole [Start, End]. -/
structure Mtftp4BlockRange where
  start : Nat
  stop : Nat
  round : Nat
  bound : Nat
deriving DecidableEq, Repr

def mtftp4AllocateRange (start stop : Nat) : Mtftp4BlockRange := ⟨start, stop, 0, stop⟩

def mtftp4InitBlockRange (start stop : Nat) : List Mtftp4BlockRange := [mtftp4AllocateRange start stop]

def mtftp4GetNextBlockNum (head : List Mtftp4BlockRange) : Option Nat := head.head?.map (·.start)

def setLastFromTail (last : Nat) : List Mtftp4BlockRange → List Mtftp4BlockRange
  | [] => []
  | range :: rest =>
    if last < range.start then setLastFromTail last rest
    else if last < range.stop then { range with stop := last } :: rest
    else range :: rest

def mtftp4SetLastBlockNum (head : List Mtftp4BlockRange) (last : Nat) : List Mtftp4BlockRange :=
  (setLastFromTail last head.reverse).reverse

def continuousCounter (range : Mtftp4BlockRange) (num : Nat) : Nat := if 0 < range.round then
    toUint64 (num + (range.bound + toUint64 ((range.round-1) * toUint32 (range.bound+1)) + 1))
  else num

def advanceStart (range : Mtftp4BlockRange) : Mtftp4BlockRange :=
  if range.bound < range.start+1 then { range with start := 0, round := range.round + 1 }
  else { range with start := range.start + 1 }

structure Removal where
  status : EfiStatus
  blocks : List Mtftp4BlockRange
  blockCounter : Nat
deriving DecidableEq, Repr

/-- Mtftp4RemoveBlockNum. The block counter is the caller's variable, `pool` is whether a new range
can be allocated. -/
def mtftp4RemoveBlockNum (pool : Bool) (num : Nat) (completed : Bool) (blockCounter : Nat) :
    List Mtftp4BlockRange → Removal
  | [] => ⟨.notFound, [], blockCounter⟩
  | range :: rest =>
    if range.stop < num then
      let r := mtftp4RemoveBlockNum pool num completed blockCounter rest
      { r with blocks := range :: r.blocks }
    else if num < range.start then ⟨.notFound, range :: rest, blockCounter⟩
    else if range.start = num then
      let next := advanceStart range
      ⟨.success, if next.stop < next.start ∨ completed = true then rest else next :: rest,
        continuousCounter range num⟩
    else if range.stop = num then
      ⟨.success, { range with stop := range.stop - 1 } :: rest, blockCounter⟩
    else if pool = false then ⟨.outOfResources, range :: rest, blockCounter⟩
    else
      ⟨.success, { range with stop := num - 1 } ::
        mtftp4AllocateRange ((num+1) % 2^16) (range.stop % 2^16) :: rest, blockCounter⟩

def holeSpan (range : Mtftp4BlockRange) : Span := ⟨range.start, range.stop+1⟩

variable {a b x num last round n : Nat} {range hole : Mtftp4BlockRange}
  {blocks before rest : List Mtftp4BlockRange} {pool completed : Bool} {blockCounter : Nat}

theorem holds_holeSpan : (holeSpan range).Holds x ↔ range.start ≤ x ∧ x ≤ range.stop := by
  unfold Span.Holds holeSpan
  simp only [Nat.lt_succ_iff]

theorem setLast_of_inOrder (last : Nat) (h : InOrder holeSpan a blocks b) :
    InOrder holeSpan a (mtftp4SetLastBlockNum blocks last) b ∧
    (∀ x, Covered holeSpan (mtftp4SetLastBlockNum blocks last) x ↔ Covered holeSpan blocks x ∧ x ≤ last) ∧
    ∀ hole ∈ mtftp4SetLastBlockNum blocks last, ∃ range ∈ blocks,
      hole.start = range.start ∧ hole.stop ≤ range.stop ∧ hole.round = range.round ∧
        hole.bound = range.bound := by
  unfold mtftp4SetLastBlockNum
  -- the list is taken apart at its tail, as the loop does
  induction blocks using reverseRecOn generalizing b with
  | nil => exact ⟨h, fun x => ⟨fun hx => absurd hx covered_nil, fun hx => absurd hx.1 covered_nil⟩,
      fun hole hhole => absurd hhole not_mem_nil⟩
  | append_singleton before range ih =>
    obtain ⟨c,hbef,hc,hlt,hb⟩ := inOrder_append.mp h
    have hrng : (holeSpan range).stop ≤ b := hb
    have hcov : ∀ x, Covered holeSpan (before ++ [range]) x ↔
        Covered holeSpan before x ∨ range.start ≤ x ∧ x ≤ range.stop := by
      intro x
      rw [covered_append, covered_cons, holds_holeSpan]
      simp only [covered_nil, or_false]
    have hbelow : ∀ x, Covered holeSpan before x → x < range.start := fun x hx =>
      lt_of_lt_of_le (hbef.covered hx).2 hc
    rw [reverse_append, reverse_singleton, singleton_append, setLastFromTail]
    by_cases hstart : last < range.start
    · rw [if_pos hstart]
      obtain ⟨h1,h2,h3⟩ := ih hbef
      refine ⟨h1.mono_right (by have := h.le; have := hlt; omega), fun x => ?_, fun hole hhole => ?_⟩
      · rw [h2, hcov]
        constructor
        · rintro ⟨hx,hle⟩
          exact ⟨.inl hx, hle⟩
        · rintro ⟨hx | hx,hle⟩
          · exact ⟨hx, hle⟩
          · omega
      · obtain ⟨r,hr,hsame⟩ := h3 hole hhole
        exact ⟨r, mem_append_left _ hr, hsame⟩
    · rw [if_neg hstart]
      by_cases hstop : last < range.stop
      · rw [if_pos hstop, reverse_cons, reverse_reverse]
        refine ⟨inOrder_append.mpr ⟨c, hbef, hc, ?_, ?_⟩, fun x => ?_, fun hole hhole => ?_⟩
        · exact Nat.lt_succ_of_le (Nat.le_of_not_lt hstart)
        · exact le_trans (Nat.succ_le_succ (le_of_lt hstop)) hrng
        · rw [hcov, covered_append, covered_cons, holds_holeSpan]
          simp only [covered_nil, or_false]
          have hx := hbelow x
          constructor
          · rintro (h' | h')
            · exact ⟨.inl h', by have := hx h'; omega⟩
            · exact ⟨.inr ⟨h'.1, by omega⟩, h'.2⟩
          · rintro ⟨h' | h',hle⟩
            · exact .inl h'
            · exact .inr ⟨h'.1, hle⟩
        · rcases mem_append.mp hhole with hhole | hhole
          · exact ⟨hole, mem_append_left _ hhole, rfl, le_rfl, rfl, rfl⟩
          · obtain rfl := mem_singleton.mp hhole
            exact ⟨range, mem_append_right _ (mem_singleton_self _), rfl, le_of_lt hstop, rfl, rfl⟩
      · rw [if_neg hstop, reverse_cons, reverse_reverse]
        refine ⟨h, fun x => ?_, fun hole hhole => ⟨hole, hhole, rfl, le_rfl, rfl, rfl⟩⟩
        have hx := hbelow x
        constructor
        · intro h'
          refine ⟨h', ?_⟩
          rcases (hcov x).mp h' with h' | h'
          · have := hx h'
            omega
          · omega
        · exact And.left

theorem setLast_eq_self (h : InOrder holeSpan a blocks b) (hle : ∀ hole ∈ blocks, hole.stop ≤ last) :
    mtftp4SetLastBlockNum blocks last = blocks := by
  unfold mtftp4SetLastBlockNum
  cases hr : blocks.reverse with
  | nil => rw [setLastFromTail, ← hr, reverse_reverse]
  | cons range rest =>
    have hmem : range ∈ blocks := mem_reverse.mp (hr ▸ mem_cons_self)
    have hstop := hle range hmem
    have hlt : range.start < range.stop+1 := (h.bounds hmem).2.1
    rw [setLastFromTail, if_neg (by omega), if_neg (by omega), ← hr, reverse_reverse]

theorem removeBlockNum_skip (hbef : ∀ hole ∈ before, hole.stop < num) :
    mtftp4RemoveBlockNum pool num completed blockCounter (before ++ rest) =
      { mtftp4RemoveBlockNum pool num completed blockCounter rest with
        blocks := before ++ (mtftp4RemoveBlockNum pool num completed blockCounter rest).blocks } := by
  induction before with
  | nil => rfl
  | cons hole before ih =>
    rw [cons_append, mtftp4RemoveBlockNum, if_pos (hbef hole mem_cons_self),
      ih fun r hr => hbef r (mem_cons_of_mem _ hr)]
    rfl

theorem removeBlockNum_notFound (h : InOrder holeSpan a blocks b)
    (hnum : ¬ Covered holeSpan blocks num) :
    mtftp4RemoveBlockNum pool num completed blockCounter blocks = ⟨.notFound, blocks, blockCounter⟩ := by
  induction blocks generalizing a with
  | nil => rfl
  | cons range rest ih =>
    obtain ⟨-,hlt,hrest⟩ := h
    rw [covered_cons, holds_holeSpan, not_or] at hnum
    rw [mtftp4RemoveBlockNum]
    by_cases hstop : range.stop < num
    · rw [if_pos hstop, ih hrest hnum.2]
    · rw [if_neg hstop, if_pos (by omega)]

theorem split_of_covered (h : InOrder holeSpan a blocks b) (hnum : Covered holeSpan blocks num) :
    ∃ before range rest, blocks = before ++ range :: rest ∧ (∀ hole ∈ before, hole.stop < num) ∧
      range.start ≤ num ∧ num ≤ range.stop := by
  induction blocks generalizing a with
  | nil => exact absurd hnum covered_nil
  | cons range rest ih =>
    obtain ⟨-,hlt,hrest⟩ := h
    rcases covered_cons.mp hnum with hnum | hnum
    · exact ⟨[], range, rest, rfl, fun hole hhole => absurd hhole not_mem_nil, holds_holeSpan.mp hnum⟩
    have hbeh : range.stop+1 ≤ num := (hrest.covered hnum).1
    obtain ⟨before,r,rest',rfl,hbef,hr⟩ := ih hrest hnum
    refine ⟨range :: before, r, rest', rfl, fun hole hhole => ?_, hr⟩
    rcases mem_cons.mp hhole with rfl | hhole
    · exact hbeh
    · exact hbef hole hhole

structure Replaced (range : Mtftp4BlockRange) (num : Nat) (holes : List Mtftp4BlockRange) : Prop where
  inOrder : InOrder holeSpan range.start holes (range.stop+1)
  covered : ∀ x, Covered holeSpan holes x ↔ (range.start ≤ x ∧ x ≤ range.stop) ∧ x ≠ num
  kept : ∀ hole ∈ holes, hole.round = range.round ∧ hole.bound = range.bound ∨
    hole.round = 0 ∧ hole.bound = range.stop ∧ range.start ≠ num
  stop : ∀ hole ∈ holes, hole.stop ≤ hole.bound

theorem advanceStart_of_lt (h : range.start < range.bound) :
    advanceStart range = { range with start := range.start + 1 } := by
  unfold advanceStart
  rw [if_neg (not_lt.mpr h)]

theorem covered_single (range : Mtftp4BlockRange) (x : Nat) :
    Covered holeSpan [range] x ↔ range.start ≤ x ∧ x ≤ range.stop := by
  rw [covered_cons, holds_holeSpan]
  simp only [covered_nil, or_false]

theorem removeBlockNum_start (pool : Bool) (blockCounter : Nat) (rest : List Mtftp4BlockRange)
    (hstop : range.start ≤ range.stop) (hbnd : range.stop ≤ range.bound)
    (hlast : completed = true → range.stop = range.start)
    (hwrap : range.bound = range.start → completed = true) : ∃ holes, Replaced range range.start holes ∧
      mtftp4RemoveBlockNum pool range.start completed blockCounter (range :: rest) =
        ⟨.success, holes ++ rest, continuousCounter range range.start⟩ := by
  have hrun : mtftp4RemoveBlockNum pool range.start completed blockCounter (range :: rest) =
      ⟨.success, if (advanceStart range).stop < (advanceStart range).start ∨ completed = true
        then rest else advanceStart range :: rest, continuousCounter range range.start⟩ := by
    rw [mtftp4RemoveBlockNum, if_neg (not_lt.mpr hstop), if_neg (lt_irrefl _), if_pos rfl]
  rw [hrun]
  by_cases hend : range.stop = range.start
  · -- the whole hole is that number
    refine ⟨[], ⟨?_, fun x => ?_, fun hole hhole => absurd hhole not_mem_nil,
      fun hole hhole => absurd hhole not_mem_nil⟩, ?_⟩
    · exact Nat.le_succ_of_le hstop
    · constructor
      · exact fun hx => absurd hx covered_nil
      · omega
    · rw [if_pos]
      · rfl
      · by_cases hlt : range.start < range.bound
        · rw [advanceStart_of_lt hlt]
          exact .inl (Nat.lt_succ_of_le (le_of_eq hend))
        · exact .inr (hwrap (by omega))
  · have hlt : range.start < range.bound := by omega
    have hcompl : ¬ completed = true := fun h => hend (hlast h)
    rw [advanceStart_of_lt hlt, if_neg (not_or.mpr ⟨by dsimp only; omega, hcompl⟩)]
    refine ⟨[{ range with start := range.start + 1 }], ⟨?_, fun x => ?_, fun hole hhole => ?_,
      fun hole hhole => ?_⟩, rfl⟩
    · refine ⟨Nat.le_succ _, ?_, le_rfl⟩
      show range.start+1 < range.stop+1
      omega
    · rw [covered_single]
      dsimp only
      omega
    · obtain rfl := mem_singleton.mp hhole
      exact .inl ⟨rfl, rfl⟩
    · obtain rfl := mem_singleton.mp hhole
      exact hbnd

theorem removeBlockNum_wrap (hbnd : range.bound = range.start) (hstop : range.stop = range.start) :
    mtftp4RemoveBlockNum pool range.start false blockCounter (range :: rest) =
      ⟨.success, { range with start := 0, round := range.round + 1 } :: rest,
        continuousCounter range range.start⟩ := by
  have hadvance : advanceStart range = { range with start := 0, round := range.round + 1 } := by
    unfold advanceStart
    rw [if_pos (by omega)]
  rw [mtftp4RemoveBlockNum, if_neg (by omega), if_neg (lt_irrefl _), if_pos rfl, hadvance]
  dsimp only
  rw [if_neg (by simp)]

theorem removeBlockNum_inside (pool completed : Bool) (blockCounter : Nat)
    (rest : List Mtftp4BlockRange) (hstart : range.start < num) (hstop : num ≤ range.stop)
    (hbnd : range.stop ≤ range.bound) (h16 : range.bound < 2^16) : (∃ holes, Replaced range num holes ∧
      mtftp4RemoveBlockNum pool num completed blockCounter (range :: rest) =
        ⟨.success, holes ++ rest, blockCounter⟩) ∨
    pool = false ∧ mtftp4RemoveBlockNum pool num completed blockCounter (range :: rest) =
      ⟨.outOfResources, range :: rest, blockCounter⟩ := by
  rw [mtftp4RemoveBlockNum, if_neg (by omega), if_neg (by omega), if_neg (by omega)]
  by_cases hend : range.stop = num
  · rw [if_pos hend]
    refine .inl ⟨[{ range with stop := range.stop - 1 }], ⟨?_, fun x => ?_, fun hole hhole => ?_,
      fun hole hhole => ?_⟩, rfl⟩
    · refine ⟨le_rfl, ?_, ?_⟩
      · show range.start < range.stop-1 + 1
        omega
      · show range.stop-1 + 1 ≤ range.stop+1
        omega
    · rw [covered_single]
      dsimp only
      omega
    · obtain rfl := mem_singleton.mp hhole
      exact .inl ⟨rfl, rfl⟩
    · obtain rfl := mem_singleton.mp hhole
      exact le_trans (Nat.sub_le _ _) hbnd
  · rw [if_neg hend]
    by_cases hpool : pool = false
    · exact .inr ⟨hpool, if_pos hpool⟩
    rw [if_neg hpool, Nat.mod_eq_of_lt (show num+1 < 2^16 by omega),
      Nat.mod_eq_of_lt (show range.stop < 2^16 by omega)]
    refine .inl ⟨[{ range with stop := num - 1 }, mtftp4AllocateRange (num+1) range.stop],
      ⟨?_, fun x => ?_, fun hole hhole => ?_, fun hole hhole => ?_⟩, rfl⟩
    · refine ⟨le_rfl, ?_, ?_, ?_, le_rfl⟩
      · show range.start < num-1 + 1
        omega
      · show num-1 + 1 ≤ num+1
        omega
      · show num+1 < range.stop+1
        omega
    · rw [covered_cons, covered_single, holds_holeSpan]
      unfold mtftp4AllocateRange
      dsimp only
      omega
    · rcases mem_cons.mp hhole with rfl | hhole
      · exact .inl ⟨rfl, rfl⟩
      · obtain rfl := mem_singleton.mp hhole
        exact .inr ⟨rfl, rfl, ne_of_lt hstart⟩
    · rcases mem_cons.mp hhole with rfl | hhole
      · show num-1 ≤ range.bound
        omega
      · obtain rfl := mem_singleton.mp hhole
        exact le_rfl

variable {holes : List Mtftp4BlockRange}

section
variable (h : InOrder holeSpan a (before ++ range :: rest) b) (hrepl : Replaced range num holes)
include h hrepl

theorem inOrder_replaced : InOrder holeSpan a (before ++ (holes ++ rest)) b := by
  obtain ⟨c,hbef,hc,-,hrest⟩ := inOrder_append.mp h
  exact inOrder_append.mpr ⟨c, hbef, (inOrder_append.mpr ⟨_, hrepl.inOrder, hrest⟩).mono_left hc⟩

theorem covered_replaced (hstart : range.start ≤ num) (hstop : num ≤ range.stop) (x : Nat) :
    Covered holeSpan (before ++ (holes ++ rest)) x ↔
      Covered holeSpan (before ++ range :: rest) x ∧ x ≠ num := by
  obtain ⟨c,hbef,hc,-,hrest⟩ := inOrder_append.mp h
  have hfst : Covered holeSpan before x → x ≠ num := by
    intro hx
    have hlt := (hbef.covered hx).2
    have hle : c ≤ range.start := hc
    omega
  have hlast : Covered holeSpan rest x → x ≠ num := by
    intro hx
    have hle : range.stop+1 ≤ x := (hrest.covered hx).1
    omega
  rw [covered_append, covered_append, covered_append, covered_cons, holds_holeSpan, hrepl.covered]
  tauto

end

/-- The list has the numbers of the missing blocks of one round, and no block of an earlier round is
missing. -/
structure HolesOf (missing : Nat → Prop) (round : Nat) (blocks : List Mtftp4BlockRange) : Prop where
  inOrder : InOrder holeSpan 0 blocks (2^16)
  covered : ∀ x, Covered holeSpan blocks x ↔ x < 2^16 ∧ missing (round * 2^16 + x)
  later : ∀ k, missing k → round * 2^16 ≤ k
  rounds : ∀ hole ∈ blocks, hole.round = round ∧ (0 < round → hole.bound = 2^16-1)
  bounds : ∀ hole ∈ blocks, hole.stop ≤ hole.bound ∧ hole.bound < 2^16

variable {missing : Nat → Prop}

theorem HolesOf.congr {missing' : Nat → Prop} (h : HolesOf missing round blocks)
    (hsame : ∀ k, missing' k ↔ missing k) : HolesOf missing' round blocks where
  inOrder := h.inOrder
  covered x := by rw [h.covered, hsame]
  later k hk := h.later k ((hsame k).mp hk)
  rounds := h.rounds
  bounds := h.bounds

theorem HolesOf.setLast (h : HolesOf missing round blocks) :
    HolesOf (fun k => missing k ∧ k ≤ round * 2^16 + last) round
      (mtftp4SetLastBlockNum blocks last) := by
  obtain ⟨hinOrd,hcov,hsame⟩ := setLast_of_inOrder last h.inOrder
  refine ⟨hinOrd, fun x => ?_, fun k hk => h.later k hk.1, fun hole hhole => ?_, fun hole hhole => ?_⟩
  · rw [hcov, h.covered, and_assoc, Nat.add_le_add_iff_left]
  · obtain ⟨range,hrng,-,-,hr,hb⟩ := hsame hole hhole
    rw [hr, hb]
    exact h.rounds range hrng
  · obtain ⟨range,hrng,-,hstop,-,hb⟩ := hsame hole hhole
    have hbds := h.bounds range hrng
    rw [hb]
    exact ⟨le_trans hstop hbds.1, hbds.2⟩

/-- The block counter at the start of a hole is the number of the block, counted on over the
rounds. -/
theorem HolesOf.continuousCounter (h : HolesOf missing round blocks) (hrng : range ∈ blocks)
    (h64 : round * 2^16 + num < 2^64) : continuousCounter range num = round * 2^16 + num := by
  obtain ⟨hround,hbnd⟩ := h.rounds range hrng
  unfold Mtftp.continuousCounter
  rw [hround]
  by_cases hpos : 0 < round
  · have h32 : toUint32 (range.bound+1) = 2^16 := by
      rw [hbnd hpos]
      rfl
    have hlt : (round-1) * 2^16 < 2^64 := lt_of_le_of_lt (le_trans
      (Nat.mul_le_mul_right _ (Nat.sub_le _ _)) (Nat.le_add_right _ _)) h64
    have hinner := toUint64_of_lt hlt
    rw [if_pos hpos, h32, hinner, hbnd hpos, toUint64_of_lt] <;> omega
  · rw [if_neg hpos]
    omega

theorem HolesOf.replace (h : HolesOf missing round (before ++ range :: rest))
    (hrepl : Replaced range num holes) (hstart : range.start ≤ num) (hstop : num ≤ range.stop)
    (hfst : 0 < round → range.start = num) :
    HolesOf (fun k => missing k ∧ k ≠ round * 2^16 + num) round (before ++ (holes ++ rest)) := by
  have hmem : range ∈ before ++ range :: rest := mem_append_right _ mem_cons_self
  obtain ⟨hround,hbnd⟩ := h.rounds range hmem
  have hcases : ∀ hole ∈ before ++ (holes ++ rest), hole ∈ before ++ range :: rest ∨ hole ∈ holes := by
    intro hole hhole
    simp only [mem_append, mem_cons] at hhole ⊢
    tauto
  refine ⟨inOrder_replaced h.inOrder hrepl, fun x => ?_, fun k hk => h.later k hk.1,
    fun hole hhole => ?_, fun hole hhole => ?_⟩
  · have hne : x ≠ num ↔ round * 2^16 + x ≠ round * 2^16 + num := by omega
    rw [covered_replaced h.inOrder hrepl hstart hstop, h.covered, and_assoc, hne]
  · rcases hcases hole hhole with hhole | hhole
    · exact h.rounds hole hhole
    rcases hrepl.kept hole hhole with ⟨hr,hb⟩ | ⟨hr,hb,hne⟩
    · rw [hr, hb]
      exact ⟨hround, hbnd⟩
    have hzero : round = 0 := by
      by_contra hne'
      exact hne (hfst (Nat.pos_of_ne_zero hne'))
    exact ⟨hr.trans hzero.symm, fun hpos => absurd hzero (ne_of_gt hpos)⟩
  · rcases hcases hole hhole with hhole | hhole
    · exact h.bounds hole hhole
    · have hrng := h.bounds range hmem
      refine ⟨hrepl.stop hole hhole, ?_⟩
      rcases hrepl.kept hole hhole with ⟨-,hb⟩ | ⟨-,hb,-⟩ <;> omega

/-- The last number of a round is removed, where all blocks of the next round are missing. -/
theorem HolesOf.wrap (h : HolesOf missing round [range]) (hstart : range.start = 2^16-1)
    (hstop : range.stop = 2^16-1) (hnext : ∀ k, (round+1) * 2^16 ≤ k → missing k) :
    HolesOf (fun k => missing k ∧ k ≠ round * 2^16 + (2^16-1)) (round+1)
      [{ range with start := 0, round := range.round + 1 }] := by
  have hbds := h.bounds range (mem_singleton_self _)
  refine ⟨⟨Nat.zero_le _, Nat.succ_pos _, ?_⟩, fun x => ?_, fun k hk => ?_, fun hole hhole => ?_,
    fun hole hhole => ?_⟩
  · show range.stop+1 ≤ 2^16
    omega
  · rw [covered_single]
    dsimp only
    constructor
    · rintro ⟨-,hx⟩
      exact ⟨by omega, hnext _ (by omega), by omega⟩
    · omega
  · obtain ⟨hk,hne⟩ := hk
    have hle := h.later k hk
    -- a missing block of this round would be in the hole, which has one number only
    by_contra hlt
    have hx := (h.covered (k - round * 2^16)).mpr ⟨by omega, by rwa [Nat.add_sub_cancel' hle]⟩
    rw [covered_single] at hx
    omega
  · obtain rfl := mem_singleton.mp hhole
    have hround := (h.rounds range (mem_singleton_self _)).1
    exact ⟨congrArg (· + 1) hround, fun _ => by dsimp only; omega⟩
  · obtain rfl := mem_singleton.mp hhole
    exact hbds

/-- What the removal of a missing block leaves: where a hole has to be split, it may have no memory
for the new one. -/
theorem HolesOf.remove (h : HolesOf missing round blocks) (h16 : num < 2^16)
    (hmiss : missing (round * 2^16 + num))
    (hlast : completed = true → ∀ k, missing k → k ≤ round * 2^16 + num)
    (hfst : 0 < round → mtftp4GetNextBlockNum blocks = some num)
    (hwhole : ∀ hole ∈ blocks, hole.start = num → hole.stop = num → hole.bound = num →
      completed = true ∨ num = 2^16-1) (hedge : num = 2^16-1 → completed = true ∨
      mtftp4GetNextBlockNum blocks = some num ∧ ∀ k, (round+1) * 2^16 ≤ k → missing k)
    (h64 : round * 2^16 + num < 2^64) : (∃ round' blocks' counter,
      mtftp4RemoveBlockNum pool num completed blockCounter blocks = ⟨.success, blocks', counter⟩ ∧
      (round' = round+1 ∨ round' = round ∧ (num = 2^16-1 → completed = true)) ∧
      HolesOf (fun k => missing k ∧ k ≠ round * 2^16 + num) round' blocks' ∧
      ((∃ hole ∈ blocks, hole.start = num) → counter = round * 2^16 + num)) ∨
    pool = false ∧ mtftp4RemoveBlockNum pool num completed blockCounter blocks =
      ⟨.outOfResources, blocks, blockCounter⟩ := by
  obtain ⟨before,range,rest,rfl,hbef,hstart,hstop⟩ :=
    split_of_covered h.inOrder ((h.covered num).mpr ⟨h16, hmiss⟩)
  have hmem : range ∈ before ++ range :: rest := mem_append_right _ mem_cons_self
  obtain ⟨hstopBnd,hbnd16⟩ := h.bounds range hmem
  have hnext : mtftp4GetNextBlockNum (before ++ range :: rest) = some num →
      before = [] ∧ range.start = num := by
    intro hnext
    cases before with
    | nil => exact ⟨rfl, Option.some.inj hnext⟩
    | cons hole before =>
      have heq : hole.start = num := Option.some.inj hnext
      have hlt := hbef hole mem_cons_self
      have hle : hole.start < hole.stop+1 := (h.inOrder.bounds mem_cons_self).2.1
      omega
  rw [removeBlockNum_skip hbef]
  rcases Nat.eq_or_lt_of_le hstart with hstart | hstart
  · -- the start of the hole, with the block counter
    subst hstart
    have hcounter := h.continuousCounter hmem h64
    by_cases hwrap : range.bound = range.start ∧ completed = false
    · obtain ⟨hwrap,rfl⟩ := hwrap
      have hstop' : range.stop = range.start := by omega
      rcases hwhole range hmem rfl hstop' hwrap with hfalse | hnum
      · exact absurd hfalse Bool.false_ne_true
      obtain ⟨hhead,hall⟩ := (hedge hnum).resolve_left Bool.false_ne_true
      obtain ⟨rfl,-⟩ := hnext hhead
      have hrest : rest = [] := by
        cases rest with
        | nil => rfl
        | cons hole rest =>
          obtain ⟨-,-,hord⟩ := h.inOrder
          have hb := (hord.bounds mem_cons_self)
          have h1 : range.stop+1 ≤ (holeSpan hole).start := hb.1
          omega
      subst hrest
      rw [removeBlockNum_wrap hwrap hstop']
      refine .inl ⟨round+1, _, _, rfl, .inl rfl, ?_, fun _ => hcounter⟩
      rw [hnum]
      exact h.wrap hnum (hstop'.trans hnum) hall
    · have hcompl : completed = true → range.stop = range.start := by
        intro hc
        have hcov : Covered holeSpan (before ++ range :: rest) range.stop :=
          ⟨range, hmem, holds_holeSpan.mpr ⟨hstop, le_rfl⟩⟩
        have hle := hlast hc _ ((h.covered _).mp hcov).2
        omega
      obtain ⟨holes,hrepl,hrun⟩ := removeBlockNum_start pool blockCounter rest hstop
        hstopBnd hcompl
        (fun hb => by
          by_contra hc
          exact hwrap ⟨hb, Bool.eq_false_of_not_eq_true hc⟩)
      rw [hrun]
      have hedge' : range.start = 2^16-1 → completed = true := by
        intro hnum
        by_contra hc
        exact hwrap ⟨by omega, Bool.eq_false_of_not_eq_true hc⟩
      exact .inl ⟨round, _, _, rfl, .inr ⟨rfl, hedge'⟩,
        h.replace hrepl le_rfl hstop fun _ => rfl, fun _ => hcounter⟩
  · have hzero : ¬ 0 < round := by
      intro hpos
      have := (hnext (hfst hpos)).2
      omega
    have hedge' : num = 2^16-1 → completed = true := by
      intro hnum
      refine (hedge hnum).resolve_right fun hhead => ?_
      have := (hnext hhead.1).2
      omega
    rcases removeBlockNum_inside pool completed blockCounter rest hstart hstop hstopBnd hbnd16 with
      ⟨holes, hrepl, hrun⟩ | ⟨hpool, hrun⟩
    · rw [hrun]
      refine .inl ⟨round, _, _, rfl, .inr ⟨rfl, hedge'⟩,
        h.replace hrepl (le_of_lt hstart) hstop fun hpos => absurd hpos hzero, ?_⟩
      rintro ⟨hole,hhole,heq⟩
      -- another hole would start inside this one
      rcases mem_append.mp hhole with hhole | hhole
      · have hlt := hbef hole hhole
        have hle : hole.start < hole.stop+1 := (h.inOrder.bounds (mem_append_left _ hhole)).2.1
        omega
      rcases mem_cons.mp hhole with rfl | hhole
      · omega
      · obtain ⟨c,-,-,-,hrest⟩ := inOrder_append.mp h.inOrder
        have hle : range.stop+1 ≤ hole.start := (hrest.bounds hhole).1
        omega
    · rw [hrun]
      exact .inr ⟨hpool, rfl⟩

end Liano.Mtftp
