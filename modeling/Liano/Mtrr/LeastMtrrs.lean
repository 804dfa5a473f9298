import Liano.Lib.NestedPaths
import Liano.Mtrr.SetMemoryType

/-! `MtrrLibCalculateLeastMtrrs`: the least count of MTRRs from one vertex to another. -/
namespace Liano.Mtrr

open Option (bind_some getD_some)
open Function (update update_eq_self update_of_ne update_self)
open List hiding min

open Liano.Lib

def maxWeight : Nat := 255

def toUint8 (n : Nat) : Nat := n % 2^8

structure MtrrLibAddress extends Mark where
  address : Nat
  alignment : Nat
  length : Nat
  type : MtrrMemoryCacheType
deriving DecidableEq, Repr

def M (vertexCount x y : Nat) : Nat := x*vertexCount+y

def O (vertexCount x y : Nat) : Nat := y*vertexCount+x

/-- The index is computed as an `int`: `none` where it does not fit. -/
def weightAt (weight : Nat → Nat) (index : Nat) : Option Nat :=
  if index < 2^31 then some (weight index) else none

/-- The arguments of `MtrrLibCalculateLeastMtrrs`, apart from the vertices. -/
structure LeastArguments where
  vertexCount : Nat
  weight : Nat → Nat
  start : Nat
  stop : Nat
  includeOptional : Bool

abbrev Vertices := Nat → MtrrLibAddress

section
variable (g : LeastArguments)

def optionalAt (x y : Nat) : Option Nat :=
  if g.includeOptional then weightAt g.weight (O g.vertexCount x y) else some 0

/-- A run of the first loop; `none` also where the assertion fails. -/
def initVertex (vertices : Vertices) (index : Nat) : Option Vertices :=
  (weightAt g.weight (M g.vertexCount g.start index)).bind fun mandatory =>
    if mandatory ≠ maxWeight then
      (optionalAt g g.start index).bind fun optional =>
        let weight := toUint8 (mandatory+optional)
        if weight ≥ optional then
          some (update vertices index { vertices index with visited := false, weight := weight })
        else none
    else
      some (update vertices index { vertices index with visited := false, weight := mandatory })

def relaxVertex (minI minWeight : Nat) (vertices : Vertices) (index : Nat) : Option Vertices :=
  if (vertices index).visited then some vertices
  else
    (weightAt g.weight (M g.vertexCount minI index)).bind fun mandatory =>
      if mandatory ≠ maxWeight then
        (optionalAt g minI index).bind fun optional =>
          if minWeight+mandatory+optional ≤ (vertices index).weight then
            some (update vertices index { vertices index with
              weight := toUint8 (minWeight+mandatory+optional)
              previous := minI })
          else some vertices
      else some vertices

def behindStart : List Nat := range' (g.start+1) (g.stop-g.start)

/-- A run of the loop that finds the shortest vertex, with `MinI` and `MinWeight`. -/
def nearer (vertices : Vertices) (min : Nat × Nat) (index : Nat) : Nat × Nat :=
  if (vertices index).visited = false ∧ min.2 > (vertices index).weight then
    (index, (vertices index).weight)
  else min

def shortest (vertices : Vertices) : Nat × Nat :=
  (behindStart g).foldl (nearer vertices) (g.vertexCount,maxWeight)

/-- The `while` loop; `none` is the loop going on after `fuel` rounds, or coming to a vertex that is
not one from the start to the stop. -/
def leastLoop : Nat → Nat → Nat → Vertices → Option Vertices
  | 0, _, _, _ => none
  | fuel+1, minI, minWeight, vertices =>
    if (vertices g.stop).visited then some vertices
    else
      ((behindStart g).foldlM (relaxVertex g minI minWeight) vertices).bind fun vertices =>
        let min := shortest g vertices
        if min.1 < g.start ∨ g.stop < min.1 then none
        else
          leastLoop fuel min.1 min.2
            (update vertices min.1 { vertices min.1 with visited := true })

def mtrrLibCalculateLeastMtrrs (vertices : Vertices) (fuel : Nat) : Option Vertices :=
  ((range' g.start (g.stop+1-g.start)).foldlM (initVertex g) vertices).bind fun vertices =>
    leastLoop g fuel g.start 0 vertices

end

/-- The weight between two vertices, `none` for `MAX_WEIGHT`. -/
def edgeOf (g : LeastArguments) (x y : Nat) : Option Nat :=
  if x < g.vertexCount ∧ y < g.vertexCount ∧ g.weight (M g.vertexCount x y) ≠ maxWeight then
    some (g.weight (M g.vertexCount x y) + if g.includeOptional then g.weight (O g.vertexCount x y) else 0)
  else none

def pathWeights (g : LeastArguments) : Set Nat := {n | PathTo (edgeOf g) g.start g.stop n}

def marks (vertices : Vertices) : Nat → Mark := fun v => (vertices v).toMark

/-- The loop ends without selecting a vertex out of range or an overflow, with the least total weight
of a path at the stop, and the links from there describe such a path. -/
def FindsLeast (g : LeastArguments) (vertices : Vertices) : Prop :=
  ∃ fuel vertices', mtrrLibCalculateLeastMtrrs g vertices fuel = some vertices' ∧
    IsLeast (pathWeights g) (vertices' g.stop).weight ∧
    Chain g.start g.stop (marks vertices') (edgeOf g) g.stop (vertices' g.stop).weight

/-- What `MtrrLibCalculateMtrrs` keeps of the weights: they are bytes, a vertex is at no distance
from itself, and the optional weights are 0 or 1. -/
structure Bytes (vertexCount : Nat) (weight : Nat → Nat) : Prop where
  byte : ∀ i, weight i ≤ maxWeight
  self : ∀ x, x < vertexCount → weight (M vertexCount x x) = 0
  optional : ∀ x y, x < y → y < vertexCount → weight (O vertexCount x y) ≤ 1

theorem foldlM_update {step : Vertices → Nat → Option Vertices} {f : Nat → MtrrLibAddress → MtrrLibAddress}
    {xs : List Nat} {vertices : Vertices} (hnodup : xs.Nodup)
    (hstep : ∀ vs, ∀ x ∈ xs, step vs x = some (update vs x (f x (vs x)))) :
    xs.foldlM step vertices = some fun v => if v ∈ xs then f v (vertices v) else vertices v := by
  induction xs generalizing vertices with
  | nil => simp
  | cons x xs ih =>
    obtain ⟨hnot,hnodup⟩ := nodup_cons.mp hnodup
    rw [foldlM_cons, hstep vertices x mem_cons_self]
    show foldlM step _ xs = _
    rw [ih hnodup fun vs y hy => hstep vs y (mem_cons_of_mem _ hy)]
    congr 1
    funext v
    by_cases hv : v = x
    · subst hv
      rw [if_neg hnot, if_pos mem_cons_self, update_self]
    · rw [update_of_ne hv]
      simp [hv]

theorem foldl_nearer {vertices : Vertices} {xs : List Nat} {init : Nat × Nat} :
    (xs.foldl (nearer vertices) init).2 ≤ init.2 ∧ (∀ x ∈ xs, (vertices x).visited = false →
      (xs.foldl (nearer vertices) init).2 ≤ (vertices x).weight) ∧ (xs.foldl (nearer vertices) init = init ∨
      ∃ x ∈ xs, (vertices x).visited = false ∧ (vertices x).weight < init.2 ∧
        xs.foldl (nearer vertices) init = (x, (vertices x).weight)) := by
  induction xs generalizing init with
  | nil => exact ⟨le_rfl, fun x hx => absurd hx not_mem_nil, .inl rfl⟩
  | cons x xs ih =>
    obtain ⟨hle,hleast,hfrom⟩ := @ih (nearer vertices init x)
    rw [foldl_cons]
    by_cases hx : (vertices x).visited = false ∧ init.2 > (vertices x).weight
    · have hnear : nearer vertices init x = (x, (vertices x).weight) := if_pos hx
      rw [hnear] at hle hleast hfrom ⊢
      refine ⟨le_trans hle (le_of_lt hx.2), fun y hy hopen => ?_, .inr ?_⟩
      · rcases mem_cons.mp hy with rfl | hy
        · exact hle
        · exact hleast y hy hopen
      · rcases hfrom with heq | ⟨y,hy,hopen,hlt,heq⟩
        · exact ⟨x, mem_cons_self, hx.1, hx.2, heq⟩
        · exact ⟨y, mem_cons_of_mem _ hy, hopen, lt_trans hlt hx.2, heq⟩
    · have hnear : nearer vertices init x = init := if_neg hx
      rw [hnear] at hle hleast hfrom ⊢
      refine ⟨hle, fun y hy hopen => ?_, hfrom.imp_right ?_⟩
      · rcases mem_cons.mp hy with rfl | hy
        · exact le_trans hle (Nat.le_of_not_lt fun h => hx ⟨hopen, h⟩)
        · exact hleast y hy hopen
      · rintro ⟨y,hy,hrest⟩
        exact ⟨y, mem_cons_of_mem _ hy, hrest⟩

section
variable {g : LeastArguments} {vertices : Vertices} {m minWeight v : Nat}

theorem mem_behindStart : v ∈ behindStart g ↔ g.start < v ∧ v ≤ g.stop := by
  rw [behindStart, mem_range'_1]
  omega

theorem nodup_behindStart : (behindStart g).Nodup := nodup_range'

section
variable {x y : Nat} (hcount : (g.stop+1) * g.vertexCount ≤ 2^31) (hstop : g.stop < g.vertexCount)
  (hx : x ≤ g.stop) (hy : y ≤ g.stop)
include hcount hstop hx hy

theorem weightAt_M : weightAt g.weight (M g.vertexCount x y) = some (g.weight (M g.vertexCount x y)) := by
  refine if_pos (lt_of_lt_of_le ?_ hcount)
  have hrow : x*g.vertexCount+g.vertexCount ≤ (g.stop+1) * g.vertexCount := by
    rw [← Nat.succ_mul]
    exact Nat.mul_le_mul_right _ (Nat.succ_le_succ hx)
  rw [M]
  omega

theorem optionalAt_eq :
    optionalAt g x y = some (if g.includeOptional then g.weight (O g.vertexCount x y) else 0) := by
  rw [optionalAt]
  split
  · exact weightAt_M hcount hstop hy hx
  · rfl

end

theorem edgeOf_eq {x y : Nat} (hx : x < g.vertexCount) (hy : y < g.vertexCount) :
    edgeOf g x y = if g.weight (M g.vertexCount x y) ≠ maxWeight then
      some (g.weight (M g.vertexCount x y) + if g.includeOptional then g.weight (O g.vertexCount x y) else 0)
      else none := by
  rw [edgeOf]
  simp only [hx, hy, true_and]

def initialVertex (g : LeastArguments) (index : Nat) (a : MtrrLibAddress) : MtrrLibAddress :=
  { a with visited := false, weight := (edgeOf g g.start index).getD maxWeight }

theorem edgeOf_start_le (hbs : Bytes g.vertexCount g.weight) (hv : g.start ≤ v)
    (hlt : v < g.vertexCount) {c : Nat} (hedge : edgeOf g g.start v = some c) : c ≤ maxWeight := by
  have hstart := lt_of_le_of_lt hv hlt
  have hbyte := hbs.byte (M g.vertexCount g.start v)
  have hoptional : g.weight (O g.vertexCount g.start v) ≤ 1 := by
    rcases Nat.eq_or_lt_of_le hv with heq | hlt'
    · have hself := hbs.self v hlt
      rw [heq, O, ← M, hself]
      exact Nat.zero_le _
    · exact hbs.optional _ _ hlt' hlt
  rw [edgeOf_eq hstart hlt] at hedge
  split at hedge
  · cases hedge
    split <;> omega
  · cases hedge

theorem initVertex_eq (hcount : (g.stop+1) * g.vertexCount ≤ 2^31) (hstop : g.stop < g.vertexCount)
    (hbs : Bytes g.vertexCount g.weight) (hv : g.start ≤ v) (hvstop : v ≤ g.stop) :
    initVertex g vertices v = some (update vertices v (initialVertex g v (vertices v))) := by
  have hlt := lt_of_le_of_lt hvstop hstop
  have hstart := lt_of_le_of_lt hv hlt
  have hrow := le_trans hv hvstop
  have hle := @edgeOf_start_le g v hbs hv hlt
  rw [initVertex, initialVertex, weightAt_M hcount hstop hrow hvstop, bind_some,
    optionalAt_eq hcount hstop hrow hvstop]
  rw [edgeOf_eq hstart hlt] at hle ⊢
  by_cases hmax : g.weight (M g.vertexCount g.start v) ≠ maxWeight
  · rw [if_pos hmax] at hle ⊢
    rw [if_pos hmax, bind_some, getD_some]
    have hsum := hle rfl
    have hbyte : toUint8 (g.weight (M g.vertexCount g.start v) +
        (if g.includeOptional then g.weight (O g.vertexCount g.start v) else 0)) =
          g.weight (M g.vertexCount g.start v) +
            (if g.includeOptional then g.weight (O g.vertexCount g.start v) else 0) :=
      Nat.mod_eq_of_lt (Nat.lt_succ_of_le hsum)
    simp only [hbyte]
    rw [if_pos (Nat.le_add_left _ _)]
  · rw [if_neg hmax, if_neg hmax, Option.getD_none, not_not.mp hmax]

def relaxedVertex (g : LeastArguments) (m minWeight index : Nat) (a : MtrrLibAddress) : MtrrLibAddress :=
  if a.visited then a
  else
    match edgeOf g m index with
    | none => a
    | some c =>
      if minWeight+c ≤ a.weight then
        { a with weight := toUint8 (minWeight+c), previous := m }
      else a

theorem relaxVertex_eq (hcount : (g.stop+1) * g.vertexCount ≤ 2^31) (hstop : g.stop < g.vertexCount)
    (hm : m ≤ g.stop) (hv : v ≤ g.stop) : relaxVertex g m minWeight vertices v =
      some (update vertices v (relaxedVertex g m minWeight v (vertices v))) := by
  rw [relaxVertex, relaxedVertex]
  by_cases hvis : (vertices v).visited = true
  · rw [if_pos hvis, if_pos hvis, update_eq_self]
  rw [if_neg hvis, if_neg hvis, weightAt_M hcount hstop hm hv, bind_some,
    optionalAt_eq hcount hstop hm hv, edgeOf_eq (lt_of_le_of_lt hm hstop) (lt_of_le_of_lt hv hstop)]
  by_cases hmax : g.weight (M g.vertexCount m v) ≠ maxWeight
  · rw [if_pos hmax, if_pos hmax, bind_some, add_assoc]
    simp only
    generalize g.weight (M g.vertexCount m v) +
      (if g.includeOptional then g.weight (O g.vertexCount m v) else 0) = c
    by_cases hle : minWeight+c ≤ (vertices v).weight
    · rw [if_pos hle, if_pos hle]
    · rw [if_neg hle, if_neg hle, update_eq_self]
  · rw [if_neg hmax, if_neg hmax, update_eq_self]

theorem foldlM_relaxVertex (hcount : (g.stop+1) * g.vertexCount ≤ 2^31)
    (hstop : g.stop < g.vertexCount) (hm : m ≤ g.stop)
    (hbyte : ∀ v, g.start < v → v ≤ g.stop → (vertices v).weight ≤ maxWeight) :
    ∃ vertices', (behindStart g).foldlM (relaxVertex g m (vertices m).weight) vertices = some vertices' ∧
      marks vertices' = relax g.start g.stop (marks vertices) (edgeOf g) m := by
  refine ⟨_, foldlM_update nodup_behindStart fun vs v hv => relaxVertex_eq hcount hstop hm
    (mem_behindStart.mp hv).2, funext fun v => ?_⟩
  have hmark : marks (fun v => if v ∈ behindStart g then
      relaxedVertex g m (vertices m).weight v (vertices v) else vertices v) v = (if v ∈ behindStart g then
          relaxedVertex g m (vertices m).weight v (vertices v) else vertices v).toMark := rfl
  rw [hmark, relax]
  by_cases hopen : IsOpen g.start g.stop (marks vertices) v
  · have hvis : ¬ (vertices v).visited = true := Bool.eq_false_iff.mp hopen.2.2
    rw [if_pos hopen, if_pos (mem_behindStart.mpr ⟨hopen.1, hopen.2.1⟩), relaxedVertex, if_neg hvis]
    cases hedge : edgeOf g m v with
    | none => rfl
    | some c =>
      by_cases hle : (vertices m).weight + c ≤ (vertices v).weight
      · have hsum : toUint8 ((vertices m).weight + c) = (vertices m).weight + c :=
          Nat.mod_eq_of_lt (Nat.lt_succ_of_le (le_trans hle (hbyte v hopen.1 hopen.2.1)))
        have hle' : (marks vertices m).weight + c ≤ (marks vertices v).weight := hle
        simp only [if_pos hle, if_pos hle', hsum]
        rfl
      · have hle' : ¬ (marks vertices m).weight + c ≤ (marks vertices v).weight := hle
        simp only [if_neg hle, if_neg hle']
        rfl
  · rw [if_neg hopen]
    split
    · rename_i hin
      obtain ⟨hstart,hle⟩ := mem_behindStart.mp hin
      have hvis : (vertices v).visited = true := by
        rw [← Bool.not_eq_false]
        exact fun h => hopen ⟨hstart, hle, h⟩
      rw [relaxedVertex, if_pos hvis]
      rfl
    · rfl

theorem marks_visited : marks (update vertices v { vertices v with visited := true }) =
      visit (marks vertices) v := by
  funext x
  rw [visit, marks, marks]
  by_cases hx : x = v
  · subst hx
    rw [if_pos rfl, update_self]
  · rw [if_neg hx, update_of_ne hx]

/-- Either the shortest vertex is an open one, or no open one has a weight below the maximum. -/
theorem shortest_spec : (shortest g vertices = (g.vertexCount,maxWeight) ∧
      ∀ v, IsOpen g.start g.stop (marks vertices) v → maxWeight ≤ (vertices v).weight) ∨
    ∃ i, shortest g vertices = (i, (vertices i).weight) ∧
      IsOpen g.start g.stop (marks vertices) i ∧ (vertices i).weight < maxWeight ∧
      ∀ v, IsOpen g.start g.stop (marks vertices) v → (vertices i).weight ≤ (vertices v).weight := by
  obtain ⟨-,hleast,hfrom⟩ := @foldl_nearer vertices (behindStart g) (g.vertexCount,maxWeight)
  rw [← shortest] at hleast hfrom
  have hopen : ∀ v, IsOpen g.start g.stop (marks vertices) v →
      (shortest g vertices).2 ≤ (vertices v).weight :=
    fun v hv => hleast v (mem_behindStart.mpr ⟨hv.1, hv.2.1⟩) hv.2.2
  rcases hfrom with heq | ⟨i,hi,hvis,hlt,heq⟩
  · rw [heq] at hopen
    exact .inl ⟨heq, hopen⟩
  · rw [heq] at hopen
    obtain ⟨hstart,hstop⟩ := mem_behindStart.mp hi
    exact .inr ⟨i, heq, ⟨hstart, hstop, hvis⟩, hlt, hopen⟩

structure Round (g : LeastArguments) (vertices : Vertices) (m : Nat) : Prop where
  searching : Searching g.start g.stop (marks vertices) (edgeOf g) maxWeight (some m)
  settled : Settled g.start g.stop (marks vertices) m
  byte : ∀ v, g.start < v → v ≤ g.stop → (vertices v).weight ≤ maxWeight

theorem settled_le {s : Nat → Mark} (hlt : g.start < g.stop) (hm : Settled g.start g.stop s m) :
    m ≤ g.stop := by
  rcases hm with rfl | ⟨-,hle,-⟩
  · exact le_of_lt hlt
  · exact hle

section
variable (hcount : (g.stop+1) * g.vertexCount ≤ 2^31)
include hcount

theorem Round.next
    (hstop : g.stop < g.vertexCount) (hlt : g.start < g.stop) (hnested : Nested (edgeOf g))
    (h : Round g vertices m) :
    ∃ vertices', (behindStart g).foldlM (relaxVertex g m (vertices m).weight) vertices = some vertices' ∧
      Searching g.start g.stop (marks vertices') (edgeOf g) maxWeight none ∧
      openCount g.start g.stop (marks vertices') = openCount g.start g.stop (marks vertices) ∧
      (vertices' g.stop).visited = (vertices g.stop).visited ∧
      ∀ i, IsOpen g.start g.stop (marks vertices') i → (vertices' i).weight < maxWeight →
        (∀ v, IsOpen g.start g.stop (marks vertices') v → (vertices' i).weight ≤ (vertices' v).weight) →
        Round g (update vertices' i { vertices' i with visited := true }) i ∧ openCount g.start g.stop
            (marks (update vertices' i { vertices' i with visited := true })) <
          openCount g.start g.stop (marks vertices) := by
  obtain ⟨vertices',hrun,hmarks⟩ := foldlM_relaxVertex hcount hstop (settled_le hlt h.settled) h.byte
  have hsearching := h.searching.relax hnested h.settled
  have hcntEq : openCount g.start g.stop (marks vertices') = openCount g.start g.stop (marks vertices) := by
    rw [hmarks, openCount_relax]
  have hvis : (vertices' g.stop).visited = (vertices g.stop).visited := by
    have := @relax_visited (edgeOf g) g.start g.stop m g.stop (marks vertices)
    rw [← hmarks] at this
    exact this
  rw [← hmarks] at hsearching
  refine ⟨vertices', hrun, hsearching, hcntEq, hvis, fun i hi hbound hleast => ⟨⟨?_, ?_, ?_⟩, ?_⟩⟩
  · rw [marks_visited]
    exact hsearching.visit hi hbound hleast
  · rw [marks_visited]
    exact (settled_visit hi).mpr (.inr rfl)
  · intro v hv hle
    have hweight : (update vertices' i { vertices' i with visited := true } v).weight =
        (vertices' v).weight := by
      have := @visit_weight i v (marks vertices')
      rw [← marks_visited] at this
      exact this
    rw [hweight]
    have := @relax_weight_le (edgeOf g) g.start g.stop m v (marks vertices)
    rw [← hmarks] at this
    exact le_trans this (h.byte v hv hle)
  · rw [marks_visited, ← hcntEq]
    exact openCount_visit hi

variable {fuel : Nat} {vertices' : Vertices}

theorem leastLoop_found (hstop : g.stop < g.vertexCount)
    (hlt : g.start < g.stop) (hnested : Nested (edgeOf g)) (h : Round g vertices m)
    (hrun : leastLoop g fuel m (vertices m).weight vertices = some vertices') :
    (vertices' g.stop).weight < maxWeight ∧
      Chain g.start g.stop (marks vertices') (edgeOf g) g.stop (vertices' g.stop).weight ∧
      IsLeast (pathWeights g) (vertices' g.stop).weight := by
  induction fuel generalizing m vertices with
  | zero => cases hrun
  | succ fuel ih =>
    rw [leastLoop] at hrun
    by_cases hvis : (vertices g.stop).visited = true
    · rw [if_pos hvis, Option.some.injEq] at hrun
      rw [← hrun]
      exact h.searching.found hlt hvis
    rw [if_neg hvis] at hrun
    obtain ⟨relaxed,hrelaxed,hsearching,-,-,hnext⟩ := h.next hcount hstop hlt hnested
    rw [hrelaxed, bind_some] at hrun
    rcases @shortest_spec g relaxed with ⟨heq,-⟩ | ⟨i,heq,hi,hbnd,hleast⟩
    · simp only [heq] at hrun
      rw [if_pos (.inr hstop)] at hrun
      cases hrun
    simp only [heq] at hrun
    have hin := hi.1
    have hout := hi.2.1
    rw [if_neg (by omega)] at hrun
    refine ih (hnext i hi hbnd hleast).1 ?_
    rw [update_self]
    exact hrun

theorem leastLoop_isSome {n : Nat}
    (hstop : g.stop < g.vertexCount) (hlt : g.start < g.stop) (hnested : Nested (edgeOf g))
    (hpath : n ∈ pathWeights g) (hn : n < maxWeight) (h : Round g vertices m)
    (hfuel : openCount g.start g.stop (marks vertices) < fuel) :
    (leastLoop g fuel m (vertices m).weight vertices).isSome = true := by
  induction fuel generalizing m vertices with
  | zero => exact absurd hfuel (Nat.not_lt_zero _)
  | succ fuel ih =>
    rw [leastLoop]
    by_cases hvis : (vertices g.stop).visited = true
    · rw [if_pos hvis]
      rfl
    rw [if_neg hvis]
    obtain ⟨relaxed,hrelaxed,hsearching,-,hstill,hnext⟩ := h.next hcount hstop hlt hnested
    rw [hrelaxed, bind_some]
    obtain ⟨q,hq,hle⟩ := hsearching.exists_open hpath
      ⟨hlt, le_rfl, by
        rw [marks, hstill]
        exact Bool.eq_false_iff.mpr hvis⟩
    rcases @shortest_spec g relaxed with ⟨-,hnone⟩ | ⟨i,heq,hi,hbnd,hleast⟩
    · have hq' : maxWeight ≤ (relaxed q).weight := hnone q hq
      have hle' : (relaxed q).weight ≤ n := hle
      omega
    obtain ⟨hround,hdecrease⟩ := hnext i hi hbnd hleast
    have hin := hi.1
    have hout := hi.2.1
    simp only [heq]
    rw [if_neg (by omega)]
    have := ih hround (by omega)
    rw [update_self] at this
    exact this

section
variable (hbs : Bytes g.vertexCount g.weight)
include hbs

theorem round_start (hstop : g.stop < g.vertexCount) (hlt : g.start < g.stop) :
    ∃ vertices', (range' g.start (g.stop+1-g.start)).foldlM (initVertex g) vertices =
        some vertices' ∧ Round g vertices' g.start ∧ (vertices' g.start).weight = 0 := by
  have hmem : ∀ v, v ∈ range' g.start (g.stop+1-g.start) ↔ g.start ≤ v ∧ v ≤ g.stop := by
    intro v
    rw [mem_range'_1]
    omega
  have hstart := lt_trans hlt hstop
  have hvertex : ∀ v, g.start ≤ v → v ≤ g.stop →
      (if v ∈ range' g.start (g.stop+1-g.start) then initialVertex g v (vertices v)
        else vertices v) = initialVertex g v (vertices v) := fun v hv hle => if_pos ((hmem v).mpr ⟨hv, hle⟩)
  have hzero : (initialVertex g g.start (vertices g.start)).weight = 0 := by
    rw [initialVertex, edgeOf_eq hstart hstart, O, ← M, hbs.self g.start hstart,
      if_pos (by decide), getD_some]
    split <;> rfl
  refine ⟨_, foldlM_update (nodup_range' 1) fun vs v hv =>
    initVertex_eq hcount hstop hbs ((hmem v).mp hv).1 ((hmem v).mp hv).2,
    ⟨searching_start (by decide) ?_ (fun v hv hle => ?_) (fun v hv hle hbound => ?_),
      .inl rfl, fun v hv hle => ?_⟩, ?_⟩
  · rw [marks, hvertex _ le_rfl (le_of_lt hlt)]
    exact hzero
  · rw [marks, hvertex v (le_of_lt hv) hle]
    rfl
  · rw [marks, hvertex v (le_of_lt hv) hle, initialVertex] at *
    cases hedge : edgeOf g g.start v with
    | none =>
      rw [hedge] at hbound
      exact absurd hbound (lt_irrefl _)
    | some c => rfl
  · rw [hvertex v (le_of_lt hv) hle, initialVertex]
    cases hedge : edgeOf g g.start v with
    | none => exact le_rfl
    | some c => exact edgeOf_start_le hbs (le_of_lt hv) (lt_of_le_of_lt hle hstop) hedge
  · rw [hvertex _ le_rfl (le_of_lt hlt)]
    exact hzero

theorem mtrrLibCalculateLeastMtrrs_found
    (hnested : Nested (edgeOf g)) (hstop : g.stop < g.vertexCount) (hlt : g.start < g.stop)
    (hrun : mtrrLibCalculateLeastMtrrs g vertices fuel = some vertices') :
    (vertices' g.stop).weight < maxWeight ∧
      Chain g.start g.stop (marks vertices') (edgeOf g) g.stop (vertices' g.stop).weight ∧
      IsLeast (pathWeights g) (vertices' g.stop).weight := by
  obtain ⟨initial,hinit,hround,hzero⟩ := @round_start g vertices hcount hbs hstop hlt
  rw [mtrrLibCalculateLeastMtrrs, hinit, bind_some, ← hzero] at hrun
  exact leastLoop_found hcount hstop hlt hnested hround hrun

theorem findsLeast_iff_path (hnested : Nested (edgeOf g))
    (hstop : g.stop < g.vertexCount) (hlt : g.start < g.stop) :
    FindsLeast g vertices ↔ ∃ n, n < maxWeight ∧ n ∈ pathWeights g := by
  constructor
  · rintro ⟨fuel,vertices',hrun,hleast,-⟩
    obtain ⟨hbnd,-,-⟩ := mtrrLibCalculateLeastMtrrs_found hcount hbs hnested hstop hlt hrun
    exact ⟨_, hbnd, hleast.1⟩
  · rintro ⟨n,hn,hpath⟩
    obtain ⟨initial,hinit,hround,hzero⟩ := @round_start g vertices hcount hbs hstop hlt
    obtain ⟨vertices',hrun⟩ := Option.isSome_iff_exists.mp
      (leastLoop_isSome hcount hstop hlt hnested hpath hn hround (Nat.lt_succ_self _))
    have hwhole : mtrrLibCalculateLeastMtrrs g vertices
        (openCount g.start g.stop (marks initial) + 1) = some vertices' := by
      rw [mtrrLibCalculateLeastMtrrs, hinit, bind_some, ← hzero]
      exact hrun
    obtain ⟨-,hch,hleast⟩ := mtrrLibCalculateLeastMtrrs_found hcount hbs hnested hstop hlt hwhole
    exact ⟨_, vertices', hwhole, hleast, hch⟩

end

end

end

end Liano.Mtrr
