import Mathlib.Data.Finset.Card
import Mathlib.Data.Finset.Range
import Mathlib.Data.List.Basic
import Mathlib.Order.Bounds.Basic

/-! Least paths over numbered vertices: a path leads upwards, and the edges upwards are nested. The
search settles the nearest open vertex and relaxes all edges from it, those downwards too. -/
namespace Liano.Lib

structure Mark where
  visited : Bool
  weight : Nat
  previous : Nat
deriving DecidableEq, Repr

section
variable (edge : Nat → Nat → Option Nat)

inductive PathTo (start : Nat) : Nat → Nat → Prop
  | start : PathTo start start 0
  | step {u v n c : Nat} : PathTo start u n → u < v → edge u v = some c → PathTo start v (n+c)

def Nested : Prop := ∀ a b c d m n, edge a b = some m → edge c d = some n → a < c → c < b → c < d → d ≤ b

end

section
variable (start stop : Nat) (s : Nat → Mark)

def Settled (v : Nat) : Prop := v = start ∨ start < v ∧ v ≤ stop ∧ (s v).visited = true

def IsOpen (v : Nat) : Prop := start < v ∧ v ≤ stop ∧ (s v).visited = false

instance (v : Nat) : Decidable (IsOpen start stop s v) := inferInstanceAs (Decidable (_ ∧ _ ∧ _))

/-- The way back from a visited vertex to the start, by the links to the previous vertex, and its
weight. -/
inductive Chain (edge : Nat → Nat → Option Nat) : Nat → Nat → Prop
  | start : Chain edge start 0
  | step {v n c : Nat} : Chain edge (s v).previous n → (s v).previous < v → v ≤ stop →
      (s v).visited = true → edge (s v).previous v = some c → Chain edge v (n+c)

def Inside (edge : Nat → Nat → Option Nat) (v : Nat) : Prop :=
  ∃ y n, Chain start stop s edge y n ∧ start < y ∧ (s y).previous < v ∧ v < y

def relax (edge : Nat → Nat → Option Nat) (m : Nat) : Nat → Mark := fun v =>
  if IsOpen start stop s v then
    match edge m v with
    | none => s v
    | some c =>
      if (s m).weight + c ≤ (s v).weight then
        { s v with weight := (s m).weight + c, previous := m }
      else s v
  else s v

def visit (i : Nat) : Nat → Mark := fun v => if v = i then { s v with visited := true } else s v

/-- What holds in the search for weights below a bound, with the edges of one vertex pending. -/
structure Searching (edge : Nat → Nat → Option Nat) (bound : Nat) (pending : Option Nat) : Prop where
  zero : (s start).weight = 0
  bounded : ∀ v, Settled start stop s v → (s v).weight < bound
  reached : ∀ v, Settled start stop s v → Chain start stop s edge v (s v).weight ∨ Inside start stop s edge v
  linked : ∀ v, IsOpen start stop s v → (s v).weight < bound →
    (Chain start stop s edge (s v).previous (s (s v).previous).weight ∧ (s v).previous < v ∧
      ∃ c, edge (s v).previous v = some c ∧ (s v).weight = (s (s v).previous).weight + c) ∨
    Inside start stop s edge v ∨ ∃ m c, pending = some m ∧ edge m v = some c ∧ (s m).weight + c ≤ (s v).weight
  relaxed : ∀ u v c, Settled start stop s u → pending ≠ some u → IsOpen start stop s v → u < v →
    edge u v = some c → (s v).weight ≤ (s u).weight + c
  least : ∀ u n, Settled start stop s u → PathTo edge start u n → (s u).weight ≤ n

end

section
variable {edge : Nat → Nat → Option Nat} {start stop bound m i v n : Nat} {s t : Nat → Mark}
  {pending : Option Nat}

theorem PathTo.le (h : PathTo edge start v n) : start ≤ v := by
  induction h with
  | start => exact le_rfl
  | step h hlt hedge ih => exact le_of_lt (lt_of_le_of_lt ih hlt)

section
variable (h : Chain start stop s edge v n)
include h

theorem Chain.path : PathTo edge start v n := by
  induction h with
  | start => exact .start
  | step h hlt hle hvisited hedge ih => exact .step ih hlt hedge

theorem Chain.settled : Settled start stop s v := by
  cases h with
  | start => exact .inl rfl
  | step h hlt hle hvis hedge => exact .inr ⟨lt_of_le_of_lt h.path.le hlt, hle, hvis⟩

theorem Chain.last (hv : start < v) :
    ∃ k c, Chain start stop s edge (s v).previous k ∧ (s v).previous < v ∧ v ≤ stop ∧
      (s v).visited = true ∧ edge (s v).previous v = some c := by
  cases h with
  | start => exact absurd hv (lt_irrefl _)
  | step h hlt hle hvis hedge => exact ⟨_, _, h, hlt, hle, hvis, hedge⟩

end

theorem Chain.inside (h : Chain start stop s edge m n) (hv : IsOpen start stop s v) (hlt : v < m) :
    Inside start stop s edge v := by
  induction h with
  | start => exact absurd hlt (not_lt.mpr (le_of_lt hv.1))
  | @step y k c h hprev hle hvisited hedge ih =>
    rcases lt_trichotomy v (s y).previous with hbelow | heq | habove
    · exact ih hbelow
    · rcases h.settled with hstart | ⟨-,-,hset⟩
      · rw [heq, hstart] at hv
        exact absurd hv.1 (lt_irrefl _)
      · rw [← heq, hv.2.2] at hset
        cases hset
    · exact ⟨y, _, .step h hprev hle hvisited hedge, lt_of_le_of_lt h.path.le hprev, habove, hlt⟩

def Keeps (start stop : Nat) (s t : Nat → Mark) : Prop := ∀ v, start < v → v ≤ stop → (s v).visited = true →
    (t v).visited = true ∧ (t v).previous = (s v).previous

theorem Chain.keep (hkeep : Keeps start stop s t) (h : Chain start stop s edge v n) :
    Chain start stop t edge v n := by
  induction h with
  | start => exact .start
  | @step v k c h hlt hle hvisited hedge ih =>
    obtain ⟨hvisit,hprev⟩ := hkeep v (lt_of_le_of_lt h.path.le hlt) hle hvisited
    rw [← hprev] at ih hlt hedge
    exact .step ih hlt hle hvisit hedge

theorem Inside.keep (hkeep : Keeps start stop s t) (h : Inside start stop s edge v) :
    Inside start stop t edge v := by
  obtain ⟨y,k,hy,hstart,hlow,hhigh⟩ := h
  obtain ⟨-,-,-,-,hle,hvis,-⟩ := hy.last hstart
  refine ⟨y, k, hy.keep hkeep, hstart, ?_, hhigh⟩
  rw [(hkeep y hstart hle hvis).2]
  exact hlow

theorem keeps_relax : Keeps start stop s (relax start stop s edge m) := by
  intro v _ _ hvis
  have hnot : ¬ IsOpen start stop s v := by
    rintro ⟨-,-,h⟩
    rw [hvis] at h
    cases h
  rw [relax, if_neg hnot]
  exact ⟨hvis, rfl⟩

theorem keeps_visit : Keeps start stop s (visit s i) := by
  intro v _ _ hvis
  rw [visit]
  split
  · exact ⟨rfl, rfl⟩
  · exact ⟨hvis, rfl⟩

theorem relax_visited : (relax start stop s edge m v).visited = (s v).visited := by
  rw [relax]
  split
  · split
    · rfl
    · split <;> rfl
  · rfl

theorem settled_relax : Settled start stop (relax start stop s edge m) v ↔ Settled start stop s v := by
  rw [Settled, Settled, relax_visited]

theorem isOpen_relax : IsOpen start stop (relax start stop s edge m) v ↔ IsOpen start stop s v := by
  rw [IsOpen, IsOpen, relax_visited]

theorem relax_of_settled (h : Settled start stop s v) : relax start stop s edge m v = s v := by
  rw [relax, if_neg]
  rintro ⟨hlt,-,hvis⟩
  rcases h with rfl | ⟨-,-,h⟩
  · exact absurd hlt (lt_irrefl _)
  · rw [hvis] at h
    cases h

theorem relax_weight_le : (relax start stop s edge m v).weight ≤ (s v).weight := by
  rw [relax]
  split
  · split
    · exact le_rfl
    · split
      · assumption
      · exact le_rfl
  · exact le_rfl

theorem relax_cases (hv : IsOpen start stop s v) : relax start stop s edge m v = s v ∧
      (∀ c, edge m v = some c → (s v).weight < (s m).weight + c) ∨
    ∃ c, edge m v = some c ∧ (s m).weight + c ≤ (s v).weight ∧
      relax start stop s edge m v = { s v with weight := (s m).weight + c, previous := m } := by
  rw [relax, if_pos hv]
  cases hedge : edge m v with
  | none => exact .inl ⟨rfl, fun c hc => (nomatch hc)⟩
  | some c =>
    by_cases hle : (s m).weight + c ≤ (s v).weight
    · exact .inr ⟨c, rfl, hle, if_pos hle⟩
    · refine .inl ⟨if_neg hle, fun c' hc' => ?_⟩
      rw [← Option.some.inj hc']
      exact Nat.lt_of_not_le hle

theorem Searching.above_or_inside (h : Searching start stop s edge bound pending)
    (hnested : Nested edge) (hm : Settled start stop s m) (hv : IsOpen start stop s v) {c : Nat}
    (hedge : edge m v = some c) :
    (Chain start stop s edge m (s m).weight ∧ m < v) ∨ Inside start stop s edge v := by
  have hne : v ≠ m := by
    rintro rfl
    rcases hm with rfl | ⟨-,-,hvis⟩
    · exact absurd hv.1 (lt_irrefl _)
    · rw [hv.2.2] at hvis
      cases hvis
  rcases h.reached m hm with hch | ⟨y,k,hy,hstart,hlow,hhigh⟩
  · rcases lt_or_ge m v with hlt | hge
    · exact .inl ⟨hch, hlt⟩
    · exact .inr (hch.inside hv (Nat.lt_of_le_of_ne hge hne))
  -- a vertex under a way back only leads to others under it
  obtain ⟨k',c',hprev,-,hyle,hyvisited,hyedge⟩ := hy.last hstart
  have hvy : v ≠ y := by
    rintro rfl
    rw [hv.2.2] at hyvisited
    cases hyvisited
  refine .inr ?_
  rcases lt_or_ge (s y).previous v with habove | hbelow
  · refine ⟨y, k, hy, hstart, habove, Nat.lt_of_le_of_ne ?_ hvy⟩
    rcases lt_or_ge m v with hlt | hge
    · exact hnested _ _ _ _ _ _ hyedge hedge hlow hhigh hlt
    · exact le_of_lt (lt_of_le_of_lt hge hhigh)
  refine hprev.inside hv (Nat.lt_of_le_of_ne hbelow ?_)
  intro heq
  rcases hprev.settled with hpstart | ⟨-,-,hpvisited⟩
  · rw [heq, hpstart] at hv
    exact absurd hv.1 (lt_irrefl _)
  · rw [← heq, hv.2.2] at hpvisited
    cases hpvisited

theorem Searching.relax (h : Searching start stop s edge bound (some m)) (hnested : Nested edge)
    (hm : Settled start stop s m) : Searching start stop (relax start stop s edge m) edge bound none where
  zero := by
    rw [relax_of_settled (.inl rfl)]
    exact h.zero
  bounded := by
    intro v hv
    rw [settled_relax] at hv
    rw [relax_of_settled hv]
    exact h.bounded v hv
  reached := by
    intro v hv
    rw [settled_relax] at hv
    rw [relax_of_settled hv]
    exact (h.reached v hv).imp (Chain.keep keeps_relax) (Inside.keep keeps_relax)
  linked := by
    intro v hv hbound
    rw [isOpen_relax] at hv
    rcases @relax_cases edge start stop m v s hv with ⟨heq,hnone⟩ | ⟨c,hedge,-,heq⟩
    · rw [heq] at hbound ⊢
      rcases h.linked v hv hbound with ⟨hch,hlt,c,hedge,hweight⟩ | hins |
        ⟨m', c, hm', hedge, hle⟩
      · refine .inl ⟨?_, hlt, c, hedge, ?_⟩
        · rw [relax_of_settled hch.settled]
          exact hch.keep keeps_relax
        · rw [relax_of_settled hch.settled]
          exact hweight
      · exact .inr (.inl (hins.keep keeps_relax))
      · cases hm'
        exact absurd hle (not_le.mpr (hnone c hedge))
    · rw [heq]
      rcases h.above_or_inside hnested hm hv hedge with ⟨hch,hlt⟩ | hins
      · refine .inl ⟨?_, hlt, c, hedge, ?_⟩
        · rw [relax_of_settled hm]
          exact hch.keep keeps_relax
        · rw [relax_of_settled hm]
      · exact .inr (.inl (hins.keep keeps_relax))
  relaxed := by
    intro u v c hu _ hv hlt hedge
    rw [settled_relax] at hu
    rw [isOpen_relax] at hv
    rw [relax_of_settled hu]
    by_cases hum : u = m
    · subst hum
      rcases @relax_cases edge start stop u v s hv with ⟨heq,hnone⟩ | ⟨c',hedge',-,heq⟩
      · rw [heq]
        exact le_of_lt (hnone c hedge)
      · rw [heq]
        rw [hedge, Option.some.injEq] at hedge'
        rw [hedge']
    · refine le_trans relax_weight_le (h.relaxed u v c hu ?_ hv hlt hedge)
      intro heq
      exact hum (Option.some.inj heq).symm
  least := by
    intro u k hu hpath
    rw [settled_relax] at hu
    rw [relax_of_settled hu]
    exact h.least u k hu hpath

theorem Searching.exists_open (h : Searching start stop s edge bound none)
    (hpath : PathTo edge start v n) (hv : IsOpen start stop s v) :
    ∃ q, IsOpen start stop s q ∧ (s q).weight ≤ n := by
  induction hpath with
  | start => exact absurd hv.1 (lt_irrefl _)
  | @step u v k c hpath hlt hedge ih =>
    by_cases hu : IsOpen start stop s u
    · obtain ⟨q,hq,hle⟩ := ih hu
      exact ⟨q, hq, le_trans hle (Nat.le_add_right _ _)⟩
    have hsettl : Settled start stop s u := by
      rcases Nat.eq_or_lt_of_le hpath.le with heq | hstart
      · exact .inl heq.symm
      have hle : u ≤ stop := le_trans (le_of_lt hlt) hv.2.1
      refine .inr ⟨hstart, hle, ?_⟩
      rw [← Bool.not_eq_false]
      exact fun hvis => hu ⟨hstart, hle, hvis⟩
    refine ⟨v, hv, le_trans (h.relaxed u v c hsettl (by simp) hv hlt hedge) ?_⟩
    exact Nat.add_le_add_right (h.least u k hsettl hpath) c

theorem visit_weight : (visit s i v).weight = (s v).weight := by
  rw [visit]
  split <;> rfl

theorem visit_previous : (visit s i v).previous = (s v).previous := by
  rw [visit]
  split <;> rfl

theorem settled_visit (hi : IsOpen start stop s i) :
    Settled start stop (visit s i) v ↔ Settled start stop s v ∨ v = i := by
  rw [Settled, Settled, visit]
  by_cases hv : v = i
  · rw [if_pos hv, hv]
    exact iff_of_true (.inr ⟨hi.1, hi.2.1, rfl⟩) (.inr rfl)
  · rw [if_neg hv, or_iff_left hv]

theorem isOpen_visit : IsOpen start stop (visit s i) v ↔ IsOpen start stop s v ∧ v ≠ i := by
  rw [IsOpen, IsOpen, visit]
  by_cases hv : v = i
  · rw [if_pos hv]
    exact iff_of_false (fun h => (nomatch h.2.2)) fun h => h.2 hv
  · rw [if_neg hv, and_iff_left hv]

theorem Searching.visit (h : Searching start stop s edge bound none) (hi : IsOpen start stop s i)
    (hbnd : (s i).weight < bound) (hleast : ∀ v, IsOpen start stop s v → (s i).weight ≤ (s v).weight) :
    Searching start stop (visit s i) edge bound (some i) where
  zero := by
    rw [visit_weight]
    exact h.zero
  bounded := by
    intro v hv
    rw [visit_weight]
    rcases (settled_visit hi).mp hv with hv | rfl
    · exact h.bounded v hv
    · exact hbnd
  reached := by
    intro v hv
    rw [visit_weight]
    rcases (settled_visit hi).mp hv with hv | rfl
    · exact (h.reached v hv).imp (Chain.keep keeps_visit) (Inside.keep keeps_visit)
    rcases h.linked v hi hbnd with ⟨hch,hlt,c,hedge,hweight⟩ | hins | ⟨m,c,hm,-⟩
    · refine .inl ?_
      rw [hweight]
      have hprev : (visit s v v).previous = (s v).previous := visit_previous
      refine .step ?_ ?_ hi.2.1 ?_ ?_
      · rw [hprev]
        exact hch.keep keeps_visit
      · rw [hprev]
        exact hlt
      · rw [visit, if_pos rfl]
      · rw [hprev]
        exact hedge
    · exact .inr (hins.keep keeps_visit)
    · cases hm
  linked := by
    intro v hv hlt
    rw [isOpen_visit] at hv
    rw [visit_weight] at hlt
    rw [visit_weight, visit_previous, visit_weight]
    rcases h.linked v hv.1 hlt with ⟨hch,hrest⟩ | hins | ⟨m,c,hm,-⟩
    · exact .inl ⟨hch.keep keeps_visit, hrest⟩
    · exact .inr (.inl (hins.keep keeps_visit))
    · cases hm
  relaxed := by
    intro u v c hu hpending hv hlt hedge
    rw [visit_weight, visit_weight]
    rcases (settled_visit hi).mp hu with hu | rfl
    · exact h.relaxed u v c hu (by simp) (isOpen_visit.mp hv).1 hlt hedge
    · exact absurd rfl hpending
  least := by
    intro u n hu hpath
    rw [visit_weight]
    rcases (settled_visit hi).mp hu with hu | rfl
    · exact h.least u n hu hpath
    · obtain ⟨q,hq,hle⟩ := h.exists_open hpath hi
      exact le_trans (hleast q hq) hle

theorem Searching.found (h : Searching start stop s edge bound pending) (hlt : start < stop)
    (hstop : (s stop).visited = true) :
    (s stop).weight < bound ∧ Chain start stop s edge stop (s stop).weight ∧
      IsLeast {n | PathTo edge start stop n} (s stop).weight := by
  have hsettl : Settled start stop s stop := .inr ⟨hlt, le_rfl, hstop⟩
  have hch : Chain start stop s edge stop (s stop).weight := by
    rcases h.reached stop hsettl with hch | ⟨y,k,hy,hstart,-,hhigh⟩
    · exact hch
    · obtain ⟨-,-,-,-,hle,-⟩ := hy.last hstart
      exact absurd hhigh (not_lt.mpr hle)
  exact ⟨h.bounded stop hsettl, hch, hch.path, fun n hn => h.least stop n hsettl hn⟩

/-- The start of a search: no vertex visited, and no weight but those of the edges from the start. -/
theorem searching_start (hbnd : 0 < bound) (hzero : (s start).weight = 0)
    (hopen : ∀ v, start < v → v ≤ stop → (s v).visited = false)
    (hweight : ∀ v, start < v → v ≤ stop → (s v).weight < bound →
      edge start v = some (s v).weight) : Searching start stop s edge bound (some start) := by
  have hsettl : ∀ v, Settled start stop s v → v = start := by
    rintro v (rfl | ⟨hlt,hle,hvis⟩)
    · rfl
    · rw [hopen v hlt hle] at hvis
      cases hvis
  refine ⟨hzero, fun v hv => ?_, fun v hv => ?_, fun v hv hlt => ?_, fun u v c hu hpending => ?_,
    fun u n hu _ => ?_⟩
  · rw [hsettl v hv, hzero]
    exact hbnd
  · rw [hsettl v hv, hzero]
    exact .inl .start
  · refine .inr (.inr ⟨start, (s v).weight, rfl, hweight v hv.1 hv.2.1 hlt, ?_⟩)
    rw [hzero, Nat.zero_add]
  · rw [hsettl u hu] at hpending
    exact absurd rfl hpending
  · rw [hsettl u hu, hzero]
    exact Nat.zero_le _

def openCount (start stop : Nat) (s : Nat → Mark) : Nat :=
  ((Finset.range (stop+1)).filter fun v => IsOpen start stop s v).card

theorem openCount_relax : openCount start stop (relax start stop s edge m) = openCount start stop s := by
  rw [openCount, openCount]
  congr 1
  ext v
  rw [Finset.mem_filter, Finset.mem_filter, isOpen_relax]

theorem openCount_visit (hi : IsOpen start stop s i) :
    openCount start stop (visit s i) < openCount start stop s := by
  refine Finset.card_lt_card (Finset.ssubset_iff_subset_ne.mpr ⟨fun v hv => ?_, fun heq => ?_⟩)
  · rw [Finset.mem_filter, isOpen_visit] at hv
    exact Finset.mem_filter.mpr ⟨hv.1, hv.2.1⟩
  · have hmem : i ∈ (Finset.range (stop+1)).filter fun v => IsOpen start stop s v :=
      Finset.mem_filter.mpr ⟨Finset.mem_range.mpr (Nat.lt_succ_of_le hi.2.1), hi⟩
    rw [← heq, Finset.mem_filter, isOpen_visit] at hmem
    exact hmem.2.2 rfl

end

end Liano.Lib
