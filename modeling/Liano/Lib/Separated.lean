import Liano.Lib.Spans

/-! Lists of spans with a gap between neighbours: the one way to write down a set of numbers as runs.
A range that such a list covers is in one of its spans, and a range can be cut out of it or joined to it. -/
namespace Liano.Lib

open List hiding after

structure Separated (xs : List Span) : Prop where
  nonempty : ∀ x ∈ xs, x.start < x.stop
  gaps : xs.Pairwise fun x y => x.stop < y.start

def Covers (xs : List Span) (n : Nat) : Prop := ∃ x ∈ xs, x.Holds n

variable {xs before after before' after' : List Span} {x y : Span} {s t s' t' n : Nat}

theorem covers_nil : ¬ Covers [] n := by
  rintro ⟨x,hx,-⟩
  cases hx

theorem covers_cons : Covers (x :: xs) n ↔ x.Holds n ∨ Covers xs n := by
  unfold Covers
  simp only [mem_cons, or_and_right, exists_or, exists_eq_left]

theorem covers_append : Covers (before ++ after) n ↔ Covers before n ∨ Covers after n := by
  unfold Covers
  simp only [mem_append, or_and_right, exists_or]

theorem separated_nil : Separated [] := by
  refine ⟨fun x hx => ?_, List.Pairwise.nil⟩
  cases hx

theorem Separated.trichotomy (h : Separated xs) (hx : x ∈ xs) (hy : y ∈ xs) :
    x = y ∨ x.stop < y.start ∨ y.stop < x.start := by
  induction xs with
  | nil => cases hx
  | cons z zs ih =>
    obtain ⟨hhead,htail⟩ := pairwise_cons.mp h.gaps
    rcases mem_cons.mp hx with rfl | hx'
    · rcases mem_cons.mp hy with rfl | hy'
      · exact .inl rfl
      · exact .inr (.inl (hhead y hy'))
    · rcases mem_cons.mp hy with rfl | hy'
      · exact .inr (.inr (hhead x hx'))
      · exact ih ⟨fun w hw => h.nonempty w (mem_cons_of_mem z hw), htail⟩ hx' hy'

/-- A range that is covered is in one span: its number behind the span of the first would be in
another, which the gap keeps away. -/
theorem Separated.one_span (h : Separated xs) (hlt : s < t)
    (hcovers : ∀ n, s ≤ n → n < t → Covers xs n) : ∃ x ∈ xs, x.start ≤ s ∧ t ≤ x.stop := by
  obtain ⟨x,hx,hstart,hstop⟩ := hcovers s le_rfl hlt
  refine ⟨x, hx, hstart, ?_⟩
  by_contra hbeyond
  obtain ⟨y,hy,hystart,hystop⟩ := hcovers x.stop (by omega) (by omega)
  rcases h.trichotomy hx hy with rfl | hxy | hyx <;> omega

def cutOut (x : Span) (s t : Nat) : List Span :=
  (if x.start < s then [⟨x.start, s⟩] else []) ++ if t < x.stop then [⟨t, x.stop⟩] else []

theorem mem_cutOut : y ∈ cutOut x s t ↔
    (x.start < s ∧ y = ⟨x.start, s⟩) ∨ (t < x.stop ∧ y = ⟨t, x.stop⟩) := by
  unfold cutOut
  split <;> split <;> simp [*]

section
variable (h : Separated (before ++ x :: after)) (hs : x.start ≤ s) (hlt : s < t) (ht : t ≤ x.stop)
include h hs hlt ht

theorem Separated.cutOut : Separated (before ++ (cutOut x s t ++ after)) := by
  have hgaps := h.gaps
  rw [pairwise_append, pairwise_cons] at hgaps
  obtain ⟨hbef,⟨hnext,hafter⟩,hcross⟩ := hgaps
  refine ⟨?_, ?_⟩
  · intro y hy
    rcases mem_append.mp hy with hy | hy
    · exact h.nonempty y (mem_append_left _ hy)
    · rcases mem_append.mp hy with hy | hy
      · rcases mem_cutOut.mp hy with ⟨hpc,rfl⟩ | ⟨hpc,rfl⟩ <;> exact hpc
      · exact h.nonempty y (mem_append_right _ (mem_cons_of_mem x hy))
  · rw [pairwise_append, pairwise_append]
    refine ⟨hbef, ⟨?_, hafter, ?_⟩, ?_⟩
    · unfold Lib.cutOut
      split <;> split <;> simp [hlt]
    · intro y hy z hz
      have hz := hnext z hz
      rcases mem_cutOut.mp hy with ⟨-,rfl⟩ | ⟨-,rfl⟩
      · show s < z.start
        omega
      · exact hz
    · intro y hy z hz
      rcases mem_append.mp hz with hz | hz
      · have hy := hcross y hy x mem_cons_self
        rcases mem_cutOut.mp hz with ⟨-,rfl⟩ | ⟨-,rfl⟩
        · exact hy
        · show y.stop < t
          omega
      · exact hcross y hy z (mem_cons_of_mem x hz)

theorem Separated.covers_cutOut : Covers (before ++ (Lib.cutOut x s t ++ after)) n ↔
      Covers (before ++ x :: after) n ∧ ¬ (s ≤ n ∧ n < t) := by
  have hgaps := h.gaps
  rw [pairwise_append, pairwise_cons] at hgaps
  obtain ⟨-,⟨hnext,-⟩,hcross⟩ := hgaps
  rw [covers_append, covers_append, covers_append, covers_cons]
  have hcut : Covers (Lib.cutOut x s t) n ↔ x.Holds n ∧ ¬ (s ≤ n ∧ n < t) := by
    unfold Covers Span.Holds
    constructor
    · rintro ⟨y,hy,hyn⟩
      rcases mem_cutOut.mp hy with ⟨hpc,rfl⟩ | ⟨hpc,rfl⟩
      · have hlow : x.start ≤ n ∧ n < s := hyn
        omega
      · have hhigh : t ≤ n ∧ n < x.stop := hyn
        omega
    · rintro ⟨hxn,hout⟩
      by_cases hlow : n < s
      · exact ⟨⟨x.start, s⟩, mem_cutOut.mpr (.inl ⟨by omega, rfl⟩), hxn.1, hlow⟩
      · exact ⟨⟨t, x.stop⟩, mem_cutOut.mpr (.inr ⟨by omega, rfl⟩), by
          show t ≤ n
          omega, hxn.2⟩
  have hbef : Covers before n → ¬ (s ≤ n ∧ n < t) := by
    rintro ⟨y,hy,hyn⟩ hin
    have hstop := hcross y hy x mem_cons_self
    have hlt := hyn.2
    omega
  have hafter : Covers after n → ¬ (s ≤ n ∧ n < t) := by
    rintro ⟨y,hy,hyn⟩ hin
    have hstart := hnext y hy
    have hle := hyn.1
    omega
  rw [hcut]
  constructor
  · rintro (hn | ⟨hn,hout⟩ | hn)
    · exact ⟨.inl hn, hbef hn⟩
    · exact ⟨.inr (.inl hn), hout⟩
    · exact ⟨.inr (.inr hn), hafter hn⟩
  · rintro ⟨hn | hn | hn,hout⟩
    · exact .inl hn
    · exact .inr (.inl ⟨hn, hout⟩)
    · exact .inr (.inr hn)

end

/-- A range from `s` on behind the spans `before`: it is joined to the last one where that stops at
`s`, and then starts at `s'`. -/
inductive JoinsBefore (before : List Span) (s : Nat) : List Span → Nat → Prop
  | apart : (∀ x ∈ before, x.stop < s) → JoinsBefore before s before s
  | joined {before' : List Span} {s' : Nat} : before = before' ++ [⟨s', s⟩] → JoinsBefore before s before' s'

/-- A range up to `t` before the spans `after`: it is joined to the first one where that starts at `t`,
and then stops at `t'`. -/
inductive JoinsAfter (t : Nat) (after : List Span) : Nat → List Span → Prop
  | apart : (∀ x ∈ after, t < x.start) → JoinsAfter t after t after
  | joined {after' : List Span} {t' : Nat} : after = ⟨t, t'⟩ :: after' → JoinsAfter t after t' after'

theorem JoinsBefore.spec (h : JoinsBefore before s before' s') (hsep : Separated before) :
    s' ≤ s ∧ Separated before' ∧ (∀ x ∈ before', x.stop < s') ∧
      ∀ n, Covers before n ↔ Covers before' n ∨ (s' ≤ n ∧ n < s) := by
  cases h with
  | apart hapart =>
    refine ⟨le_rfl, hsep, hapart, fun n => ?_⟩
    have hempty : ¬ (s ≤ n ∧ n < s) := by omega
    simp only [hempty, or_false]
  | joined hjoined =>
    subst hjoined
    have hgaps := hsep.gaps
    rw [pairwise_append] at hgaps
    have hlt := hsep.nonempty ⟨s', s⟩ (mem_append_right _ mem_cons_self)
    refine ⟨le_of_lt hlt, ⟨fun x hx => hsep.nonempty x (mem_append_left _ hx), hgaps.1⟩,
      fun x hx => hgaps.2.2 x hx _ mem_cons_self, fun n => ?_⟩
    rw [covers_append, covers_cons]
    simp only [covers_nil, or_false, Span.Holds]

theorem JoinsAfter.spec (h : JoinsAfter t after t' after') (hsep : Separated after) :
    t ≤ t' ∧ Separated after' ∧ (∀ x ∈ after', t' < x.start) ∧
      ∀ n, Covers after n ↔ (t ≤ n ∧ n < t') ∨ Covers after' n := by
  cases h with
  | apart hapart =>
    refine ⟨le_rfl, hsep, hapart, fun n => ?_⟩
    have hempty : ¬ (t ≤ n ∧ n < t) := by omega
    simp only [hempty, false_or]
  | joined hjoined =>
    subst hjoined
    have hgaps := pairwise_cons.mp hsep.gaps
    have hlt := hsep.nonempty ⟨t, t'⟩ mem_cons_self
    refine ⟨le_of_lt hlt,
      ⟨fun x hx => hsep.nonempty x (mem_cons_of_mem _ hx), hgaps.2⟩, hgaps.1, fun n => ?_⟩
    rw [covers_cons]
    simp only [Span.Holds]

section
variable (h : Separated (before ++ after))
include h

theorem Separated.left : Separated before :=
  ⟨fun x hx => h.nonempty x (mem_append_left _ hx), (pairwise_append.mp h.gaps).1⟩

theorem Separated.right : Separated after :=
  ⟨fun x hx => h.nonempty x (mem_append_right _ hx), (pairwise_append.mp h.gaps).2.1⟩

theorem Separated.join (hlt : s < t)
    (hbef : JoinsBefore before s before' s') (hafter : JoinsAfter t after t' after') :
    Separated (before' ++ ⟨s', t'⟩ :: after') ∧
      ∀ n, Covers (before' ++ ⟨s', t'⟩ :: after') n ↔ Covers (before ++ after) n ∨ (s ≤ n ∧ n < t) := by
  obtain ⟨hs,hsep1,hgap1,hcover1⟩ := hbef.spec h.left
  obtain ⟨ht,hsep2,hgap2,hcover2⟩ := hafter.spec h.right
  refine ⟨⟨?_, ?_⟩, fun n => ?_⟩
  · intro x hx
    rcases mem_append.mp hx with hx | hx
    · exact hsep1.nonempty x hx
    rcases mem_cons.mp hx with rfl | hx
    · show s' < t'
      omega
    · exact hsep2.nonempty x hx
  · rw [pairwise_append, pairwise_cons]
    refine ⟨hsep1.gaps, ⟨hgap2, hsep2.gaps⟩, ?_⟩
    intro x hx y hy
    have hxgap := hgap1 x hx
    rcases mem_cons.mp hy with rfl | hy
    · exact hxgap
    · have hygap := hgap2 y hy
      omega
  · rw [covers_append, covers_cons, covers_append, hcover1, hcover2]
    have hrng : (⟨s', t'⟩ : Span).Holds n ↔ (s' ≤ n ∧ n < s) ∨ (s ≤ n ∧ n < t) ∨ (t ≤ n ∧ n < t') := by
      unfold Span.Holds
      dsimp only
      omega
    rw [hrng]
    simp only [or_assoc, or_comm, or_left_comm]

end

end Liano.Lib
