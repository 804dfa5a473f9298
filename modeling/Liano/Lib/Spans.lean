import Mathlib.Algebra.Order.Group.Nat
import Mathlib.Data.List.Basic
import Mathlib.Data.List.TakeDrop
import Mathlib.Data.List.TakeWhile

/-! Lists of half-open spans of numbers, in order and without an overlap, and the numbers that such a
list covers. The spans are given by a function of the elements. -/
namespace Liano.Lib

open List hiding span

/-- The numbers from `start` on, below `stop`. -/
structure Span where
  start : Nat
  stop : Nat
deriving DecidableEq, Repr

def Span.length (s : Span) : Nat := s.stop-s.start

def Span.Holds (s : Span) (x : Nat) : Prop := s.start ≤ x ∧ x < s.stop

instance Span.decidableHolds (s : Span) (x : Nat) : Decidable (s.Holds x) :=
  inferInstanceAs (Decidable (_ ∧ _))

variable {α : Type} {span : α → Span}

/-- The spans are non-empty, in order and disjoint, between `a` and `b`. -/
def InOrder (span : α → Span) : Nat → List α → Nat → Prop
  | a, [], b => a ≤ b
  | a, x :: xs, b =>
    a ≤ (span x).start ∧ (span x).start < (span x).stop ∧ InOrder span (span x).stop xs b

/-- The spans are in order and disjoint, between `a` and `b`; some may be empty. -/
def Ordered (span : α → Span) : Nat → List α → Nat → Prop
  | a, [], b => a ≤ b
  | a, x :: xs, b =>
    a ≤ (span x).start ∧ (span x).start ≤ (span x).stop ∧ Ordered span (span x).stop xs b

/-- The spans follow each other from `a` up to `b`. -/
def Fills (span : α → Span) : Nat → List α → Nat → Prop
  | a, [], b => a = b
  | a, x :: xs, b => a = (span x).start ∧ Fills span (span x).stop xs b

def spansLength (span : α → Span) : List α → Nat
  | [] => 0
  | x :: xs => (span x).length + spansLength span xs

def Covered (span : α → Span) (l : List α) (x : Nat) : Prop := ∃ y ∈ l, (span y).Holds x

section
variable {a b c n : Nat} {x y : α} {xs ys zs : List α}

theorem spansLength_cons : spansLength span (x :: xs) = (span x).length + spansLength span xs := rfl

theorem spansLength_append : spansLength span (xs ++ ys) = spansLength span xs + spansLength span ys := by
  induction xs with
  | nil => exact (zero_add _).symm
  | cons x xs ih => rw [cons_append, spansLength_cons, spansLength_cons, ih, add_assoc]

theorem covered_nil : ¬ Covered span [] n := by
  rintro ⟨y,hy,-⟩
  cases hy

theorem covered_cons : Covered span (x :: xs) n ↔ (span x).Holds n ∨ Covered span xs n := by
  unfold Covered
  simp only [mem_cons, or_and_right, exists_or, exists_eq_left]

theorem covered_append : Covered span (xs ++ ys) n ↔ Covered span xs n ∨ Covered span ys n := by
  unfold Covered
  simp only [mem_append, or_and_right, exists_or]

theorem Ordered.le (h : Ordered span a xs b) : a ≤ b := by
  induction xs generalizing a with
  | nil => exact h
  | cons x xs ih => exact le_trans h.1 (le_trans h.2.1 (ih h.2.2))

theorem ordered_append : Ordered span a (xs ++ ys) b ↔ ∃ c, Ordered span a xs c ∧ Ordered span c ys b := by
  induction xs generalizing a with
  | nil =>
    constructor
    · intro h
      exact ⟨a, le_rfl, h⟩
    · rintro ⟨c,hac,h⟩
      cases ys with
      | nil => exact le_trans hac h
      | cons y ys => exact ⟨le_trans hac h.1, h.2⟩
  | cons x xs ih =>
    rw [cons_append, Ordered, ih]
    constructor
    · rintro ⟨h1,h2,c,h3,h4⟩
      exact ⟨c, ⟨h1, h2, h3⟩, h4⟩
    · rintro ⟨c,⟨h1,h2,h3⟩,h4⟩
      exact ⟨h1, h2, c, h3, h4⟩

theorem Ordered.bounds (h : Ordered span a xs b) (hx : x ∈ xs) :
    a ≤ (span x).start ∧ (span x).start ≤ (span x).stop ∧ (span x).stop ≤ b := by
  induction xs generalizing a with
  | nil => cases hx
  | cons y xs ih =>
    obtain ⟨h1,h2,h3⟩ := h
    rcases mem_cons.mp hx with rfl | hx
    · exact ⟨h1, h2, h3.le⟩
    · have hrest := ih h3 hx
      exact ⟨le_trans h1 (le_trans h2 hrest.1), hrest.2⟩

/-- In order are the non-empty spans that are ordered. -/
theorem inOrder_iff :
    InOrder span a xs b ↔ Ordered span a xs b ∧ ∀ x ∈ xs, (span x).start < (span x).stop := by
  induction xs generalizing a with
  | nil => simp only [InOrder, Ordered, not_mem_nil, false_implies, implies_true, and_true]
  | cons x xs ih =>
    rw [InOrder, Ordered, ih, forall_mem_cons]
    exact ⟨fun h => ⟨⟨h.1, le_of_lt h.2.1, h.2.2.1⟩, h.2.1, h.2.2.2⟩, fun h => ⟨h.1.1, h.2.1, h.1.2.2, h.2.2⟩⟩

theorem InOrder.ordered (h : InOrder span a xs b) : Ordered span a xs b := (inOrder_iff.mp h).1

theorem InOrder.le (h : InOrder span a xs b) : a ≤ b := h.ordered.le

theorem inOrder_append : InOrder span a (xs ++ ys) b ↔ ∃ c, InOrder span a xs c ∧ InOrder span c ys b := by
  simp only [inOrder_iff, ordered_append, forall_mem_append]
  constructor
  · rintro ⟨⟨c,hxs,hys⟩,hxlt,hylt⟩
    exact ⟨c, ⟨hxs, hxlt⟩, hys, hylt⟩
  · rintro ⟨c,⟨hxs,hxlt⟩,hys,hylt⟩
    exact ⟨⟨c, hxs, hys⟩, hxlt, hylt⟩

theorem InOrder.mono_left (h : InOrder span b xs c) (hab : a ≤ b) : InOrder span a xs c := by
  cases xs with
  | nil => exact le_trans hab h
  | cons x xs => exact ⟨le_trans hab h.1, h.2⟩

section
variable (h : InOrder span a xs b)
include h

theorem InOrder.mono_right (hbc : b ≤ c) : InOrder span a xs c := by
  induction xs generalizing a with
  | nil => exact le_trans h hbc
  | cons x xs ih => exact ⟨h.1, h.2.1, ih h.2.2⟩

theorem InOrder.bounds (hx : x ∈ xs) :
    a ≤ (span x).start ∧ (span x).start < (span x).stop ∧ (span x).stop ≤ b :=
  ⟨(h.ordered.bounds hx).1, (inOrder_iff.mp h).2 x hx, (h.ordered.bounds hx).2.2⟩

theorem InOrder.covered (hn : Covered span xs n) : a ≤ n ∧ n < b := by
  obtain ⟨y,hy,hstart,hstop⟩ := hn
  have hbds := h.bounds hy
  omega

theorem InOrder.eq_of_holds (hx : x ∈ xs) (hy : y ∈ xs)
    (hxn : (span x).Holds n) (hyn : (span y).Holds n) : x = y := by
  induction xs generalizing a with
  | nil => cases hx
  | cons z xs ih =>
    obtain ⟨-,-,hrest⟩ := h
    have hbeh : ∀ w ∈ xs, (span w).Holds n → ¬ (span z).Holds n := by
      intro w hw hwn hzn
      have hle := (hrest.covered ⟨w, hw, hwn⟩).1
      exact not_lt.mpr hle hzn.2
    rcases mem_cons.mp hx with rfl | hx'
    · rcases mem_cons.mp hy with rfl | hy'
      · rfl
      · exact absurd hxn (hbeh y hy' hyn)
    · rcases mem_cons.mp hy with rfl | hy'
      · exact absurd hyn (hbeh x hx' hxn)
      · exact ih hrest hx' hy'

end

/-- Where the last span of a list stops, and `a` for the empty list. -/
def lastStop (span : α → Span) (a : Nat) (xs : List α) : Nat :=
  (xs.getLast?.map fun x => (span x).stop).getD a

theorem lastStop_cons : lastStop span a (x :: xs) = lastStop span (span x).stop xs := by
  unfold lastStop
  cases xs with
  | nil => rfl
  | cons y ys =>
    rw [getLast?_cons_cons]
    cases h : (y :: ys).getLast? with
    | none => exact absurd (getLast?_eq_none_iff.mp h) (cons_ne_nil y ys)
    | some z => rfl

theorem lastStop_cases (span : α → Span) (a : Nat) (xs : List α) :
    lastStop span a xs = a ∨ ∃ x ∈ xs, lastStop span a xs = (span x).stop := by
  unfold lastStop
  cases h : xs.getLast? with
  | none => exact .inl rfl
  | some x => exact .inr ⟨x, mem_of_getLast? h, rfl⟩

theorem Ordered.cut (h : Ordered span a (xs ++ ys) b) :
    Ordered span a xs (lastStop span a xs) ∧ Ordered span (lastStop span a xs) ys b := by
  induction xs generalizing a with
  | nil => exact ⟨le_rfl, h⟩
  | cons x xs ih =>
    obtain ⟨h1,h2,h3⟩ := h
    obtain ⟨h4,h5⟩ := ih h3
    rw [lastStop_cons]
    exact ⟨⟨h1, h2, h4⟩, h5⟩

theorem InOrder.cut (h : InOrder span a (xs ++ ys) b) :
    InOrder span a xs (lastStop span a xs) ∧ InOrder span (lastStop span a xs) ys b := by
  have hcut := h.ordered.cut
  simp only [inOrder_iff, forall_mem_append] at h ⊢
  exact ⟨⟨hcut.1, h.2.1⟩, hcut.2, h.2.2⟩

/-- The length is at most that of the range, and that of the range where nothing is left out. -/
theorem Ordered.length_le (h : Ordered span a xs b) : a + spansLength span xs ≤ b := by
  induction xs generalizing a with
  | nil => exact h
  | cons x xs ih =>
    obtain ⟨h1,h2,h3⟩ := h
    have hle := ih h3
    rw [spansLength_cons, Span.length]
    omega

theorem Ordered.fills_iff (h : Ordered span a xs b) : Fills span a xs b ↔ a + spansLength span xs = b := by
  induction xs generalizing a with
  | nil => exact Iff.rfl
  | cons x xs ih =>
    obtain ⟨h1,h2,h3⟩ := h
    have hle := h3.length_le
    rw [Fills, ih h3, spansLength_cons, Span.length]
    omega

theorem InOrder.length_le (h : InOrder span a xs b) : a + spansLength span xs ≤ b := h.ordered.length_le

theorem InOrder.fills_iff (h : InOrder span a xs b) :
    Fills span a xs b ↔ a + spansLength span xs = b := h.ordered.fills_iff

theorem Fills.covered (h : Fills span a xs b) (ha : a ≤ n) (hb : n < b) : Covered span xs n := by
  induction xs generalizing a with
  | nil =>
    have : a = b := h
    omega
  | cons x xs ih =>
    obtain ⟨rfl,hrest⟩ := h
    rw [covered_cons]
    by_cases hx : n < (span x).stop
    · exact .inl ⟨ha, hx⟩
    · exact .inr (ih hrest (Nat.le_of_not_lt hx))

theorem Fills.lastStop_eq (h : Fills span a xs b) : lastStop span a xs = b := by
  induction xs generalizing a with
  | nil => exact h
  | cons x xs ih => exact lastStop_cons.trans (ih h.2)

theorem InOrder.fills_of_covered (h : InOrder span a xs b)
    (hcov : ∀ n, a ≤ n → n < b → Covered span xs n) : Fills span a xs b := by
  induction xs generalizing a with
  | nil =>
    by_contra hne
    have hlt : a < b := Nat.lt_of_le_of_ne h hne
    exact covered_nil (hcov a le_rfl hlt)
  | cons x xs ih =>
    obtain ⟨h1,h2,h3⟩ := h
    have hle := h3.le
    have hstart : a = (span x).start := by
      by_contra hne
      rcases covered_cons.mp (hcov a le_rfl (by omega)) with hx | hx
      · have hge := hx.1
        omega
      · have hge := (h3.covered hx).1
        omega
    refine ⟨hstart, ih h3 fun n hn hnb => ?_⟩
    rcases covered_cons.mp (hcov n (by omega) hnb) with hx | hx
    · have hlt := hx.2
      omega
    · exact hx

theorem InOrder.length_eq_iff (h : InOrder span a xs b) :
    a + spansLength span xs = b ↔ ∀ n, a ≤ n → n < b → Covered span xs n := by
  rw [← h.fills_iff]
  exact ⟨fun hfills n => hfills.covered, h.fills_of_covered⟩

def sliceOf {β : Type} (p : List β) (s : Span) : List β := (p.drop s.start).take s.length

theorem length_sliceOf {β : Type} {p : List β} {s : Span} (h : s.stop ≤ p.length) :
    (sliceOf p s).length = s.length := by
  unfold sliceOf Span.length
  rw [length_take, length_drop]
  omega

theorem Fills.flatMap_sliceOf {β : Type} {p : List β} {f : α → List β} (h : Fills span a xs b)
    (hle : Ordered span a xs b) (hf : ∀ x ∈ xs, f x = sliceOf p (span x)) :
    xs.flatMap f = sliceOf p ⟨a, b⟩ := by
  induction xs generalizing a with
  | nil =>
    obtain rfl : a = b := h
    unfold sliceOf Span.length
    rw [Nat.sub_self, take_zero]
    rfl
  | cons x xs ih =>
    obtain ⟨rfl,hrest⟩ := h
    obtain ⟨-,hlt,hord⟩ := hle
    have hb := hord.le
    rw [flatMap_cons, hf x mem_cons_self, ih hrest hord fun y hy => hf y (mem_cons_of_mem _ hy)]
    unfold sliceOf Span.length
    dsimp only
    have hsum : b - (span x).start = ((span x).stop - (span x).start) + (b - (span x).stop) := by omega
    rw [hsum, take_add, drop_drop]
    congr 3
    omega

/-- A list taken apart in front of the first element that starts behind a number. -/
theorem span_start (key : α → Nat) (start : Nat) (l : List α) :
    (l.span fun x => !decide (start < key x)).1 ++ (l.span fun x => !decide (start < key x)).2 = l ∧
      (∀ x ∈ (l.span fun x => !decide (start < key x)).1, key x ≤ start) ∧
      ∀ x, (l.span fun x => !decide (start < key x)).2.head? = some x → start < key x := by
  rw [span_eq_takeWhile_dropWhile]
  refine ⟨takeWhile_append_dropWhile, fun x hx => ?_, fun x hx => ?_⟩
  · have hp := mem_takeWhile_imp hx
    rw [Bool.not_eq_true', decide_eq_false_iff_not] at hp
    exact Nat.le_of_not_lt hp
  · have hp := head?_dropWhile_not (fun x => !decide (start < key x)) l
    rw [hx] at hp
    dsimp only at hp
    rw [Bool.not_eq_false', decide_eq_true_eq] at hp
    exact hp

end

end Liano.Lib
