import Mathlib.Data.List.Nodup
import Mathlib.Order.Lattice

/-! Enumeration of a sorted list by a cursor that is found again before each step: `succ x` is the
least element above the place `find x` where `x` is found. The enumeration is complete exactly
when every element is found in its own place and the cursor starts at the first one. -/
namespace Liano.Cursor

open List hiding head?_eq_some_iff lt_of_le_of_lt

/-- The elements visited from `start` on, when the visit comes to an end. -/
inductive Visits {α : Type*} (succ : α → Option α) : Option α → List α → Prop
  | done : Visits succ none []
  | visit {x : α} {l : List α} : Visits succ (succ x) l → Visits succ (some x) (x :: l)

variable {α : Type*} [LinearOrder α] {l : List α} {x y : α}

theorem find?_lt_eq_head? {pre post : List α} (h : (pre ++ x :: post).Pairwise (· < ·)) :
    (pre ++ x :: post).find? (x < ·) = post.head? := by
  have hx := pairwise_cons.mp (pairwise_append.mp h).2.1
  have hpre : ∀ y ∈ pre, y < x := fun y hy => (pairwise_append.mp h).2.2 y hy x mem_cons_self
  have hnone : pre.find? (x < ·) = none := by
    rw [find?_eq_none]
    intro y hy
    simpa using (hpre y hy).le
  rw [find?_append, hnone, Option.none_or, find?_cons_of_neg (by simp)]
  cases post with
  | nil => rfl
  | cons z post => rw [find?_cons_of_pos (by simpa using hx.1 z mem_cons_self), head?_cons]

/-- With some element above `x` in the list, the search finds one, and none below it is above `x`. -/
theorem find?_lt_of_mem (h : l.Pairwise (· < ·)) (hy : y ∈ l) (hxy : x < y) :
    ∃ z ∈ l, l.find? (x < ·) = some z ∧ x < z ∧ z ≤ y := by
  cases hf : l.find? (x < ·) with
  | none => exact absurd hxy (by simpa using find?_eq_none.mp hf y hy)
  | some z =>
    obtain ⟨hz,pre,post,rfl,hpre⟩ := find?_eq_some_iff_append.mp hf
    refine ⟨z, by simp, rfl, by simpa using hz, ?_⟩
    rcases mem_append.mp hy with hmem | hmem
    · exact absurd hxy (by simpa using hpre y hmem)
    · rcases mem_cons.mp hmem with rfl | hmem
      · exact le_refl _
      · exact ((pairwise_cons.mp (pairwise_append.mp h).2.1).1 y hmem).le

theorem head?_eq_some_iff (h : l.Pairwise (· < ·)) (hx : x ∈ l) : l.head? = some x ↔ ∀ y ∈ l, x ≤ y := by
  cases l with
  | nil => cases hx
  | cons z l =>
    have hz := (pairwise_cons.mp h).1
    rw [head?_cons, Option.some_inj]
    constructor
    · rintro rfl y hy
      rcases mem_cons.mp hy with rfl | hy
      · exact le_refl _
      · exact (hz y hy).le
    · intro hle
      rcases mem_cons.mp hx with rfl | hx
      · rfl
      · exact absurd (hle z mem_cons_self) (hz x hx).not_ge

section
variable {L : List α} {find : α → α} {succ : α → Option α}
variable {start : Option α}

section
variable (hL : L.Pairwise (· < ·)) (hfind : ∀ x ∈ L, find x ≤ x)
  (hsucc : ∀ x ∈ L, succ x = L.find? (find x < ·)) (h : Visits succ start l)
include hL hfind hsucc h

theorem mem_of_visits : ∀ x ∈ L, start = some x → ∀ y ∈ L, x ≤ y → y ∈ l := by
  induction h with
  | done =>
    intro x _ hx
    cases hx
  | @visit z l _ ih =>
    rintro x hx ⟨⟩ y hy hle
    rcases eq_or_lt_of_le hle with rfl | hlt
    · exact mem_cons_self
    · obtain ⟨w,hw,hsome,-,hwy⟩ := find?_lt_of_mem hL hy (lt_of_le_of_lt (hfind z hx) hlt)
      exact mem_cons_of_mem _ (ih w hw ((hsucc z hx).trans hsome) y hy hwy)

theorem visits_of_nodup (hl : l.Nodup) : ∀ x ∈ L, start = some x → ∀ y ∈ l, find y = y ∧ x ≤ y := by
  induction h with
  | done =>
    intro x _ hx
    cases hx
  | @visit z l hrest ih =>
    rintro x hx ⟨⟩ y hy
    have hplace : find z = z := by
      refine (hfind z hx).eq_of_not_lt fun hlt => ?_
      obtain ⟨w,hw,hsome,-,hwz⟩ := find?_lt_of_mem hL hx hlt
      exact (nodup_cons.mp hl).1
        (mem_of_visits hL hfind hsucc hrest w hw ((hsucc z hx).trans hsome) z hx hwz)
    rcases mem_cons.mp hy with rfl | hy
    · exact ⟨hplace, le_refl _⟩
    cases hs : succ z with
    | none =>
      rw [hs] at hrest
      cases hrest
      cases hy
    | some w =>
      rw [hsucc z hx, hplace] at hs
      have hzw : z < w := by simpa using find?_some hs
      have := ih (nodup_cons.mp hl).2 w (mem_of_find?_eq_some hs)
        (by rw [hsucc z hx, hplace, hs]) y hy
      exact ⟨this.1, hzw.le.trans this.2⟩

end

theorem visits_of_find_eq (hL : L.Pairwise (· < ·)) (hfind : ∀ x ∈ L, find x = x)
    (hsucc : ∀ x ∈ L, succ x = L.find? (find x < ·)) (pre post : List α)
    (h : L = pre ++ post) : Visits succ post.head? post := by
  induction post generalizing pre with
  | nil => exact .done
  | cons x post ih =>
    have hx : x ∈ L := by rw [h]; exact mem_append_right _ mem_cons_self
    have hnext : succ x = post.head? := by
      rw [hsucc x hx, hfind x hx, h]
      rw [h] at hL
      exact find?_lt_eq_head? hL
    exact .visit (hnext ▸ ih (pre ++ [x]) (by rw [h, append_assoc, singleton_append]))

theorem visits_complete_iff (hL : L.Pairwise (· < ·)) (hmem : ∀ x ∈ L, find x ∈ L)
    (hfind : ∀ x ∈ L, find x ≤ x) (hsucc : ∀ x ∈ L, succ x = L.find? (find x < ·))
    (hstart : ∀ x, start = some x → x ∈ L) (hnone : start = none → L = []) :
    (∃ l, Visits succ start l ∧ l.Nodup ∧ ∀ x, x ∈ l ↔ ∃ y ∈ L, find y = x) ↔
      (∀ x ∈ L, find x = x) ∧ start = L.head? := by
  constructor
  · rintro ⟨l,hv,hnodup,hall⟩
    cases hs : start with
    | none =>
      rw [hnone hs]
      exact ⟨fun x hx => absurd hx not_mem_nil, rfl⟩
    | some s =>
      have hup := visits_of_nodup hL hfind hsucc hv hnodup s (hstart s hs) hs
      have hle : ∀ x ∈ L, s ≤ x := fun x hx => (hup _ ((hall _).mpr ⟨x, hx, rfl⟩)).2.trans (hfind x hx)
      refine ⟨fun x hx => (hup x ?_).1, ?_⟩
      · exact mem_of_visits hL hfind hsucc hv s (hstart s hs) hs x hx (hle x hx)
      · exact ((head?_eq_some_iff hL (hstart s hs)).mpr hle).symm
  · rintro ⟨hid,rfl⟩
    refine ⟨L, visits_of_find_eq hL hid hsucc [] L rfl, hL.imp ne_of_lt, fun x => ?_⟩
    constructor
    · exact fun hx => ⟨x, hx, hid x hx⟩
    · rintro ⟨y,hy,rfl⟩
      exact hmem y hy

end

end Liano.Cursor
