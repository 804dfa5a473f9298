import Mathlib.Data.List.Basic

/-! Tables in which the first element with a property is looked for: what replacing and removing it
does to the elements with that property. -/
namespace Liano.Lib

open List

variable {α : Type} {test : α → Bool} {table : List α} {a b : α}

def replaceFirst (test : α → Bool) (a : α) : List α → List α
  | [] => []
  | e :: es => if test e then a :: es else e :: replaceFirst test a es

theorem find?_of_filter {found : Option α} (h : table.filter test = found.toList) :
    table.find? test = found := by
  rw [← head?_filter, h]
  cases found <;> rfl

theorem filter_replaceFirst (h : table.filter test = [a]) (htest : test b = true) :
    (replaceFirst test b table).filter test = [b] := by
  induction table with
  | nil => cases h
  | cons e es ih =>
    rw [replaceFirst]
    by_cases he : test e = true
    · rw [filter_cons_of_pos he] at h
      rw [if_pos he, filter_cons_of_pos htest, (cons.inj h).2]
    · rw [filter_cons_of_neg he] at h
      rw [if_neg he, filter_cons_of_neg he]
      exact ih h

theorem filter_eraseP (h : table.filter test = [a]) : (table.eraseP test).filter test = [] := by
  induction table with
  | nil => rfl
  | cons e es ih =>
    by_cases he : test e = true
    · rw [filter_cons_of_pos he] at h
      rw [eraseP_cons_of_pos he, (cons.inj h).2]
    · rw [filter_cons_of_neg he] at h
      rw [eraseP_cons_of_neg he, filter_cons_of_neg he]
      exact ih h

end Liano.Lib
