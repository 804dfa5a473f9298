import Mathlib.Init

/-! Loops over a list whose rounds may end the program. -/
namespace Liano.Loop

open List

variable {α β ε : Type*} {f : β → α → Except ε β} {l : List α}

theorem foldlM_ok (h : ∀ a ∈ l, ∀ b, ∃ b', f b a = .ok b') (b : β) : ∃ b', l.foldlM f b = .ok b' := by
  induction l generalizing b with
  | nil => exact ⟨b, rfl⟩
  | cons a l ih =>
    obtain ⟨b',hb'⟩ := h a mem_cons_self b
    rw [foldlM_cons, hb']
    exact ih (fun a' ha' => h a' (mem_cons_of_mem a ha')) b'

theorem foldlM_error {a : α} (ha : a ∈ l) (h : ∀ b, ∃ e, f b a = .error e) (b : β) :
    ∃ e, l.foldlM f b = .error e := by
  induction l generalizing b with
  | nil => cases ha
  | cons a' l ih =>
    rw [foldlM_cons]
    cases hb : f b a' with
    | error e => exact ⟨e, rfl⟩
    | ok b' =>
      rcases mem_cons.mp ha with rfl | hmem
      · obtain ⟨e,he⟩ := h b
        rw [hb] at he
        cases he
      · exact ih hmem b'

end Liano.Loop
