import Mathlib.Data.List.Basic

/-! Lists of segments that tile a range of numbers, and the value that such a list gives each
number. -/
namespace Liano.Lib

/-- The numbers from `baseAddress` to `endAddress`, with a value. -/
structure Segment (α : Type) where
  baseAddress : Nat
  endAddress : Nat
  value : α
deriving DecidableEq, Repr

variable {α : Type}

def Segment.Holds (e : Segment α) (x : Nat) : Prop := e.baseAddress ≤ x ∧ x ≤ e.endAddress

instance (e : Segment α) (x : Nat) : Decidable (e.Holds x) := inferInstanceAs (Decidable (_ ∧ _))

/-- The segments are non-empty and follow each other from `a` up to `b`, exclusively. -/
def Tiles (a : Nat) : List (Segment α) → Nat → Prop
  | [], b => a = b
  | e :: es, b => e.baseAddress = a ∧ e.baseAddress ≤ e.endAddress ∧ Tiles (e.endAddress+1) es b

def lookup : List (Segment α) → Nat → Option α
  | [], _ => none
  | e :: es, x => if e.Holds x then some e.value else lookup es x

section
variable {a b c x : Nat} {e f : Segment α} {xs ys zs : List (Segment α)}

theorem Tiles.le (h : Tiles a xs b) : a ≤ b := by
  induction xs generalizing a with
  | nil => exact Nat.le_of_eq h
  | cons e xs ih =>
    have h1 := ih h.2.2
    have h2 := h.2.1
    rw [h.1] at h2
    omega

theorem tiles_append : Tiles a (xs ++ ys) c ↔ ∃ b, Tiles a xs b ∧ Tiles b ys c := by
  induction xs generalizing a with
  | nil =>
    constructor
    · intro h
      exact ⟨a, rfl, h⟩
    · intro h
      obtain ⟨b,rfl,h⟩ := h
      exact h
  | cons e xs ih =>
    rw [List.cons_append, Tiles, ih]
    constructor
    · intro h
      obtain ⟨h1,h2,b,h3,h4⟩ := h
      exact ⟨b, ⟨h1, h2, h3⟩, h4⟩
    · intro h
      obtain ⟨b,⟨h1,h2,h3⟩,h4⟩ := h
      exact ⟨h1, h2, b, h3, h4⟩

theorem lookup_append : lookup (xs ++ ys) x = (lookup xs x).or (lookup ys x) := by
  induction xs with
  | nil => rfl
  | cons e xs ih =>
    rw [List.cons_append, lookup, lookup, ih]
    split <;> rfl

theorem lookup_eq_none_of_lt (h : Tiles a xs b) (hx : x < a) : lookup xs x = none := by
  induction xs generalizing a with
  | nil => rfl
  | cons e xs ih =>
    have hle := h.2.1
    have hbase := h.1
    rw [lookup, if_neg, ih h.2.2 (by omega)]
    intro hin
    have := hin.1
    omega

theorem lookup_eq_none_of_le (h : Tiles a xs b) (hx : b ≤ x) : lookup xs x = none := by
  induction xs generalizing a with
  | nil => rfl
  | cons e xs ih =>
    have hle := h.2.2.le
    rw [lookup, if_neg, ih h.2.2]
    intro hin
    have := hin.2
    omega

theorem mem_of_lookup {v : α} (h : lookup xs x = some v) : ∃ e ∈ xs, e.Holds x ∧ e.value = v := by
  induction xs with
  | nil => cases h
  | cons e xs ih =>
    rw [lookup] at h
    by_cases hin : e.Holds x
    · rw [if_pos hin] at h
      exact ⟨e, List.mem_cons_self, hin, Option.some.inj h⟩
    · rw [if_neg hin] at h
      obtain ⟨f,hf,hholds⟩ := ih h
      exact ⟨f, List.mem_cons_of_mem _ hf, hholds⟩

section
variable (h : Tiles a xs b) (he : e ∈ xs)
include h he

theorem Tiles.le_of_mem : a ≤ e.baseAddress := by
  induction xs generalizing a with
  | nil => cases he
  | cons f xs ih =>
    rcases List.mem_cons.mp he with rfl | he
    · exact Nat.le_of_eq h.1.symm
    have hle := ih h.2.2 he
    have h1 := h.1
    have h2 := h.2.1
    omega

theorem Tiles.end_of_mem : e.baseAddress ≤ e.endAddress ∧ e.endAddress < b := by
  obtain ⟨ys,zs,rfl⟩ := List.append_of_mem he
  obtain ⟨c,-,hc⟩ := tiles_append.mp h
  exact ⟨hc.2.1, hc.2.2.le⟩

theorem lookup_of_mem (hx : e.Holds x) : lookup xs x = some e.value := by
  induction xs generalizing a with
  | nil => cases he
  | cons f xs ih =>
    rw [lookup]
    rcases List.mem_cons.mp he with rfl | he
    · rw [if_pos hx]
    have hle := h.2.2.le_of_mem he
    rw [if_neg, ih h.2.2 he]
    intro hin
    have h1 := hin.2
    have h2 := hx.1
    omega

end

theorem Tiles.exists_mem (h : Tiles a xs b) (ha : a ≤ x) (hb : x < b) : ∃ e ∈ xs, e.Holds x := by
  induction xs generalizing a with
  | nil =>
    have hab : a = b := h
    omega
  | cons e xs ih =>
    by_cases hin : x ≤ e.endAddress
    · exact ⟨e, List.mem_cons_self, Nat.le_trans (Nat.le_of_eq h.1) ha, hin⟩
    · obtain ⟨f,hf,hholds⟩ := ih h.2.2 (by omega)
      exact ⟨f, List.mem_cons_of_mem _ hf, hholds⟩

theorem lookup_append_left (hys : Tiles b ys c) (hx : x < b) : lookup (xs ++ ys) x = lookup xs x := by
  rw [lookup_append, lookup_eq_none_of_lt hys hx, Option.or_none]

theorem lookup_append_right (hxs : Tiles a xs b) (hx : b ≤ x) : lookup (xs ++ ys) x = lookup ys x := by
  rw [lookup_append, lookup_eq_none_of_le hxs hx, Option.none_or]

theorem lookup_congr_right (h : ∀ x, lookup ys x = lookup zs x) :
    lookup (xs ++ ys) x = lookup (xs ++ zs) x := by rw [lookup_append, lookup_append, h]

def Segment.join (e f : Segment α) : Segment α := ⟨e.baseAddress, f.endAddress, e.value⟩

theorem tiles_join (h : Tiles a (e :: f :: xs) b) : Tiles a (e.join f :: xs) b := by
  obtain ⟨h1,h2,h3,h4,h5⟩ := h
  refine ⟨h1, ?_, h5⟩
  show e.baseAddress ≤ f.endAddress
  omega

theorem lookup_join (h : Tiles a (e :: f :: xs) b) (hv : e.value = f.value) :
    lookup (e.join f :: xs) x = lookup (e :: f :: xs) x := by
  obtain ⟨-,h2,h3,h4,-⟩ := h
  rw [lookup, lookup, lookup]
  by_cases hjoin : (e.join f).Holds x
  · rw [if_pos hjoin]
    by_cases he : e.Holds x
    · rw [if_pos he]
      rfl
    have hf : f.Holds x := by
      refine ⟨?_, hjoin.2⟩
      by_contra hlt
      exact he ⟨hjoin.1, by omega⟩
    rw [if_neg he, if_pos hf, ← hv]
    rfl
  · have he : ¬ e.Holds x := fun hin => hjoin ⟨hin.1, by
      have := hin.2
      show x ≤ f.endAddress
      omega⟩
    have hf : ¬ f.Holds x := fun hin => hjoin ⟨by
      have := hin.1
      show e.baseAddress ≤ x
      omega, hin.2⟩
    rw [if_neg hjoin, if_neg he, if_neg hf]

theorem tiles_join_append (h : Tiles a (xs ++ e :: f :: ys) b) : Tiles a (xs ++ e.join f :: ys) b := by
  obtain ⟨c,h1,h2⟩ := tiles_append.mp h
  exact tiles_append.mpr ⟨c, h1, tiles_join h2⟩

theorem lookup_join_append (h : Tiles a (xs ++ e :: f :: ys) b) (hv : e.value = f.value) :
    lookup (xs ++ e.join f :: ys) x = lookup (xs ++ e :: f :: ys) x := by
  obtain ⟨c,-,h2⟩ := tiles_append.mp h
  exact lookup_congr_right fun x => lookup_join h2 hv

end

def thread {σ : Type} (change : σ → α → σ × α) : σ → List (Segment α) → List (Segment α)
  | _, [] => []
  | s, e :: es => { e with value := (change s e.value).2 } :: thread change (change s e.value).1 es

theorem tiles_thread {σ : Type} {change : σ → α → σ × α} {s : σ} {xs : List (Segment α)} {a b : Nat}
    (h : Tiles a xs b) : Tiles a (thread change s xs) b := by
  induction xs generalizing a s with
  | nil => exact h
  | cons e xs ih => exact ⟨h.1, h.2.1, ih h.2.2⟩

theorem lookup_thread {σ : Type} {change : σ → α → σ × α} {f : α → α} {s : σ}
    (h : ∀ v, change s v = (s, f v)) (xs : List (Segment α)) (x : Nat) :
    lookup (thread change s xs) x = (lookup xs x).map f := by
  induction xs with
  | nil => rfl
  | cons e xs ih =>
    rw [thread, h, lookup, lookup, ih]
    by_cases hin : e.Holds x
    · rw [if_pos (by exact hin), if_pos hin]
      rfl
    · rw [if_neg (by exact hin), if_neg hin]

end Liano.Lib
