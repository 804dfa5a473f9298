import Mathlib.Data.List.Range
import Mathlib.Data.Nat.ModEq
import Mathlib.Logic.Function.Basic

/-! Rings of slots under free-running counters. A counter runs through the naturals, the machine keeps it
modulo the width of its register, and the slot of a counter is its value modulo the number of slots. -/
namespace Liano.Lib.Ring

open Function (update)
open List

variable {α : Type*} {slots width a b i j : Nat}

theorem slot_register (h : slots ∣ width) (i : Nat) : i % width % slots = i % slots := Nat.mod_mod_of_dvd i h

theorem slot_ne (hlt : i < j) (h : j < i+slots) : i % slots ≠ j % slots := by
  intro heq
  obtain ⟨k,hk⟩ : slots ∣ j - i := (Nat.modEq_iff_dvd' hlt.le).mp heq
  cases k with
  | zero => omega
  | succ k =>
    have : slots ≤ slots * (k+1) := Nat.le_mul_of_pos_right _ (Nat.succ_pos k)
    omega

def distance (width a b : Nat) : Nat := (a % width + (width - b % width)) % width

theorem distance_eq (hle : b ≤ a) (h : a < b+width) : distance width a b = a-b := by
  have hw : 0 < width := by omega
  have hb : b % width < width := Nat.mod_lt _ hw
  have hsum : (a-b) + b = a := Nat.sub_add_cancel hle
  have hmod : a % width = ((a-b) + b % width) % width := by
    conv_lhs => rw [← hsum]
    rw [Nat.add_mod, Nat.add_mod (a-b), Nat.mod_mod]
  have hlt : a-b < width := by omega
  rw [distance, hmod]
  rcases lt_or_ge ((a - b) + b % width) width with hfits | hwraps
  · rw [Nat.mod_eq_of_lt hfits]
    have hback : a-b + b % width + (width - b % width) = a-b + width := by omega
    rw [hback, Nat.add_mod_right, Nat.mod_eq_of_lt hlt]
  · rw [Nat.mod_eq_sub_mod hwraps, Nat.mod_eq_of_lt (show a-b + b % width - width < width by omega)]
    have hback : a-b + b % width - width + (width - b % width) = a-b := by omega
    rw [hback, Nat.mod_eq_of_lt hlt]

/-- Registers agree exactly where the counters do, while these are less than a width apart. -/
theorem register_eq_iff (hle : b ≤ a) (h : a < b+width) : a % width = b % width ↔ a = b := by
  constructor
  · intro heq
    by_contra hne
    exact slot_ne (by omega) h heq.symm
  · rintro rfl
    rfl

/-- The values in the slots of `n` counters from `start` on. -/
def window (slots : Nat) (ring : Nat → α) (start n : Nat) : List α :=
  (range n).map fun i => ring ((start+i) % slots)

variable {ring : Nat → α} {start n k : Nat} {x : α}

@[simp] theorem length_window : (window slots ring start n).length = n := by simp [window]

theorem window_add : window slots ring start (n+k) =
    window slots ring start n ++ window slots ring (start+n) k := by
  simp only [window, range_add, map_append, map_map]
  congr 1
  apply map_congr_left
  intro i _
  simp only [Function.comp_apply, add_assoc]

theorem window_one : window slots ring start 1 = [ring (start % slots)] := by simp [window]

theorem window_succ : window slots ring start (n+1) =
    window slots ring start n ++ [ring ((start+n) % slots)] := by rw [window_add, window_one]

theorem window_update (hlo : start+n ≤ j) (hhi : j < start+slots) :
    window slots (update ring (j % slots) x) start n = window slots ring start n := by
  apply map_congr_left
  intro i hi
  have hlt : i < n := mem_range.mp hi
  exact Function.update_of_ne (slot_ne (by omega) (by omega)) _ _

theorem window_update_next (h : n < slots) : window slots (update ring ((start+n) % slots) x) start (n+1) =
      window slots ring start n ++ [x] := by
  rw [window_succ, window_update (le_refl _) (by omega), Function.update_self]

theorem slot_linear (h : start % slots + n ≤ slots) (hi : i < n) : start % slots + i = (start+i) % slots := by
  have hlt : start % slots + i < slots := by omega
  calc start % slots + i
      _ = (start % slots + i) % slots := (Nat.mod_eq_of_lt hlt).symm
      _ = (start+i) % slots := Nat.mod_add_mod _ _ _

def fill (slots : Nat) (ring : Nat → α) (start : Nat) : List α → Nat → α
  | [] => ring
  | x :: xs => fill slots (update ring (start % slots) x) (start+1) xs

variable {xs : List α}

theorem window_fill (hlo : start+n ≤ j) (hhi : j+xs.length ≤ start+slots) :
    window slots (fill slots ring j xs) start n = window slots ring start n := by
  induction xs generalizing ring j with
  | nil => rfl
  | cons x xs ih =>
    rw [length_cons] at hhi
    rw [fill, ih (by omega) (by omega), window_update hlo (by omega)]

theorem window_fill_self (h : xs.length ≤ slots) :
    window slots (fill slots ring start xs) start xs.length = xs := by
  induction xs generalizing ring start with
  | nil => rfl
  | cons x xs ih =>
    rw [length_cons] at h ⊢
    have hhead : fill slots (update ring (start % slots) x) (start+1) xs (start % slots) = x := by
      have hkeep : window slots (fill slots (update ring (start % slots) x) (start+1) xs) start 1 =
          window slots (update ring (start % slots) x) start 1 := window_fill le_rfl (by omega)
      simpa [window_one] using hkeep
    rw [add_comm, window_add, window_one, fill, hhead, ih (by omega)]
    rfl

theorem window_congr (h : i % slots = j % slots) : window slots ring i n = window slots ring j n := by
  apply map_congr_left
  intro k _
  rw [← Nat.mod_add_mod, h, Nat.mod_add_mod]

theorem fill_congr (h : i % slots = j % slots) : fill slots ring i xs = fill slots ring j xs := by
  induction xs generalizing ring i j with
  | nil => rfl
  | cons x xs ih =>
    have hnext : (i+1) % slots = (j+1) % slots := by rw [← Nat.mod_add_mod, h, Nat.mod_add_mod]
    rw [fill, fill, h, ih hnext]

/-! ## A stream carried by a ring

The sender has put `sent` into the ring and the receiver has taken `received` out of it. Both counters start
at the same arbitrary value. -/

structure Carries (slots width : Nat) (ring : Nat → α) (prod cons base : Nat) (sent received : List α) :
    Prop where
  prod_eq : prod = (base+sent.length) % width
  cons_eq : cons = (base+received.length) % width
  conserved : sent = received ++ window slots ring (base+received.length) (sent.length-received.length)
  room : sent.length ≤ received.length+slots

namespace Carries

variable {prod cons base : Nat} {sent received : List α}

theorem initial (h : base < width) : Carries slots width ring base base base [] [] where
  prod_eq := (Nat.mod_eq_of_lt h).symm
  cons_eq := (Nat.mod_eq_of_lt h).symm
  conserved := rfl
  room := Nat.zero_le _

section
variable (h : Carries slots width ring prod cons base sent received)
include h

theorem received_prefix : received <+: sent := ⟨_, h.conserved.symm⟩

theorem length_le : received.length ≤ sent.length := h.received_prefix.length_le

theorem write (x : α) (hlo : base+sent.length ≤ j) (hhi : j < base+received.length+slots) :
    Carries slots width (update ring (j % slots) x) prod cons base sent received where
  prod_eq := h.prod_eq
  cons_eq := h.cons_eq
  conserved := by
    have hle := h.length_le
    rw [window_update (by omega) (by omega)]
    exact h.conserved
  room := h.room

theorem publish
    (hxs : window slots ring (base+sent.length) xs.length = xs)
    (hroom : sent.length+xs.length ≤ received.length+slots) :
    Carries slots width ring ((prod+xs.length) % width) cons base (sent ++ xs) received where
  prod_eq := by rw [h.prod_eq, Nat.mod_add_mod, length_append, add_assoc]
  cons_eq := h.cons_eq
  conserved := by
    have hle := h.length_le
    have hlen : (sent ++ xs).length - received.length = (sent.length-received.length) + xs.length := by
      rw [length_append]
      omega
    have hend : base+received.length + (sent.length-received.length) = base+sent.length := by omega
    rw [hlen, window_add, hend, hxs, ← append_assoc, ← h.conserved]
  room := by
    rw [length_append]
    exact hroom

theorem send
    (hroom : sent.length+xs.length ≤ received.length+slots) :
    Carries slots width (fill slots ring (base+sent.length) xs) ((prod+xs.length) % width) cons base
      (sent ++ xs) received := by
  have hle := h.length_le
  apply publish ?_ (window_fill_self (by omega)) hroom
  refine ⟨h.prod_eq, h.cons_eq, ?_, h.room⟩
  rw [window_fill (by omega) (by omega)]
  exact h.conserved

theorem receive
    (hn : n ≤ sent.length-received.length) : Carries slots width ring prod ((cons+n) % width) base sent
      (received ++ window slots ring (base+received.length) n) where
  prod_eq := h.prod_eq
  cons_eq := by rw [h.cons_eq, Nat.mod_add_mod, length_append, length_window, add_assoc]
  conserved := by
    obtain ⟨k,hk⟩ := Nat.exists_eq_add_of_le hn
    have hrest : sent.length - (received ++ window slots ring (base+received.length) n).length = k := by
      rw [length_append, length_window]
      omega
    have hconserved := h.conserved
    rw [hk, window_add, ← append_assoc] at hconserved
    rw [hrest, length_append, length_window, ← add_assoc]
    exact hconserved
  room := by
    have := h.room
    rw [length_append, length_window]
    omega

end

end Carries

end Liano.Lib.Ring
