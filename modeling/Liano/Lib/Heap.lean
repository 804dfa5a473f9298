import Mathlib.Algebra.Order.Group.Multiset
import Mathlib.Data.Multiset.Basic
import Mathlib.Data.Multiset.Filter
import Mathlib.Tactic.Abel

/-! A heap of cells, each at its own address. A command reads, changes, allocates or frees one
cell and fails on an address that is not there; its rule says what it does to a heap split into
that cell and the rest. -/
namespace Liano

open List hiding modify

structure Heap (α : Type*) where
  cells : List (Nat × α)
  nodup : (cells.map Prod.fst).Nodup

namespace Heap

variable {α : Type*}

def empty : Heap α := ⟨[], nodup_nil⟩

def bag (h : Heap α) : Multiset (Nat × α) := h.cells

def read (h : Heap α) (a : Nat) : Option α := (h.cells.find? (·.1 == a)).map Prod.snd

theorem nodup_modify {cells : List (Nat × α)} (hn : (cells.map Prod.fst).Nodup) (a : Nat)
    (f : α → α) : ((cells.map fun p => if p.1 = a then (p.1, f p.2) else p).map Prod.fst).Nodup := by
  have he : (Prod.fst ∘ fun p : Nat × α => if p.1 = a then (p.1, f p.2) else p) = Prod.fst := by
    funext p
    simp only [Function.comp]
    split <;> rfl
  rw [map_map, he]
  exact hn

/-- Change the cell at `a`. -/
def modify (h : Heap α) (a : Nat) (f : α → α) : Option (Heap α) := if a ∈ h.cells.map Prod.fst then
    some ⟨h.cells.map fun p => if p.1 = a then (p.1, f p.2) else p, nodup_modify h.nodup a f⟩
  else none

def alloc (h : Heap α) (a : Nat) (x : α) : Option (Heap α) := if ha : a ∈ h.cells.map Prod.fst then none
  else some ⟨(a,x) :: h.cells, nodup_cons.mpr ⟨ha, h.nodup⟩⟩

def free (h : Heap α) (a : Nat) : Option (Heap α) := if a ∈ h.cells.map Prod.fst then
    some ⟨h.cells.filter (·.1 ≠ a), h.nodup.sublist (filter_sublist.map _)⟩
  else none

variable {h : Heap α} {a : Nat} {x : α} {s : Multiset (Nat × α)}

theorem mem_addresses (hb : h.bag = {(a,x)} + s) : a ∈ h.cells.map Prod.fst := by
  have hm : (a,x) ∈ h.bag := by simp [hb]
  exact mem_map_of_mem hm

theorem ne_of_bag (hb : h.bag = {(a,x)} + s) {p : Nat × α} (hp : p ∈ s) : p.1 ≠ a := by
  have hn : (h.bag.map Prod.fst).Nodup := h.nodup
  rw [hb, Multiset.map_add, Multiset.map_singleton, Multiset.singleton_add, Multiset.nodup_cons] at hn
  intro he
  have hm := Multiset.mem_map_of_mem Prod.fst hp
  rw [he] at hm
  exact hn.1 hm

theorem read_of_bag (hb : h.bag = {(a,x)} + s) : h.read a = some x := by
  have hm : (a,x) ∈ h.cells := by
    have : (a,x) ∈ h.bag := by simp [hb]
    exact this
  cases hf : h.cells.find? (·.1 == a) with
  | none =>
    have := find?_eq_none.mp hf (a,x) hm
    simp at this
  | some p =>
    have hp : p.1 = a := by simpa using find?_some hf
    have hpm : p ∈ h.cells := mem_of_find?_eq_some hf
    have he : p = (a,x) := inj_on_of_nodup_map h.nodup hpm hm hp
    simp [read, hf, he]

theorem mem_bag_of_read (hr : h.read a = some x) : (a,x) ∈ h.bag := by
  simp only [read, Option.map_eq_some_iff] at hr
  obtain ⟨p,hf,rfl⟩ := hr
  have hp : p.1 = a := by simpa using find?_some hf
  exact hp ▸ mem_of_find?_eq_some hf

theorem modify_of_bag (hb : h.bag = {(a,x)} + s) (f : α → α) :
    ∃ h', h.modify a f = some h' ∧ h'.bag = {(a, f x)} + s := by
  refine ⟨_, if_pos (mem_addresses hb), ?_⟩
  change Multiset.map _ h.bag = _
  rw [hb, Multiset.map_add, Multiset.map_singleton, if_pos rfl]
  rw [Multiset.map_congr rfl fun p hp => if_neg (ne_of_bag hb hp), Multiset.map_id']

theorem alloc_of_bag (ha : h.read a = none) (x : α) :
    ∃ h', h.alloc a x = some h' ∧ h'.bag = {(a,x)} + h.bag := by
  have hn : a ∉ h.cells.map Prod.fst := by
    intro hm
    obtain ⟨p,hp,rfl⟩ := mem_map.mp hm
    have hnone := find?_eq_none.mp (Option.map_eq_none_iff.mp ha) p hp
    exact hnone (beq_self_eq_true _)
  exact ⟨_, dif_neg hn, rfl⟩

theorem free_of_bag (hb : h.bag = {(a,x)} + s) : ∃ h', h.free a = some h' ∧ h'.bag = s := by
  refine ⟨_, if_pos (mem_addresses hb), ?_⟩
  change Multiset.filter _ h.bag = _
  rw [hb, Multiset.filter_add, Multiset.filter_singleton]
  simp only [ne_eq, not_true, if_false]
  rw [Multiset.filter_eq_self.mpr fun p hp => ne_of_bag hb hp]
  exact zero_add s

end Heap
end Liano
