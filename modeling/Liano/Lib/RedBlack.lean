import Mathlib.Data.List.Basic
import Mathlib.Data.Multiset.Basic

/-! Red-black trees with a hole: balance of a tree, of a context around a subtree, and what
recolouring and rotating at the hole do to balance and to the in-order sequence. A node is seen
from a side, so that a fact and its mirror image are one lemma. -/
namespace Liano.RedBlack

inductive Color
  | red
  | black
deriving DecidableEq, Repr

inductive Side
  | left
  | right
deriving DecidableEq, Repr

def Side.other : Side → Side
  | left => right
  | right => left

@[simp] theorem Side.other_other (s : Side) : s.other.other = s := by cases s <;> rfl

@[simp] theorem Side.other_ne (s : Side) : s.other ≠ s := by cases s <;> simp [Side.other]

theorem Side.eq_or_eq_other (s s' : Side) : s' = s ∨ s' = s.other := by
  cases s <;> cases s' <;> simp [Side.other]

inductive RbTree (α : Type*)
  | nil
  | node (c : Color) (l : RbTree α) (x : α) (r : RbTree α)
deriving DecidableEq, Repr

inductive Context (α : Type*)
  | top
  | step (s : Side) (c : Color) (x : α) (other : RbTree α) (up : Context α)

variable {α : Type*}

def Color.height : Color → Nat
  | red => 0
  | black => 1

namespace RbTree

/-- The node whose subtree on side `s` is `near`. -/
def branch (s : Side) (c : Color) (near : RbTree α) (x : α) (far : RbTree α) : RbTree α := match s with
  | .left => node c near x far
  | .right => node c far x near

theorem exists_branch (s : Side) (c : Color) (l : RbTree α) (x : α) (r : RbTree α) :
    ∃ near far, node c l x r = branch s c near x far := by
  cases s with
  | left => exact ⟨l, r, rfl⟩
  | right => exact ⟨r, l, rfl⟩

theorem branch_other (s : Side) (c : Color) (t u : RbTree α) (x : α) :
    branch s.other c t x u = branch s c u x t := by cases s <;> rfl

def color : RbTree α → Color
  | nil => .black
  | node c _ _ _ => c

@[simp] theorem color_branch (s : Side) (c : Color) (t u : RbTree α) (x : α) :
    (branch s c t x u).color = c := by cases s <;> rfl

def blacken : RbTree α → RbTree α
  | nil => nil
  | node _ l x r => node .black l x r

@[simp] theorem blacken_branch (s : Side) (c : Color) (t u : RbTree α) (x : α) :
    (branch s c t x u).blacken = branch s .black t x u := by cases s <;> rfl

@[simp] theorem color_blacken (t : RbTree α) : t.blacken.color = .black := by cases t <;> rfl

variable {t : RbTree α}

theorem blacken_eq_self (h : t.color = .black) : t.blacken = t := by
  cases t with
  | nil => rfl
  | node c l x r =>
    cases h
    rfl

def size : RbTree α → Nat
  | nil => 0
  | node _ l _ r => l.size+r.size+1

@[simp] theorem size_branch (s : Side) (c : Color) (t u : RbTree α) (x : α) :
    (branch s c t x u).size = t.size+u.size+1 := by
  cases s with
  | left => rfl
  | right => simp [branch, size, Nat.add_comm]

def toList : RbTree α → List α
  | nil => []
  | node _ l x r => l.toList ++ x :: r.toList

@[simp] theorem toList_blacken (t : RbTree α) : t.blacken.toList = t.toList := by cases t <;> rfl

theorem toList_branch_color (s : Side) (c c' : Color) (t u : RbTree α) (x : α) :
    (branch s c t x u).toList = (branch s c' t x u).toList := by cases s <;> rfl

variable {u : RbTree α} {n : Nat}

theorem toList_branch_congr (s : Side) (c : Color) {t' u' : RbTree α} (x : α)
    (ht : t.toList = t'.toList) (hu : u.toList = u'.toList) :
    (branch s c t x u).toList = (branch s c t' x u').toList := by
  cases s <;> simp [branch, toList, ht, hu]

theorem toList_rotate (s : Side) (c d c' d' : Color) (t u v : RbTree α) (x y : α) :
    (branch s c (branch s d t x u) y v).toList = (branch s d' t x (branch s c' u y v)).toList := by
  cases s <;> simp [branch, toList]

/-- No red node has a red child, and every path has `n` black nodes. -/
def Valid : RbTree α → Nat → Prop
  | nil, n => n = 0
  | node c l _ r, n => ∃ m, n = m+c.height ∧ l.Valid m ∧ r.Valid m ∧
      (c = .red → l.color = .black ∧ r.color = .black)

theorem valid_branch {s : Side} {c : Color} {x : α} :
    (branch s c t x u).Valid n ↔ ∃ m, n = m+c.height ∧ t.Valid m ∧ u.Valid m ∧
      (c = .red → t.color = .black ∧ u.color = .black) := by
  cases s with
  | left => rfl
  | right => simp only [branch, Valid, and_left_comm, and_comm]

theorem valid_red {s : Side} {x : α} : (branch s .red t x u).Valid n ↔
      t.Valid n ∧ u.Valid n ∧ t.color = .black ∧ u.color = .black := by simp [valid_branch, Color.height]

theorem valid_black {s : Side} {x : α} : (branch s .black t x u).Valid (n+1) ↔ t.Valid n ∧ u.Valid n := by
  simp [valid_branch, Color.height]

theorem Valid.blacken_red (h : t.Valid n) (hc : t.color = .red) : t.blacken.Valid (n+1) := by
  cases t with
  | nil => cases hc
  | node c l x r =>
    cases hc
    obtain ⟨m,hm,hl,hr,_⟩ := h
    exact ⟨m, by rw [hm, Color.height, Color.height], hl, hr, nofun⟩

def ValidBelow (t : RbTree α) (n : Nat) : Prop :=
  t.color = .black ∧ t.Valid n ∨ t.color = .red ∧ t.blacken.Valid (n+1)

def IsRedBlack (t : RbTree α) : Prop := t.color = .black ∧ ∃ n, t.Valid n

end RbTree

namespace Context

open RbTree (branch)

def plug : Context α → RbTree α → RbTree α
  | top, t => t
  | step s c x o up, t => up.plug (branch s c t x o)

theorem plug_other (s : Side) (c : Color) (x : α) (t u : RbTree α) (up : Context α) :
    (step s.other c x t up).plug u = (step s c x u up).plug t := by rw [plug, plug, RbTree.branch_other]

def before : Context α → List α
  | top => []
  | step .left _ _ _ up => up.before
  | step .right _ x o up => up.before ++ (o.toList ++ [x])

def after : Context α → List α
  | top => []
  | step .left _ x o up => x :: o.toList ++ up.after
  | step .right _ _ _ up => up.after

theorem toList_plug (k : Context α) (t : RbTree α) : (k.plug t).toList = k.before ++ t.toList ++ k.after := by
  induction k generalizing t with
  | top => simp [plug, before, after]
  | step s c x o up ih => cases s <;> simp [plug, before, after, ih, branch, RbTree.toList]

variable {t : RbTree α}

theorem toList_plug_congr (k : Context α) {t' : RbTree α} (h : t.toList = t'.toList) :
    (k.plug t).toList = (k.plug t').toList := by rw [toList_plug, toList_plug, h]

def depth : Context α → Nat
  | top => 0
  | step _ _ _ _ up => up.depth+1

theorem depth_le_size (k : Context α) (t : RbTree α) : k.depth+t.size ≤ (k.plug t).size := by
  induction k generalizing t with
  | top => simp [plug, depth]
  | step s c x o up ih =>
    have h := ih (branch s c t x o)
    rw [RbTree.size_branch] at h
    simp only [plug, depth]
    omega

def color : Context α → Option Color
  | top => none
  | step _ c _ _ _ => some c

@[simp] theorem color_step (s : Side) (c : Color) (x : α) (o : RbTree α) (up : Context α) :
    (step s c x o up).color = some c := rfl

/-- Filling the hole with a tree of black height `n` leaves every path with the same number of
black nodes and no new red child of a red node, but perhaps the hole's own. -/
def Fits : Context α → Nat → Prop
  | top, _ => True
  | step _ c _ o up, n => o.Valid n ∧ up.Fits (n+c.height) ∧
      (c = .red → o.color = .black ∧ up.color = some .black)

variable {x : α} {o : RbTree α} {n : Nat}

theorem fits_red {s : Side} {up : Context α} : (step s .red x o up).Fits n ↔
      o.Valid n ∧ up.Fits n ∧ o.color = .black ∧ up.color = some .black := by simp [Fits, Color.height]

theorem fits_black {s : Side} {up : Context α} :
    (step s .black x o up).Fits n ↔ o.Valid n ∧ up.Fits (n+1) := by simp [Fits, Color.height]

variable {k : Context α}

theorem valid_plug (hk : k.Fits n) (ht : t.Valid n)
    (hc : k.color = some .red → t.color = .black) : ∃ m, (k.plug t).Valid m := by
  induction k generalizing t n with
  | top => exact ⟨n, ht⟩
  | step s c x o up ih =>
    obtain ⟨ho,hup,hred⟩ := hk
    refine ih hup (RbTree.valid_branch.mpr ⟨n, rfl, ht, ho, fun h => ⟨hc (h ▸ rfl), (hred h).1⟩⟩) ?_
    intro hupc
    rw [RbTree.color_branch]
    cases c with
    | black => rfl
    | red =>
      rw [(hred rfl).2] at hupc
      cases hupc

theorem color_plug (hk : k.Fits n) (t : RbTree α) :
    (k.plug t).color = if k.color = none then t.color else .black := by
  induction k generalizing t n with
  | top => rfl
  | step s c x o up ih =>
    obtain ⟨_,hup,hred⟩ := hk
    rw [plug, ih hup, RbTree.color_branch]
    cases c with
    | black => simp
    | red => simp [(hred rfl).2]

/-- A balanced tree in a context that fits it is a red-black tree, if the two do not meet in red. -/
theorem isRedBlack_plug (hk : k.Fits n) (ht : t.Valid n)
    (hc : k.color ≠ some .black → t.color = .black) : (k.plug t).IsRedBlack := by
  refine ⟨?_, valid_plug hk ht fun h => hc (by simp [h])⟩
  rw [color_plug hk]
  split
  · rename_i h
    exact hc (by simp [h])
  · rfl

theorem fits_of_isRedBlack (h : (k.plug t).IsRedBlack) :
    ∃ n, k.Fits n ∧ t.Valid n ∧ (k.color ≠ some .black → t.color = .black) := by
  induction k generalizing t with
  | top =>
    obtain ⟨hc,n,hn⟩ := h
    exact ⟨n, trivial, hn, fun _ => hc⟩
  | step s c x o up ih =>
    obtain ⟨n,hup,ht,hcol⟩ := ih h
    obtain ⟨m,rfl,ht,ho,hred⟩ := RbTree.valid_branch.mp ht
    rw [RbTree.color_branch] at hcol
    refine ⟨m, ⟨ho, hup, fun hc => ⟨(hred hc).2, ?_⟩⟩, ht, fun hc => ?_⟩
    · by_contra hup'
      rw [hcol hup'] at hc
      cases hc
    · cases c with
      | black => exact absurd rfl hc
      | red => exact (hred rfl).1

def append : Context α → Context α → Context α
  | top, k => k
  | step s c x o up, k => step s c x o (up.append k)

theorem plug_append (j k : Context α) (t : RbTree α) : (j.append k).plug t = k.plug (j.plug t) := by
  induction j generalizing t with
  | top => rfl
  | step s c x o up ih => simp [append, plug, ih]

theorem append_step_ne_top (j : Context α) (s : Side) (c : Color) (x : α) (o : RbTree α)
    (up : Context α) : j.append (step s c x o up) ≠ top := by
  intro h
  cases j with
  | top => cases h
  | step s' c' x' o' up' => cases h

theorem before_append (j k : Context α) : (j.append k).before = k.before ++ j.before := by
  induction j with
  | top => simp [append, before]
  | step s c x o up ih => cases s <;> simp [append, before, ih]

theorem fits_append_congr (j : Context α) {s : Side} {c : Color} (y : α)
    (h : (j.append (step s c x o k)).Fits n) : (j.append (step s c y o k)).Fits n ∧
      (j.append (step s c y o k)).color = (j.append (step s c x o k)).color := by
  induction j generalizing n with
  | top => exact ⟨h, rfl⟩
  | step s' c' x' o' up ih =>
    obtain ⟨ho,hup,hred⟩ := h
    obtain ⟨hup',hcol⟩ := ih hup
    exact ⟨⟨ho, hup', fun hc => ⟨(hred hc).1, hcol.trans (hred hc).2⟩⟩, rfl⟩

theorem exists_plug_of_mem (hx : x ∈ t.toList) : ∃ k c l r, Context.plug k (.node c l x r) = t := by
  induction t with
  | nil => cases hx
  | node c l y r ihl ihr =>
    simp only [RbTree.toList, List.mem_append, List.mem_cons] at hx
    rcases hx with hx | rfl | hx
    · obtain ⟨k,c',l',r',rfl⟩ := ihl hx
      exact ⟨k.append (step .left c y r top), c', l', r', plug_append ..⟩
    · exact ⟨top, c, l, r, rfl⟩
    · obtain ⟨k,c',l',r',rfl⟩ := ihr hx
      exact ⟨k.append (step .right c y l top), c', l', r', plug_append ..⟩

end Context

/-- The elements in order, or in the order against it, so that the last one is the outermost on the side. -/
def RbTree.listTo (s : Side) (t : RbTree α) : List α := match s with
  | .right => t.toList
  | .left => t.toList.reverse

def Context.beyond (s : Side) : Context α → List α
  | .top => []
  | .step s' _ x o up => if s' = s then up.beyond s else x :: o.listTo s ++ up.beyond s

theorem RbTree.listTo_branch (s : Side) (c : Color) (t u : RbTree α) (x : α) :
    (branch s c t x u).listTo s = u.listTo s ++ x :: t.listTo s := by
  cases s <;> simp [listTo, branch, toList]

theorem RbTree.listTo_other_branch (s : Side) (c : Color) (t u : RbTree α) (x : α) :
    (branch s c t x u).listTo s.other = t.listTo s.other ++ x :: u.listTo s.other := by
  rw [← branch_other, listTo_branch]

theorem RbTree.mem_listTo {s : Side} {t : RbTree α} {x : α} : x ∈ t.listTo s ↔ x ∈ t.toList := by
  cases s <;> simp [listTo]

theorem RbTree.listTo_other (s : Side) (t : RbTree α) : t.listTo s.other = (t.listTo s).reverse := by
  cases s <;> simp [listTo, Side.other]

theorem Context.listTo_plug (s : Side) (k : Context α) (t : RbTree α) :
    (k.plug t).listTo s = (k.beyond s.other).reverse ++ t.listTo s ++ k.beyond s := by
  induction k generalizing t with
  | top => simp [plug, beyond]
  | step s' c x o up ih =>
    rw [plug, ih]
    rcases Side.eq_or_eq_other s s' with rfl | rfl
    · simp [beyond, RbTree.listTo_branch, RbTree.listTo_other, (Side.other_ne _).symm]
    · rw [RbTree.branch_other]
      simp [beyond, RbTree.listTo_branch]

end Liano.RedBlack
