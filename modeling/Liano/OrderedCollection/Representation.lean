import Liano.OrderedCollection.RedBlackTree

/-! The tree that a heap of nodes holds, by cells: a context and a subtree share no cell, and
each link is read off the tree. A link operation of the code is then a step between two trees. -/
namespace Liano.OrderedCollection
open RedBlack (Side Color RbTree Context)
open RedBlack.RbTree (nil node branch)
open RedBlack.Context (top step)

variable {V K : Type}

/-- The node whose child on side `s` is `near`. -/
def sided (s : Side) (v : V) (parent near far : Option Nat) (c : Color) : RedBlackTreeNode V := match s with
  | .left => ⟨v, parent, near, far, c⟩
  | .right => ⟨v, parent, far, near, c⟩

section Sided

variable (s : Side) (v : V) (parent near far p : Option Nat) (c c' : Color)

@[simp] theorem sided_near : (sided s v parent near far c).child s = near := by cases s <;> rfl

@[simp] theorem sided_far : (sided s v parent near far c).child s.other = far := by cases s <;> rfl

@[simp] theorem sided_parent : (sided s v parent near far c).parent = parent := by cases s <;> rfl

@[simp] theorem sided_color : (sided s v parent near far c).color = c := by cases s <;> rfl

@[simp] theorem sided_userStruct : (sided s v parent near far c).userStruct = v := by cases s <;> rfl

@[simp] theorem sided_setNear : (sided s v parent near far c).setChild s p = sided s v parent p far c := by
  cases s <;> rfl

@[simp] theorem sided_setFar :
    (sided s v parent near far c).setChild s.other p = sided s v parent near p c := by cases s <;> rfl

@[simp] theorem sided_setParent : (sided s v parent near far c).setParent p = sided s v p near far c := by
  cases s <;> rfl

@[simp] theorem sided_setColor :
    (sided s v parent near far c).setColor c' = sided s v parent near far c' := by cases s <;> rfl

/-- The test the code makes finds the side of a child that the other child does not equal. -/
theorem side_of_left (h : near ≠ far) :
    (if (sided s v parent near far c).left = near then Side.left else Side.right) = s := by
  cases s with
  | left => exact if_pos rfl
  | right => exact if_neg fun he => h he.symm

end Sided

def ptr : RbTree (Nat × V) → Option Nat
  | nil => none
  | node _ _ x _ => some x.1

variable {t : RbTree (Nat × V)} {h : Nodes V} {root : Option Nat} {k : Context (Nat × V)}
  {s : Multiset (Nat × RedBlackTreeNode V)}

@[simp] theorem ptr_nil : ptr (nil : RbTree (Nat × V)) = none := rfl

@[simp] theorem ptr_branch (s : Side) (c : Color) (t u : RbTree (Nat × V)) (x : Nat × V) :
    ptr (branch s c t x u) = some x.1 := by cases s <;> rfl

theorem eq_nil_of_ptr (h : ptr t = none) : t = nil := by
  cases t with
  | nil => rfl
  | node c l x r => cases h

theorem exists_of_ptr {a : Nat} (h : ptr t = some a) (s : Side) : ∃ c u v w, t = branch s c u (a,v) w := by
  cases t with
  | nil => cases h
  | node c l x r =>
    cases h
    obtain ⟨u,w,he⟩ := RedBlack.RbTree.exists_branch s c l x r
    exact ⟨c, u, x.2, w, he⟩

def cells : Option Nat → RbTree (Nat × V) → Multiset (Nat × RedBlackTreeNode V)
  | _, nil => 0
  | parent, node c l x r =>
    {(x.1, ⟨x.2, parent, ptr l, ptr r, c⟩)} + cells (some x.1) l + cells (some x.1) r

@[simp] theorem cells_nil (parent : Option Nat) : cells parent (nil : RbTree (Nat × V)) = 0 := rfl

theorem cells_branch (parent : Option Nat) (s : Side) (c : Color) (t u : RbTree (Nat × V)) (x : Nat × V) :
    cells parent (branch s c t x u) =
      {(x.1, sided s x.2 parent (ptr t) (ptr u) c)} + cells (some x.1) t + cells (some x.1) u := by
  cases s with
  | left => rfl
  | right =>
    rw [add_right_comm]
    rfl

def parentPtr : Context (Nat × V) → Option Nat
  | top => none
  | step _ _ x _ _ => some x.1

/-- The root pointer, when the pointer to the hole is `p`. -/
def rootPtr : Context (Nat × V) → Option Nat → Option Nat
  | top, p => p
  | step _ _ x _ up, _ => rootPtr up (some x.1)

@[simp] theorem parentPtr_step (s : Side) (c : Color) (x : Nat × V) (o : RbTree (Nat × V))
    (up : Context (Nat × V)) : parentPtr (step s c x o up) = some x.1 := rfl

def contextCells : Context (Nat × V) → Option Nat → Multiset (Nat × RedBlackTreeNode V)
  | top, _ => 0
  | step s c x o up, p =>
    {(x.1, sided s x.2 (parentPtr up) p (ptr o) c)} + cells (some x.1) o + contextCells up (some x.1)

theorem cells_plug (k : Context (Nat × V)) (t : RbTree (Nat × V)) :
    cells none (k.plug t) = contextCells k (ptr t) + cells (parentPtr k) t := by
  induction k generalizing t with
  | top => simp [RedBlack.Context.plug, contextCells, parentPtr]
  | step s c x o up ih =>
    rw [RedBlack.Context.plug, ih, cells_branch, ptr_branch, contextCells, parentPtr]
    abel

theorem ptr_plug (k : Context (Nat × V)) (t : RbTree (Nat × V)) : ptr (k.plug t) = rootPtr k (ptr t) := by
  induction k generalizing t with
  | top => rfl
  | step s c x o up ih => rw [RedBlack.Context.plug, ih, ptr_branch, rootPtr]

/-- The heap holds the nodes of the tree and nothing else, and `root` points to its root. -/
structure Represents (h : Nodes V) (root : Option Nat) (t : RbTree (Nat × V)) : Prop where
  bag : h.bag = cells none t
  root : root = ptr t

theorem represents_plug
    : Represents h root (k.plug t) ↔
      h.bag = contextCells k (ptr t) + cells (parentPtr k) t ∧ root = rootPtr k (ptr t) := by
  constructor
  · rintro ⟨hb,hr⟩
    exact ⟨hb.trans (cells_plug k t), hr.trans (ptr_plug k t)⟩
  · rintro ⟨hb,hr⟩
    exact ⟨hb.trans (cells_plug k t).symm, hr.trans (ptr_plug k t).symm⟩

theorem card_cells (p : Option Nat) (t : RbTree (Nat × V)) : (cells p t).card = t.size := by
  induction t generalizing p with
  | nil => rfl
  | node c l x r ihl ihr =>
    simp only [cells, Multiset.card_add, Multiset.card_singleton, ihl, ihr, RbTree.size]
    omega

theorem Represents.fuel_eq (hr : Represents h root t) : fuel h = t.size+1 := by
  have hc := congrArg Multiset.card hr.bag
  rw [card_cells] at hc
  exact congrArg (· + 1) hc

section Reads

variable {h : Nodes V} {root : Option Nat} {k : Context (Nat × V)} {s : Side} {c : Color}
  {t u : RbTree (Nat × V)} {x : Nat × V}

theorem Represents.split (hr : Represents h root (k.plug (branch s c t x u))) :
    h.bag = {(x.1, sided s x.2 (parentPtr k) (ptr t) (ptr u) c)} +
      (contextCells k (some x.1) + cells (some x.1) t + cells (some x.1) u) := by
  rw [(represents_plug.mp hr).1, cells_branch, ptr_branch]
  abel

theorem Represents.read (hr : Represents h root (k.plug (branch s c t x u))) :
    h.read x.1 = some (sided s x.2 (parentPtr k) (ptr t) (ptr u) c) := Heap.read_of_bag hr.split

theorem Represents.nodeIsNullOrBlack (hr : Represents h root (k.plug t)) :
    nodeIsNullOrBlack h (ptr t) = some (decide (t.color = .black)) := by
  cases t with
  | nil => rfl
  | node c l y r =>
    have hrd := Represents.read (s := .left) hr
    simp only [ptr, nodeIsNullOrBlack, hrd, Option.map_some, sided_color]
    rfl

theorem Represents.setColor (hr : Represents h root (k.plug (branch s c t x u))) (c' : Color) :
    ∃ h', h.modify x.1 (·.setColor c') = some h' ∧ Represents h' root (k.plug (branch s c' t x u)) := by
  obtain ⟨h',hm,hb⟩ := Heap.modify_of_bag hr.split (·.setColor c')
  refine ⟨h', hm, represents_plug.mpr ⟨?_, ?_⟩⟩
  · rw [hb, cells_branch, ptr_branch, sided_setColor]
    abel
  · rw [(represents_plug.mp hr).2, ptr_branch, ptr_branch]

theorem mem_cells_of_ptr {a : Nat} (ht : ptr t = some a) (parent : Option Nat) :
    ∃ n, (a,n) ∈ cells parent t := by
  obtain ⟨c,u,v,w,rfl⟩ := exists_of_ptr ht .left
  refine ⟨sided .left v parent (ptr u) (ptr w) c, ?_⟩
  rw [cells_branch]
  simp

theorem rootPtr_of_ne_top (hk : k ≠ top) (p : Option Nat) :
    ∃ a n, rootPtr k p = some a ∧ (a,n) ∈ contextCells k p := by
  induction k generalizing p with
  | top => exact absurd rfl hk
  | step s c x o up ih =>
    cases up with
    | top =>
      refine ⟨x.1, sided s x.2 none p (ptr o) c, rfl, ?_⟩
      rw [contextCells]
      simp [parentPtr]
    | step s' c' x' o' up' =>
      obtain ⟨a,n,hp,hm⟩ := ih nofun (some x.1)
      exact ⟨a, n, hp, by rw [contextCells]; simp [hm]⟩

theorem Represents.root_eq_iff (hr : Represents h root (k.plug t)) : ptr t = root ↔ k = top := by
  rw [(represents_plug.mp hr).2]
  constructor
  · intro he
    by_contra hk
    obtain ⟨a,n,hp,hm⟩ := rootPtr_of_ne_top hk (ptr t)
    obtain ⟨c,l,v,r,rfl⟩ := exists_of_ptr (he.trans hp) .left
    exact Heap.ne_of_bag hr.split (p := (a,n)) (by
      rw [ptr_branch] at hm
      simp [hm]) rfl
  · rintro rfl
    rfl

theorem Represents.ptr_ne (hr : Represents h root (k.plug (branch s c t x u)))
    (hne : t ≠ nil ∨ u ≠ nil) : ptr t ≠ ptr u := by
  intro he
  cases hp : ptr u with
  | none =>
    rw [hp] at he
    exact hne.elim (· (eq_nil_of_ptr he)) (· (eq_nil_of_ptr hp))
  | some a =>
    obtain ⟨c',l,v,r,rfl⟩ := exists_of_ptr (he.trans hp) .left
    obtain ⟨n,hm⟩ := mem_cells_of_ptr hp (some x.1)
    refine Heap.ne_of_bag (Represents.split (s := .left) (k := step s c x u k) hr)
      (p := (a,n)) ?_ rfl
    rw [contextCells]
    simp [hm]

end Reads

theorem setParentOf_of_bag {p : Option Nat} (hb : h.bag = cells p t + s) (q : Option Nat) :
    ∃ h', setParentOf h (ptr t) q = some h' ∧ h'.bag = cells q t + s := by
  cases t with
  | nil => exact ⟨h, rfl, hb⟩
  | node c l x r =>
    rw [cells, add_assoc, add_assoc] at hb
    obtain ⟨h',hm,hb'⟩ := Heap.modify_of_bag hb (·.setParent q)
    refine ⟨h', hm, ?_⟩
    rw [hb', cells, add_assoc, add_assoc]
    rfl

theorem replaceChild_of_bag {old : Nat} {n : RedBlackTreeNode V}
    (hb : h.bag = contextCells k (some old) + ({(old,n)} + s)) (new : Option Nat) :
    ∃ h', replaceChild h (rootPtr k (some old)) (parentPtr k) old new = some (h', rootPtr k new) ∧
      h'.bag = contextCells k new + ({(old,n)} + s) := by
  cases k with
  | top => exact ⟨h, rfl, hb⟩
  | step sd c x o up =>
    have hfar : some old ≠ ptr o := by
      intro he
      obtain ⟨m,hm⟩ := mem_cells_of_ptr he.symm (some x.1)
      have hs : h.bag = {(old,n)} + (contextCells (step sd c x o up) (some old) + s) := by
        rw [hb]
        abel
      exact Heap.ne_of_bag hs (p := (old,m)) (by rw [contextCells]; simp [hm]) rfl
    rw [contextCells, add_assoc, add_assoc] at hb
    obtain ⟨h',hm,hb'⟩ := Heap.modify_of_bag hb (·.setChild sd new)
    refine ⟨h', ?_, ?_⟩
    · simp only [parentPtr, replaceChild, Heap.read_of_bag hb, Option.bind_eq_bind,
        Option.bind_some, side_of_left _ _ _ _ _ _ hfar, hm, rootPtr]
      rfl
    · rw [hb', contextCells, sided_setNear, add_assoc, add_assoc]

theorem redBlackTreeRotate_spec {s : Side} {c d : Color} {u w : RbTree (Nat × V)} {x y : Nat × V}
    (hr : Represents h root (k.plug (branch s c (branch s d t x u) y w))) :
    ∃ h' root', redBlackTreeRotate s h y.1 root = some (h',root') ∧
      Represents h' root' (k.plug (branch s d t x (branch s c u y w))) := by
  obtain ⟨hb,hroot⟩ := represents_plug.mp hr
  rw [cells_branch, cells_branch, ptr_branch, ptr_branch] at hb
  have hpivot := hr.read
  have hchild := Represents.read (k := step s c y w k) hr
  rw [ptr_branch] at hpivot
  obtain ⟨h1,e1,b1⟩ := Heap.modify_of_bag (a := y.1)
    (x := sided s y.2 (parentPtr k) (some x.1) (ptr w) c)
    (s := contextCells k (some y.1) + {(x.1, sided s x.2 (some y.1) (ptr t) (ptr u) d)} +
      cells (some x.1) t + cells (some x.1) u + cells (some y.1) w)
    (by rw [hb]; abel) (·.setChild s (ptr u))
  obtain ⟨h2,e2,b2⟩ := setParentOf_of_bag (t := u) (p := some x.1)
    (s := contextCells k (some y.1) + {(y.1, sided s y.2 (parentPtr k) (ptr u) (ptr w) c)} +
      {(x.1, sided s x.2 (some y.1) (ptr t) (ptr u) d)} + cells (some x.1) t + cells (some y.1) w)
    (by rw [b1, sided_setNear]; abel) (some y.1)
  obtain ⟨h3,e3,b3⟩ := Heap.modify_of_bag (a := x.1)
    (x := sided s x.2 (some y.1) (ptr t) (ptr u) d)
    (s := contextCells k (some y.1) + {(y.1, sided s y.2 (parentPtr k) (ptr u) (ptr w) c)} +
      cells (some y.1) u + cells (some x.1) t + cells (some y.1) w)
    (by rw [b2]; abel) (·.setParent (parentPtr k))
  obtain ⟨h4,e4,b4⟩ := replaceChild_of_bag (k := k)
    (n := sided s y.2 (parentPtr k) (ptr u) (ptr w) c)
    (s := {(x.1, sided s x.2 (parentPtr k) (ptr t) (ptr u) d)} + cells (some y.1) u +
      cells (some x.1) t + cells (some y.1) w)
    (by rw [b3, sided_setParent]; abel) (some x.1)
  obtain ⟨h5,e5,b5⟩ := Heap.modify_of_bag (a := x.1)
    (x := sided s x.2 (parentPtr k) (ptr t) (ptr u) d)
    (s := contextCells k (some x.1) + {(y.1, sided s y.2 (parentPtr k) (ptr u) (ptr w) c)} +
      cells (some y.1) u + cells (some x.1) t + cells (some y.1) w)
    (by rw [b4]; abel) (·.setChild s.other (some y.1))
  obtain ⟨h6,e6,b6⟩ := Heap.modify_of_bag (a := y.1)
    (x := sided s y.2 (parentPtr k) (ptr u) (ptr w) c)
    (s := contextCells k (some x.1) + {(x.1, sided s x.2 (parentPtr k) (ptr t) (some y.1) d)} +
      cells (some y.1) u + cells (some x.1) t + cells (some y.1) w)
    (by rw [b5, sided_setFar]; abel) (·.setParent (some x.1))
  refine ⟨h6, rootPtr k (some x.1), ?_, represents_plug.mpr ⟨?_, by rw [ptr_branch]⟩⟩
  · rw [hroot, ptr_branch]
    simp only [redBlackTreeRotate, hpivot, hchild, Option.bind_eq_bind, Option.bind_some,
      sided_near, sided_far, sided_parent, e1, e2, e3, e4, e5, e6]
    rfl
  · rw [b6, cells_branch, cells_branch, ptr_branch, ptr_branch, sided_setParent]
    abel

end Liano.OrderedCollection
