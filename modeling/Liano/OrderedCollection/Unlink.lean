import Liano.OrderedCollection.Insert

/-! The first half of `OrderedCollectionDelete`: the node is unlinked, or its successor is and
takes the node's place. What is left is a hole with a subtree in it, and the colour that is gone
from above that subtree. -/
namespace Liano.OrderedCollection

open Option (bind_eq_bind bind_some)

open RedBlack (Side Color RbTree Context)
open RedBlack.RbTree (nil node branch)
open RedBlack.Context (top step)

variable {V K : Type}

/-- The node at `a` is out of the tree `k.plug x`, and a node of colour `d` is gone from above
`x`. -/
structure Unlinks (u : Unlinked V) (a : Nat) (k : Context (Nat × V)) (x : RbTree (Nat × V)) : Prop where
  bag : ∃ n, u.nodes.bag = {(a,n)} + (contextCells k (ptr x) + cells (parentPtr k) x)
  newRoot : u.newRoot = rootPtr k (ptr x)
  child : u.child = ptr x
  parent : u.parent = parentPtr k
  balanced : ∃ m, x.Valid m ∧ k.Fits (m+u.colorOfUnlinked.height) ∧
    (u.colorOfUnlinked = .red → x.color = .black) ∧ (k.color ≠ some .black → u.colorOfUnlinked = .black)

variable {tree : RedBlackTree V K} {k : Context (Nat × V)} {c : Color} {a : Nat} {h : Nodes V}
  {l r : RbTree (Nat × V)}

theorem unlinkNode_spec {s : Side} {x : RbTree (Nat × V)} {v : V} {n : RedBlackTreeNode V}
    (hr : Represents tree.nodes tree.root (k.plug (branch s c x (a,v) nil)))
    (hrb : (k.plug (branch s c x (a,v) nil)).IsRedBlack)
    (hn : n = sided s v (parentPtr k) (ptr x) none c) :
    ∃ u, unlinkNode tree a n = some u ∧ Unlinks u a k x := by
  have hchild : (if n.left ≠ none then n.left else n.right) = ptr x := by
    subst hn
    cases s with
    | left =>
      cases hx : ptr x with
      | none => rfl
      | some p => exact if_pos nofun
    | right => exact if_neg (· rfl)
  obtain ⟨m,hk,hv,hcol⟩ := RedBlack.Context.fits_of_isRedBlack hrb
  obtain ⟨m,rfl,hx,_,hred⟩ := RbTree.valid_branch.mp hv
  obtain ⟨h1,e1,b1⟩ := setParentOf_of_bag (h := tree.nodes) (t := x) (p := some a)
    (s := {(a,n)} + contextCells k (some a)) (by
      rw [hr.split, hn]
      simp only [ptr_nil, cells_nil, add_zero]
      abel) (parentPtr k)
  obtain ⟨h2,e2,b2⟩ := replaceChild_of_bag (h := h1) (k := k) (n := n)
    (s := cells (parentPtr k) x) (by rw [b1]; abel) (ptr x)
  refine ⟨⟨h2, rootPtr k (ptr x), ptr x, parentPtr k, c⟩, ?_,
    ⟨⟨n, by rw [b2]; abel⟩, rfl, rfl, rfl, m, hx, hk, fun h => (hred h).1, ?_⟩⟩
  · have hp : n.parent = parentPtr k := by rw [hn, sided_parent]
    have hc : n.color = c := by rw [hn, sided_color]
    have hroot : tree.root = rootPtr k (some a) := by rw [(represents_plug.mp hr).2, ptr_branch]
    simp only [unlinkNode, hchild, hp, hc, hroot, e1, e2, bind_eq_bind, bind_some]
    rfl
  · rw [RbTree.color_branch] at hcol
    exact hcol

theorem extremeLoop_left (t : RbTree (Nat × V)) {p : Option Nat} {fuel : Nat}
    {s : Multiset (Nat × RedBlackTreeNode V)} (hb : h.bag = cells p t + s) (ha : ptr t = some a)
    (hf : t.size ≤ fuel) : ∃ j d b x, t = Context.plug j (node d nil b x) ∧ j.before = [] ∧
      extremeLoop .left h fuel a = some b.1 := by
  induction t generalizing p a fuel s with
  | nil => cases ha
  | node c l y r ihl =>
    cases ha
    simp only [RbTree.size] at hf
    obtain ⟨fuel,rfl⟩ : ∃ m, fuel = m+1 := ⟨fuel - 1, by omega⟩
    rw [cells, add_assoc, add_assoc] at hb
    have hread := Heap.read_of_bag hb
    cases hl : ptr l with
    | none =>
      cases eq_nil_of_ptr hl
      refine ⟨top, c, y, r, rfl, rfl, ?_⟩
      simp only [extremeLoop, hread, bind_eq_bind, bind_some]
      rfl
    | some a' =>
      obtain ⟨j,d,b,x,hj,hbef,he⟩ := ihl (p := some y.1) (a := a')
        (s := {(y.1, ⟨y.2, p, ptr l, ptr r, c⟩)} + cells (some y.1) r + s)
        (by rw [hb]; abel) hl (show l.size ≤ fuel by omega)
      refine ⟨j.append (step .left c y r top), d, b, x, ?_, ?_, ?_⟩
      · rw [RedBlack.Context.plug_append, ← hj]
        rfl
      · rw [RedBlack.Context.before_append, hbef]
        rfl
      · simp only [extremeLoop, hread, bind_eq_bind, bind_some, RedBlackTreeNode.child, hl]
        exact he

/-- The successor's place is the first hole of the right subtree; nothing is before it there, so
it hangs on the left of its parent if that is not the unlinked node. -/
theorem exists_left_of_before {j : Context (Nat × V)} (hj : j ≠ top) (hb : j.before = []) :
    ∃ c x o up, j = step .left c x o up := by
  cases j with
  | top => exact absurd rfl hj
  | step s c x o up =>
    cases s with
    | left => exact ⟨c, x, o, up, rfl⟩
    | right => simp [RedBlack.Context.before] at hb

/-- The successor `b` has been taken out of the tree, and `q` is what its parent link still says. -/
def SuccessorOut (h : Nodes V) (k : Context (Nat × V)) (a : Nat) (l r : RbTree (Nat × V))
    (b : Nat × V) (d : Color) : Prop := ∃ n q, h.bag = {(b.1, ⟨b.2, q, none, ptr r, d⟩)} +
    ({(a,n)} + cells (some a) l + cells (some b.1) r + contextCells k (some a))

theorem unlinkDeepSuccessor {root : Option Nat} {j : Context (Nat × V)}
    {d : Color} {x : RbTree (Nat × V)} {rr : Nat} {v : V} {b : Nat × V}
    (hr : Represents h root (k.plug (node c l (a,v) (j.plug (node d nil b x)))))
    (hj : j ≠ top) (hbef : j.before = []) (hrr : ptr (j.plug (node d nil b x)) = some rr) :
    ∃ h1 h2 h3 h4 p0, h.read b.1 = some ⟨b.2, some p0, none, ptr x, d⟩ ∧
      h.modify p0 (·.setChild .left (ptr x)) = some h1 ∧ setParentOf h1 (ptr x) (some p0) = some h2 ∧
      h2.modify b.1 (·.setChild .right (some rr)) = some h3 ∧
      h3.modify rr (·.setParent (some b.1)) = some h4 ∧ parentPtr j = some p0 ∧
      SuccessorOut h4 k a l (j.plug x) b d := by
  obtain ⟨c0,p0,o0,up0,rfl⟩ := exists_left_of_before hj hbef
  have hptr : ptr ((step .left c0 p0 o0 up0).plug x) = some rr := by
    rw [ptr_plug] at hrr ⊢
    exact hrr
  have hplug : ∀ t, k.plug (node c l (a,v) ((step .left c0 p0 o0 up0).plug t)) =
      (step .left c0 p0 o0 (up0.append (step .right c (a,v) l k))).plug t := by
    intro t
    exact (RedBlack.Context.plug_append (step .left c0 p0 o0 up0) (step .right c (a,v) l k) t).symm
  rw [hplug] at hr
  have hread := Represents.read (s := .left) hr
  have hb := (represents_plug.mp hr).1
  rw [contextCells] at hb
  obtain ⟨h1,e1,b1⟩ := Heap.modify_of_bag (h := h) (a := p0.1)
    (s := cells (some p0.1) o0 + contextCells (up0.append (step .right c (a,v) l k)) (some p0.1) +
      cells (some p0.1) (node d nil b x)) (by rw [hb, parentPtr_step]; abel)
    (·.setChild .left (ptr x))
  rw [sided_setNear] at b1
  obtain ⟨h2,e2,b2⟩ := setParentOf_of_bag (h := h1) (t := x) (p := some b.1)
    (s := {(b.1, ⟨b.2, some p0.1, none, ptr x, d⟩)} +
      contextCells (step .left c0 p0 o0 (up0.append (step .right c (a,v) l k))) (ptr x))
    (by rw [b1, contextCells, cells]; simp only [cells_nil, ptr_nil, add_zero]; abel) (some p0.1)
  have hw : contextCells (step .left c0 p0 o0 (up0.append (step .right c (a,v) l k))) (ptr x) +
      cells (some p0.1) x = contextCells k (some a) +
        ({(a, ⟨v, parentPtr k, ptr l, some rr, c⟩)} + cells (some a) l +
          cells (some a) ((step .left c0 p0 o0 up0).plug x)) := by
    have he := congrArg (cells none) (hplug x)
    rw [cells_plug, cells_plug, cells, hptr] at he
    exact he.symm
  obtain ⟨h3,e3,b3⟩ := Heap.modify_of_bag (h := h2) (a := b.1)
    (x := ⟨b.2, some p0.1, none, ptr x, d⟩)
    (s := contextCells k (some a) + {(a, ⟨v, parentPtr k, ptr l, some rr, c⟩)} + cells (some a) l +
      cells (some a) ((step .left c0 p0 o0 up0).plug x))
    (by rw [b2, add_left_comm, add_comm (cells (some p0.1) x), hw]; simp only [add_assoc])
    (·.setChild .right (some rr))
  obtain ⟨h4,e4,b4⟩ := setParentOf_of_bag (h := h3) (t := (step .left c0 p0 o0 up0).plug x)
    (p := some a) (s := {(b.1, ⟨b.2, some p0.1, none, some rr, d⟩)} + contextCells k (some a) +
      {(a, ⟨v, parentPtr k, ptr l, some rr, c⟩)} + cells (some a) l)
    (by rw [b3, add_comm]; simp only [RedBlackTreeNode.setChild]; abel) (some b.1)
  rw [hptr] at e4
  refine ⟨h1, h2, h3, h4, p0.1, hread, e1, e2, e3, e4, rfl,
    ⟨v, parentPtr k, ptr l, some rr, c⟩, some p0.1, ?_⟩
  rw [b4, hptr]
  abel

theorem unlinkSuccessor_spec {root : Option Nat} {rr : Nat} {v : V}
    (hr : Represents h root (k.plug (node c l (a,v) r))) (hrr : ptr r = some rr) :
    ∃ j d b x h' par, r = Context.plug j (node d nil b x) ∧ j.before = [] ∧
      unlinkSuccessor h rr = some (h', b.1, par, ptr x) ∧
      some par = parentPtr (j.append (step .right c b l k)) ∧ SuccessorOut h' k a l (j.plug x) b d := by
  have hsplit := Represents.split (s := .left) hr
  cases r with
  | nil => cases hrr
  | node rd rl y rright =>
    cases hrr
    have hread := Represents.read (s := .left) (k := step .right c (a,v) l k) hr
    cases hl : ptr rl with
    | none =>
      cases eq_nil_of_ptr hl
      refine ⟨top, rd, y, rright, h, y.1, rfl, rfl, ?_, rfl,
        sided .left v (parentPtr k) (ptr l) (some y.1) c, some a, ?_⟩
      · simp only [unlinkSuccessor, hread, bind_eq_bind, bind_some]
        rfl
      · rw [hsplit]
        simp only [cells, RedBlack.Context.plug, ptr]
        abel
    | some next =>
      have hb := (represents_plug (k := step .left rd y rright (step .right c (a,v) l k))).mp hr
      have hfuel : rl.size ≤ fuel h := by
        have hd := RedBlack.Context.depth_le_size k (node c l (a,v) (node rd rl y rright))
        rw [hr.fuel_eq]
        simp only [RbTree.size] at hd
        omega
      obtain ⟨j,d,b,x,rfl,hbef,he⟩ := extremeLoop_left rl
        (hb.1.trans (add_comm _ _)) hl hfuel
      have hplug : ∀ t, (j.append (step .left rd y rright top)).plug t =
          node rd (j.plug t) y rright := fun t => RedBlack.Context.plug_append ..
      rw [← hplug] at hr
      obtain ⟨h1,h2,h3,h4,p0,er,e1,e2,e3,e4,hp,hout⟩ := unlinkDeepSuccessor hr
        (RedBlack.Context.append_step_ne_top _ _ _ _ _ _)
        (by rw [RedBlack.Context.before_append, hbef]; rfl) (by rw [hplug]; rfl)
      refine ⟨j.append (step .left rd y rright top), d, b, x, h4, p0, (hplug _).symm, ?_, ?_, ?_, hout⟩
      · rw [RedBlack.Context.before_append, hbef]
        rfl
      · have hleft : (sided .left y.2 (parentPtr (step .right c (a,v) l k))
            (ptr (j.plug (node d nil b x))) (ptr rright) rd).left = some next := hl
        simp only [unlinkSuccessor, hread, bind_eq_bind, bind_some, hleft, he, er, e1, e2, e3, e4]
        rfl
      · cases j <;> exact hp.symm

theorem relinkSuccessor_spec {la rr : Nat} {v : V} {n : RedBlackTreeNode V}
    (hr : Represents tree.nodes tree.root (k.plug (node c l (a,v) r)))
    (hrb : (k.plug (node c l (a,v) r)).IsRedBlack) (hla : ptr l = some la)
    (hrr : ptr r = some rr) (hp : n.parent = parentPtr k) (hc : n.color = c) :
    ∃ u k' x, relinkSuccessor tree a n la rr = some u ∧ Unlinks u a k' x ∧
      (k'.plug x).toList = k.before ++ (l.toList ++ r.toList) ++ k.after := by
  obtain ⟨j,d,b,x,h1,par,rfl,hbef,e1,hpar,m,q,b1⟩ := unlinkSuccessor_spec hr hrr
  obtain ⟨h2,e2,b2⟩ := Heap.modify_of_bag b1 (·.setChild .left (some la))
  obtain ⟨h3,e3,b3⟩ := setParentOf_of_bag (h := h2) (t := l) (p := some a)
    (s := {(b.1, ⟨b.2, q, some la, ptr (j.plug x), d⟩)} + {(a,m)} + cells (some b.1) (j.plug x) +
      contextCells k (some a)) (by rw [b2]; simp only [RedBlackTreeNode.setChild]; abel) (some b.1)
  rw [hla] at e3
  have hread := Heap.read_of_bag (h := h3) (a := b.1)
    (x := ⟨b.2, q, some la, ptr (j.plug x), d⟩)
    (s := cells (some b.1) l + {(a,m)} + cells (some b.1) (j.plug x) + contextCells k (some a))
    (by rw [b3]; abel)
  obtain ⟨h4,e4,b4⟩ := Heap.modify_of_bag (h := h3) (a := b.1)
    (x := ⟨b.2, q, some la, ptr (j.plug x), d⟩)
    (s := cells (some b.1) l + {(a,m)} + cells (some b.1) (j.plug x) + contextCells k (some a))
    (by rw [b3]; abel) (·.setColor c)
  obtain ⟨h5,e5,b5⟩ := Heap.modify_of_bag b4 (·.setParent (parentPtr k))
  obtain ⟨h6,e6,b6⟩ := replaceChild_of_bag (h := h5) (k := k) (n := m)
    (s := {(b.1, ⟨b.2, parentPtr k, some la, ptr (j.plug x), c⟩)} + cells (some b.1) l +
      cells (some b.1) (j.plug x))
    (by rw [b5]; simp only [RedBlackTreeNode.setColor, RedBlackTreeNode.setParent]; abel)
    (some b.1)
  have hplug : ∀ y t, (j.append (step .right c y l k)).plug t = k.plug (node c l y (j.plug t)) :=
    fun y t => RedBlack.Context.plug_append ..
  have hroot : tree.root = rootPtr k (some a) := (represents_plug.mp hr).2
  obtain ⟨i,hfit,hv,hcol⟩ := RedBlack.Context.fits_of_isRedBlack (hplug (a,v) _ ▸ hrb)
  obtain ⟨hfit,hkcol⟩ := RedBlack.Context.fits_append_congr j b hfit
  obtain ⟨i,rfl,_,hx,hred⟩ := hv
  refine ⟨⟨h6, rootPtr k (some b.1), ptr x, some par, d⟩, j.append (step .right c b l k), x, ?_,
    ⟨⟨m, ?_⟩, ?_, rfl, hpar, i, hx, hfit, fun h => (hred h).2, fun h => hcol (hkcol ▸ h)⟩, ?_⟩
  · simp only [relinkSuccessor, e1, setParentOf] at e3 ⊢
    simp only [bind_eq_bind, bind_some, e2, e3, hread, hc, hp, e4, e5, hroot, e6]
    rfl
  · have he := congrArg (cells none) (hplug b x)
    rw [cells_plug, cells_plug, cells, hla] at he
    rw [b6, he]
    simp only [ptr]
    abel
  · have he := congrArg ptr (hplug b x)
    rw [ptr_plug, ptr_plug] at he
    exact he.symm
  · rw [hplug, RedBlack.Context.toList_plug, RedBlack.Context.toList_plug, RbTree.toList,
      RedBlack.Context.toList_plug, hbef]
    simp [RbTree.toList]

theorem unlink_spec {x : Nat × V} (hr : Represents tree.nodes tree.root (k.plug (node c l x r)))
    (hrb : (k.plug (node c l x r)).IsRedBlack) :
    ∃ u k' y, unlink tree x.1 ⟨x.2, parentPtr k, ptr l, ptr r, c⟩ = some u ∧
      Unlinks u x.1 k' y ∧ (k'.plug y).toList = k.before ++ (l.toList ++ r.toList) ++ k.after := by
  cases hl : ptr l with
  | none =>
    cases eq_nil_of_ptr hl
    obtain ⟨u,e,hu⟩ := unlinkNode_spec (s := .right) hr hrb rfl
    exact ⟨u, k, r, e, hu, RedBlack.Context.toList_plug ..⟩
  | some la =>
    cases hrp : ptr r with
    | none =>
      cases eq_nil_of_ptr hrp
      obtain ⟨u,e,hu⟩ := unlinkNode_spec (s := .left) hr hrb rfl
      rw [hl] at e
      refine ⟨u, k, l, e, hu, ?_⟩
      rw [RedBlack.Context.toList_plug, RbTree.toList, List.append_nil]
    | some rr => exact relinkSuccessor_spec hr hrb hl hrp rfl rfl

end Liano.OrderedCollection
