import Liano.OrderedCollection.Representation

/-! `OrderedCollectionInsert`: the search ends at an equal element or at the place of the new
one, and the loop that follows moves the only red-red edge up until it is gone. -/
namespace Liano.OrderedCollection

open Option (bind_eq_bind bind_some)
open List hiding after lt_trans nil not_le

open RedBlack (Side Color RbTree Context)
open RedBlack.RbTree (nil node branch)
open RedBlack.Context (top step)

variable {V K : Type}

/-- A comparison of user structures that orders them totally, up to elements that compare equal. -/
structure Consistent (cmp : V → V → Int) : Prop where
  symm : ∀ a b, cmp a b < 0 ↔ 0 < cmp b a
  trans : ∀ a b c, cmp a b ≤ 0 → cmp b c ≤ 0 → cmp a c ≤ 0

namespace Consistent

variable {cmp : V → V → Int} (hc : Consistent cmp)
include hc

theorem lt_trans {a b c : V} (hab : cmp a b < 0) (hbc : cmp b c < 0) : cmp a c < 0 := by
  by_contra hn
  have hca : cmp c a ≤ 0 := by
    by_contra hpos
    exact hn ((hc.symm a c).mpr (not_le.mp hpos))
  exact absurd (hc.trans c a b hca hab.le) (not_le.mpr ((hc.symm b c).mp hbc))

theorem gt_trans {a b c : V} (hab : 0 < cmp a b) (hbc : cmp c b < 0) : 0 < cmp a c :=
  (hc.symm c a).mp (hc.lt_trans hbc ((hc.symm b a).mpr hab))

end Consistent

def Sorted (cmp : V → V → Int) (t : RbTree (Nat × V)) : Prop := t.toList.Pairwise fun x y => cmp x.2 y.2 < 0

def ResultAgrees (result : Int) : Context (Nat × V) → Prop
  | top => True
  | step s _ _ _ _ => (if result < 0 then Side.left else Side.right) = s

structure Between (cmp : V → V → Int) (userStruct : V) (k : Context (Nat × V)) : Prop where
  before : ∀ x ∈ k.before, 0 < cmp userStruct x.2
  after : ∀ x ∈ k.after, cmp userStruct x.2 < 0

variable {k : Context (Nat × V)}
variable {cmp : V → V → Int} {x p g : Nat × V} {u : V} {o : RbTree (Nat × V)} {up : Context (Nat × V)}
  {tree : RedBlackTree V K}

theorem Sorted.parts {c : Color} {l r : RbTree (Nat × V)} (hs : Sorted cmp (k.plug (node c l x r))) :
    (∀ y ∈ l.toList, cmp y.2 x.2 < 0) ∧ ∀ y ∈ r.toList, cmp x.2 y.2 < 0 := by
  rw [Sorted, RedBlack.Context.toList_plug, RbTree.toList] at hs
  have hmid := (pairwise_append.mp (pairwise_append.mp hs).1).2.1
  obtain ⟨_,hr,hl⟩ := pairwise_append.mp hmid
  exact ⟨fun y hy => hl y hy x (by simp), (pairwise_cons.mp hr).1⟩

theorem Between.down (hc : Consistent cmp) {c : Color} {l r : RbTree (Nat × V)} (hb : Between cmp u k)
    (hs : Sorted cmp (k.plug (node c l x r))) : (cmp u x.2 < 0 → Between cmp u (step .left c x r k)) ∧
      (0 < cmp u x.2 → Between cmp u (step .right c x l k)) := by
  obtain ⟨hl,hr⟩ := hs.parts
  constructor
  · intro hlt
    refine ⟨hb.before, fun y hy => ?_⟩
    simp only [RedBlack.Context.after, cons_append, mem_cons, mem_append] at hy
    rcases hy with rfl | hy | hy
    · exact hlt
    · exact hc.lt_trans hlt (hr y hy)
    · exact hb.after y hy
  · intro hgt
    refine ⟨fun y hy => ?_, hb.after⟩
    simp only [RedBlack.Context.before, mem_append, mem_singleton] at hy
    rcases hy with hy | hy | rfl
    · exact hb.before y hy
    · exact hc.gt_trans hgt (hl y hy)
    · exact hgt

/-- What the search returns: the node of an equal element, or NULL, the parent of the hole the
new element belongs in, and the side of that parent. -/
inductive Searched (cmp : V → V → Int) (u : V) (t : RbTree (Nat × V)) :
    Option (Option Nat × Option Nat × Int) → Prop
  | collision {x : Nat × V} (parent : Option Nat) (hm : x ∈ t.toList) (h0 : cmp u x.2 = 0) :
      Searched cmp u t (some (some x.1, parent, 0))
  | hole {k : Context (Nat × V)} {result : Int} (hk : k.plug nil = t) (ha : ResultAgrees result k)
      (hb : Between cmp u k) : Searched cmp u t (some (none, parentPtr k, result))

theorem collisionLoop_spec (hc : Consistent cmp) {h : Nodes V}
    {root : Option Nat} (t : RbTree (Nat × V)) (k : Context (Nat × V)) {fuel : Nat}
    {i : Int} (hr : Represents h root (k.plug t)) (hs : Sorted cmp (k.plug t))
    (hf : t.size < fuel) (ha : ResultAgrees i k) (hb : Between cmp u k) :
    Searched cmp u (k.plug t) (collisionLoop cmp h u fuel (ptr t) (parentPtr k) i) := by
  induction t generalizing k fuel i with
  | nil =>
    obtain ⟨fuel,rfl⟩ : ∃ m, fuel = m+1 := ⟨fuel - 1, by omega⟩
    exact .hole rfl ha hb
  | node c l x r ihl ihr =>
    obtain ⟨fuel,rfl⟩ : ∃ m, fuel = m+1 := ⟨fuel - 1, by omega⟩
    have hread := Represents.read (s := .left) hr
    simp only [RbTree.size] at hf
    simp only [ptr, collisionLoop, hread, bind_eq_bind, bind_some, sided_userStruct]
    obtain ⟨hleft,hright⟩ := hb.down hc hs
    rcases lt_trichotomy (cmp u x.2) 0 with hlt | h0 | hgt
    · rw [if_neg hlt.ne, if_pos hlt]
      exact ihl (step .left c x r k) hr hs (by omega) (if_pos hlt) (hleft hlt)
    · rw [if_pos h0, h0]
      refine .collision _ ?_ h0
      rw [RedBlack.Context.toList_plug]
      simp [RbTree.toList]
    · rw [if_neg hgt.ne', if_neg hgt.not_gt]
      exact ihr (step .right c x l k) hr hs (by omega) (if_neg hgt.not_gt) (hright hgt)

/-- `Tmp` is the red root of the balanced subtree `t`, and only it may have a red parent. -/
structure InsertInv (l : InsertLoop V) (k : Context (Nat × V)) (t : RbTree (Nat × V)) : Prop where
  represents : Represents l.nodes l.newRoot (k.plug t)
  tmp : ptr t = some l.tmp
  parent : l.parent = parentPtr k
  red : t.color = .red
  balanced : ∃ n, t.Valid n ∧ k.Fits n

variable {l : InsertLoop V} {t : RbTree (Nat × V)}

theorem insertRecolor_spec {s s' : Side} {a b : RbTree (Nat × V)} {su : Side}
    (hi : InsertInv l (step s .red p o (step s' .black g (branch su .red a x b) up)) t) :
    ∃ l' t', insertRecolor l p.1 g.1 x.1 = some l' ∧ InsertInv l' up t' ∧ (up.plug t').toList =
        ((step s .red p o (step s' .black g (branch su .red a x b) up)).plug t).toList := by
  obtain ⟨n,ht,hk⟩ := hi.balanced
  obtain ⟨ho,hgp,hob,_⟩ := RedBlack.Context.fits_red.mp hk
  obtain ⟨hu,hup⟩ := RedBlack.Context.fits_black.mp hgp
  obtain ⟨h1,e1,r1⟩ := Represents.setColor (k := step s' .black g (branch su .red a x b) up)
    hi.represents .black
  rw [← RedBlack.Context.plug_other] at r1
  obtain ⟨h2,e2,r2⟩ := r1.setColor .black
  rw [RedBlack.Context.plug_other] at r2
  obtain ⟨h3,e3,r3⟩ := Represents.setColor (k := up) r2 .red
  have hread := r3.read
  refine ⟨⟨h3, l.newRoot, g.1, parentPtr up⟩,
    branch s' .red (branch s .black t p o) g (branch su .black a x b), ?_,
    ⟨r3, ?_, rfl, ?_, n+1, ?_, hup⟩, ?_⟩
  · simp only [insertRecolor, e1, e2, e3, hread, bind_eq_bind, bind_some, sided_parent]
    rfl
  · rw [ptr_branch]
  · rw [RbTree.color_branch]
  · obtain ⟨ha,hb,_⟩ := RbTree.valid_red.mp hu
    exact RbTree.valid_red.mpr ⟨RbTree.valid_black.mpr ⟨ht, ho⟩, RbTree.valid_black.mpr ⟨ha, hb⟩,
      RbTree.color_branch .., RbTree.color_branch ..⟩
  · refine RedBlack.Context.toList_plug_congr up ?_
    exact (RbTree.toList_branch_color _ _ _ _ _ _).trans (RbTree.toList_branch_congr _ _ _
      (RbTree.toList_branch_color ..) (RbTree.toList_branch_color ..))

theorem insertStraighten_spec {s s' : Side} {u : RbTree (Nat × V)} {n : Nat}
    (hi : InsertInv l (step s .red p o (step s' .black g u up)) t) (ht : t.Valid n)
    (ho : o.Valid n) (hob : o.color = .black) : ∃ l' x t' o', insertStraighten s' l p.1 g.1 = some (l',x.1) ∧
      Represents l'.nodes l'.newRoot ((step s' .black g u up).plug (branch s' .red t' x o')) ∧
      ptr t' = some l'.tmp ∧ l'.parent = some x.1 ∧ t'.color = .red ∧ t'.Valid n ∧ o'.Valid n ∧
      o'.color = .black ∧ (branch s' .red t' x o').toList = (branch s .red t p o).toList := by
  have hread := Represents.read (k := step s' .black g u up) hi.represents
  rcases Side.eq_or_eq_other s' s with rfl | rfl
  · have hne := Represents.ptr_ne (k := step s .black g u up) hi.represents
      (.inl fun h => by rw [h] at hi; cases hi.tmp)
    rw [hi.tmp] at hne
    refine ⟨l, p, t, o, ?_, hi.represents, hi.tmp, hi.parent, hi.red, ht, ho, hob, rfl⟩
    simp only [insertStraighten, hread, bind_eq_bind, bind_some, sided_far, if_neg hne.symm]
    rfl
  obtain ⟨c,a,v,b,rfl⟩ := exists_of_ptr hi.tmp s'.other
  have hc : c = .red := by simpa using hi.red
  subst hc
  obtain ⟨ha,hb,hac,hbc⟩ := RbTree.valid_red.mp ht
  obtain ⟨h1,root1,e1,r1⟩ := redBlackTreeRotate_spec (k := step s' .black g u up) hi.represents
  have hread2 := Represents.read (k := step s' .black g u up) r1
  rw [RbTree.branch_other s'] at r1
  have hread1 := Represents.read (k := step s' .red (l.tmp,v) a (step s' .black g u up)) r1
  refine ⟨⟨h1, root1, p.1, some l.tmp⟩, (l.tmp,v), _, a, ?_, r1, ptr_branch .., rfl,
    RbTree.color_branch .., RbTree.valid_red.mpr ⟨hb, ho, hbc, hob⟩, ha, hac, ?_⟩
  · simp only [insertStraighten, hread, bind_eq_bind, bind_some, sided_near,
      ptr_branch, if_true, e1, hread1, hread2, sided_parent, parentPtr_step]
    rfl
  · rw [← RbTree.branch_other s']
    exact (RbTree.toList_rotate ..).symm

theorem insertBody_spec {s s' : Side} {u : RbTree (Nat × V)}
    (hi : InsertInv l (step s .red p o (step s' .black g u up)) t) :
    ∃ l' k' t', insertBody s' l p.1 g.1 = some l' ∧ InsertInv l' k' t' ∧ k'.depth ≤ up.depth+1 ∧
      (k'.plug t').toList = ((step s .red p o (step s' .black g u up)).plug t).toList := by
  have hread := Represents.read (k := up) hi.represents
  have hblack := Represents.nodeIsNullOrBlack (k := step s'.other .black g (branch s .red t p o) up)
    (t := u) (by rw [RedBlack.Context.plug_other]; exact hi.represents)
  cases hu : u.color with
  | red =>
    obtain ⟨su,a,x,b,rfl⟩ : ∃ su a x b, u = branch su .red a x b := by
      cases u with
      | nil => cases hu
      | node c a x b =>
        cases hu
        exact ⟨.left, a, x, b, rfl⟩
    obtain ⟨l',t',he,hi',hl⟩ := insertRecolor_spec hi
    refine ⟨l', up, t', ?_, hi', Nat.le_succ _, hl⟩
    rw [ptr_branch, hu] at hblack
    simp only [insertBody, hread, bind_eq_bind, bind_some, sided_far, ptr_branch, hblack]
    exact he
  | black =>
    obtain ⟨n,ht,hk⟩ := hi.balanced
    obtain ⟨ho,hgp,hob,_⟩ := RedBlack.Context.fits_red.mp hk
    obtain ⟨huv,hup⟩ := RedBlack.Context.fits_black.mp hgp
    obtain ⟨l1,x,t',o',e1,r1,htmp,hpar,hred,ht',ho',hob',hl⟩ := insertStraighten_spec hi ht ho hob
    obtain ⟨h2,e2,r2⟩ := Represents.setColor (k := step s' .black g u up) r1 .black
    obtain ⟨h3,e3,r3⟩ := Represents.setColor (k := up) r2 .red
    obtain ⟨h4,root4,e4,r4⟩ := redBlackTreeRotate_spec r3
    refine ⟨⟨h4, root4, l1.tmp, l1.parent⟩, step s' .black x (branch s' .red o' g u) up, t', ?_,
      ⟨r4, htmp, hpar, hred, n, ht', ?_⟩, le_rfl, ?_⟩
    · simp only [insertBody, hread, bind_eq_bind, bind_some, sided_far, hblack, hu]
      cases hp : ptr u <;> simp [e1, e2, e3, e4]
    · exact RedBlack.Context.fits_black.mpr
        ⟨RbTree.valid_red.mpr ⟨ho', huv, hob', hu⟩, hup⟩
    · refine RedBlack.Context.toList_plug_congr up ?_
      rw [← RbTree.toList_rotate s' .black .red]
      exact RbTree.toList_branch_congr _ _ _ hl rfl

/-- The loop ends, at a black parent or at the root, with the in-order sequence it began with. -/
theorem insertLoop_spec {fuel : Nat} (hi : InsertInv l k t) (hf : k.depth < fuel) :
    ∃ l' k' t', insertLoop fuel l = some l' ∧ InsertInv l' k' t' ∧ k'.color ≠ some .red ∧
      (k'.plug t').toList = (k.plug t).toList := by
  induction fuel generalizing l k t with
  | zero => omega
  | succ fuel ih =>
    have hroot := hi.represents.root_eq_iff
    rw [hi.tmp] at hroot
    cases k with
    | top => exact ⟨l, top, t, if_pos (hroot.mpr rfl), hi, nofun, rfl⟩
    | step s c p o up =>
      have hne : some l.tmp ≠ l.newRoot := fun h => nomatch hroot.mp h
      have hread := Represents.read (k := up) hi.represents
      cases c with
      | black =>
        refine ⟨l, _, t, ?_, hi, nofun, rfl⟩
        simp only [insertLoop, if_neg hne, hi.parent, parentPtr_step, bind_eq_bind,
          bind_some, hread, sided_color, if_true]
        rfl
      | red =>
        obtain ⟨n,ht,hk⟩ := hi.balanced
        obtain ⟨_,_,_,hupc⟩ := RedBlack.Context.fits_red.mp hk
        cases up with
        | top => cases hupc
        | step s' c' g u up =>
          have hc' : c' = .black := by simpa using hupc
          subst hc'
          have hread' := Represents.read (k := up) hi.represents
          have hside := side_of_left s' g.2 (parentPtr up) _ _ .black
            (Represents.ptr_ne (k := up) hi.represents (.inl (by cases s <;> nofun)))
          rw [ptr_branch] at hside hread'
          obtain ⟨l1,k1,t1,e1,hi1,hd,hl⟩ := insertBody_spec hi
          simp only [RedBlack.Context.depth] at hf
          obtain ⟨l2,k2,t2,e2,hi2,hcol,hl2⟩ := ih hi1 (by omega)
          refine ⟨l2, k2, t2, ?_, hi2, hcol, hl2.trans hl⟩
          simp only [insertLoop, if_neg hne, hi.parent, parentPtr_step, bind_eq_bind,
            bind_some, hread, sided_color, reduceCtorEq, if_false, sided_parent, hread', hside, e1, e2]

theorem InsertInv.blacken (hi : InsertInv l k t) (hk : k.color ≠ some .red) :
    ∃ a h', l.newRoot = some a ∧ l.nodes.modify a (·.setColor .black) = some h' ∧
      Represents h' (some a) (k.plug t).blacken ∧ (k.plug t).blacken.IsRedBlack := by
  obtain ⟨n,ht,hf⟩ := hi.balanced
  have hrb : (k.plug t).blacken.IsRedBlack := by
    cases k with
    | top => exact ⟨RbTree.color_blacken _, n+1, ht.blacken_red hi.red⟩
    | step s c p o up =>
      have hc : c = .black := by
        cases c with
        | red => exact absurd rfl hk
        | black => rfl
      have hT := RedBlack.Context.isRedBlack_plug hf ht fun h => absurd (congrArg some hc) h
      exact (RbTree.blacken_eq_self hT.1).symm ▸ hT
  have hr := hi.represents
  cases hT : k.plug t with
  | nil =>
    have hd := RedBlack.Context.depth_le_size k t
    cases t with
    | nil => cases hi.tmp
    | node c l x r => simp [hT, RbTree.size] at hd
  | node c l x r =>
    rw [hT] at hr
    obtain ⟨h',hm,hr'⟩ := Represents.setColor (k := top) (s := .left) hr .black
    refine ⟨x.1, h', hr.root, hm, ⟨hr'.bag, rfl⟩, hT ▸ hrb⟩

theorem insertNode_spec {a : Nat} {result : Int}
    (hr : Represents tree.nodes tree.root (k.plug nil)) (hrb : (k.plug nil).IsRedBlack)
    (ha : tree.nodes.read a = none) (hres : ResultAgrees result k) :
    ∃ root nodes t, insertNode tree a (parentPtr k) result u = some { tree with root, nodes } ∧
      Represents nodes root t ∧ t.IsRedBlack ∧ t.toList = k.before ++ (a,u) :: k.after := by
  have hb := (represents_plug.mp hr).1
  cases k with
  | top =>
    obtain ⟨h1,e1,b1⟩ := Heap.alloc_of_bag ha ⟨u, none, none, none, .black⟩
    refine ⟨some a, h1, node .black nil (a,u) nil, ?_, ⟨?_, rfl⟩, ⟨rfl, 1, 0, rfl, rfl, rfl, nofun⟩, rfl⟩
    · simp only [insertNode, parentPtr, e1, bind_eq_bind, bind_some]
      rfl
    · rw [b1, hb]
      rfl
  | step s c p o up =>
    obtain ⟨n,hk,hn,_⟩ := RedBlack.Context.fits_of_isRedBlack hrb
    have hn0 : n = 0 := hn
    subst hn0
    obtain ⟨h1,e1,b1⟩ := Heap.alloc_of_bag ha ⟨u, some p.1, none, none, .red⟩
    rw [hb, contextCells, cells_nil] at b1
    obtain ⟨h2,e2,b2⟩ := Heap.modify_of_bag (h := h1) (a := p.1)
      (s := {(a, ⟨u, some p.1, none, none, .red⟩)} + cells (some p.1) o +
        contextCells up (some p.1)) (by rw [b1]; abel) (·.setChild s (some a))
    have hr2 : Represents h2 tree.root ((step s c p o up).plug (node .red nil (a,u) nil)) := by
      refine represents_plug.mpr ⟨?_, (represents_plug.mp hr).2⟩
      rw [b2, contextCells, sided_setNear]
      simp only [ptr, cells, parentPtr_step, add_zero]
      abel
    have hi : InsertInv ⟨h2, tree.root, a, some p.1⟩ (step s c p o up)
        (node .red nil (a,u) nil) :=
      ⟨hr2, rfl, rfl, rfl, 0, RbTree.valid_red (s := .left).mpr ⟨rfl, rfl, rfl, rfl⟩, hk⟩
    have hfuel : (step s c p o up).depth < fuel h2 := by
      have hd := RedBlack.Context.depth_le_size (step s c p o up) (node .red nil (a,u) nil)
      rw [hr2.fuel_eq]
      omega
    obtain ⟨l,k',t',e3,hi',hcol,hl⟩ := insertLoop_spec hi hfuel
    obtain ⟨r,h4,e4,e5,hr4,hrb4⟩ := hi'.blacken hcol
    refine ⟨some r, h4, _, ?_, hr4, hrb4, ?_⟩
    · have hside : (if result < 0 then Side.left else Side.right) = s := hres
      simp only [insertNode, parentPtr_step, e1, bind_eq_bind, bind_some, hside, e2, e3, e4, e5]
      rfl
    · rw [RbTree.toList_blacken, hl, RedBlack.Context.toList_plug]
      simp [RbTree.toList]

/-- The tree holds exactly the nodes of `t`, which is a red-black tree in strict order. -/
structure Holds (tree : RedBlackTree V K) (t : RbTree (Nat × V)) : Prop where
  represents : Represents tree.nodes tree.root t
  isRedBlack : t.IsRedBlack
  sorted : Sorted tree.userStructCompare t

theorem Between.sorted (hc : Consistent cmp)
    (hb : Between cmp u k) (hs : Sorted cmp (k.plug nil)) (a : Nat) :
    (k.before ++ (a,u) :: k.after).Pairwise fun x y => cmp x.2 y.2 < 0 := by
  rw [Sorted, RedBlack.Context.toList_plug, RbTree.toList, append_nil, pairwise_append] at hs
  obtain ⟨hbef,haft,hcross⟩ := hs
  refine pairwise_append.mpr ⟨hbef, pairwise_cons.mpr ⟨hb.after, haft⟩, ?_⟩
  intro x hx y hy
  rcases mem_cons.mp hy with rfl | hy
  · exact (hc.symm _ _).mpr (hb.before x hx)
  · exact hcross x hx y hy

theorem Between.ne_zero (hb : Between cmp u k) (hx : x ∈ (k.plug nil).toList) : cmp u x.2 ≠ 0 := by
  rw [RedBlack.Context.toList_plug, RbTree.toList, append_nil, mem_append] at hx
  exact hx.elim (fun h => (hb.before x h).ne') fun h => (hb.after x h).ne

/-- The three outcomes: an equal element is there and nothing changes, there is no memory and
nothing changes, or the new node is linked. -/
theorem orderedCollectionInsert_spec
    (hc : Consistent tree.userStructCompare) (ht : Holds tree t) {allocatePool : Option Nat}
    (ha : ∀ a, allocatePool = some a → tree.nodes.read a = none) (u : V) :
    (∃ x ∈ t.toList, tree.userStructCompare u x.2 = 0 ∧
      orderedCollectionInsert tree allocatePool u = some (tree, .alreadyStarted, some x.1)) ∨
    (∀ x ∈ t.toList, tree.userStructCompare u x.2 ≠ 0) ∧ (allocatePool = none ∧
          orderedCollectionInsert tree allocatePool u = some (tree, .outOfResources, none) ∨
        ∃ a root nodes t', allocatePool = some a ∧ orderedCollectionInsert tree allocatePool u =
            some ({ tree with root, nodes }, .success, some a) ∧
          Holds { tree with root, nodes } t' ∧ t'.toList.Perm ((a,u) :: t.toList)) := by
  have hsearch := collisionLoop_spec (u := u) (i := 0) hc t top ht.represents ht.sorted
    (Nat.lt_of_lt_of_eq (Nat.lt_succ_self _) ht.represents.fuel_eq.symm) trivial ⟨nofun, nofun⟩
  rw [← ht.represents.root] at hsearch
  change Searched _ u t (collisionLoop _ _ u _ _ none 0) at hsearch
  generalize hl : collisionLoop tree.userStructCompare tree.nodes u (fuel tree.nodes) tree.root
    none 0 = r at hsearch
  cases hsearch with
  | collision parent hm h0 =>
    refine .inl ⟨_, hm, h0, ?_⟩
    simp only [orderedCollectionInsert, hl, bind_eq_bind, bind_some]
    rfl
  | hole hk hres hb =>
    subst hk
    refine .inr ⟨fun x hx => hb.ne_zero hx, ?_⟩
    cases allocatePool with
    | none =>
      refine .inl ⟨rfl, ?_⟩
      simp only [orderedCollectionInsert, hl, bind_eq_bind, bind_some]
      rfl
    | some a =>
      obtain ⟨root,nodes,t',he,hr,hrb,hlist⟩ :=
        insertNode_spec (u := u) ht.represents ht.isRedBlack (ha a rfl) hres
      refine .inr ⟨a, root, nodes, t', rfl, ?_, ⟨hr, hrb, ?_⟩, ?_⟩
      · simp only [orderedCollectionInsert, hl, bind_eq_bind, bind_some, he]
        rfl
      · rw [Sorted, hlist]
        exact hb.sorted hc ht.sorted a
      · rw [hlist, RedBlack.Context.toList_plug, RbTree.toList, append_nil]
        exact perm_middle

end Liano.OrderedCollection
