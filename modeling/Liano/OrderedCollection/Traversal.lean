import Liano.OrderedCollection.Runs

/-! The walks over a collection: from a node to the next one, through all of them in order, and
through them while some are deleted. -/
namespace Liano.OrderedCollection

open Option (bind_eq_bind bind_some map_some)
open List hiding nil

open RedBlack (Side Color RbTree Context)
open RedBlack.RbTree (nil node branch)
open RedBlack.Context (top step)

variable {V K : Type}

/-- `while (Walk != NULL && Child == Walk->Right) { .. }`, or with the left; it starts with
`Walk = Child->Parent`. -/
def climbLoop (s : Side) (h : Nodes V) : Nat → Nat → Option (Option Nat)
  | 0, _ => none
  | fuel+1, child => do
      match (← h.read child).parent with
      | none => return none
      | some walk =>
        if (← h.read walk).child s = some child then climbLoop s h fuel walk else return some walk

/-- The neighbour of a node on a side: the nearest of the subtree there, or the first ancestor that
has the node on its other side. -/
def redBlackTreeNeighbour (s : Side) (h : Nodes V) (node : Option Nat) : Option (Option Nat) :=
  match node with
  | none => some none
  | some a => do
      match (← h.read a).child s with
      | some walk => (extremeLoop s.other h (fuel h) walk).map some
      | none => climbLoop s h (fuel h) a

def orderedCollectionNext (h : Nodes V) (node : Option Nat) : Option (Option Nat) :=
  redBlackTreeNeighbour .right h node

def orderedCollectionPrev (h : Nodes V) (node : Option Nat) : Option (Option Nat) :=
  redBlackTreeNeighbour .left h node

def visitLoop (s : Side) (h : Nodes V) : Nat → Option Nat → Option (List Nat)
  | _, none => some []
  | 0, some _ => none
  | fuel+1, some a => do
      let next ← redBlackTreeNeighbour s h (some a)
      let visited ← visitLoop s h fuel next
      return a :: visited

/-- The same towards greater elements, where the caller deletes what it chooses to, after it has
fetched the next node. -/
def deleteLoopOver (chosen : Nat → Bool) :
    Nat → RedBlackTree V K → Option Nat → Option (List Nat × RedBlackTree V K)
  | _, tree, none => some ([], tree)
  | 0, _, some _ => none
  | fuel+1, tree, some a => do
      let next ← orderedCollectionNext tree.nodes (some a)
      let tree ← if chosen a then (orderedCollectionDelete tree a).map Prod.fst else some tree
      let (visited,tree) ← deleteLoopOver chosen fuel tree next
      return (a :: visited, tree)

variable {h : Nodes V} {root : Option Nat}
variable {fuel : Nat} {x : Nat × V} {tree : RedBlackTree V K}

theorem extremeLoop_spec (s : Side) (t : RbTree (Nat × V))
    (k : Context (Nat × V)) {a : Nat} (hr : Represents h root (k.plug t)) (ha : ptr t = some a)
    (hf : t.size ≤ fuel) : ∃ x rest, t.listTo s.other = x :: rest ∧ extremeLoop s h fuel a = some x.1 := by
  induction t generalizing k a fuel with
  | nil => cases ha
  | node c l x r ihl ihr =>
    cases ha
    obtain ⟨near,far,he,hnear⟩ : ∃ near far, node c l x r = branch s c near x far ∧
        (near = l ∨ near = r) := by
      cases s with
      | left => exact ⟨l, r, rfl, .inl rfl⟩
      | right => exact ⟨r, l, rfl, .inr rfl⟩
    have hsize : near.size+1 ≤ fuel := by
      rw [he, RedBlack.RbTree.size_branch] at hf
      omega
    obtain ⟨fuel,rfl⟩ : ∃ m, fuel = m+1 := ⟨fuel - 1, by omega⟩
    rw [he] at hr ⊢
    have hread := hr.read
    rw [RbTree.listTo_other_branch]
    cases hp : ptr near with
    | none =>
      cases eq_nil_of_ptr hp
      refine ⟨x, far.listTo s.other, ?_, ?_⟩
      · cases s <;> rfl
      · simp only [extremeLoop, hread, bind_eq_bind, bind_some, sided_near, hp]
        rfl
    | some a' =>
      obtain ⟨y,rest,hlist,hloop⟩ : ∃ y rest, near.listTo s.other = y :: rest ∧
          extremeLoop s h fuel a' = some y.1 := by
        rcases hnear with rfl | rfl
        · exact ihl (step s c x far k) hr hp (by omega)
        · exact ihr (step s c x far k) hr hp (by omega)
      refine ⟨y, rest ++ x :: far.listTo s.other, by rw [hlist]; rfl, ?_⟩
      simp only [extremeLoop, hread, bind_eq_bind, bind_some, sided_near, hp]
      exact hloop

variable {t : RbTree (Nat × V)}

theorem climbLoop_spec (s : Side) (k : Context (Nat × V)) {a : Nat}
    (hr : Represents h root (k.plug t)) (ha : ptr t = some a)
    (hf : k.depth < fuel) : climbLoop s h fuel a = some ((k.beyond s).head?.map Prod.fst) := by
  induction k generalizing t a fuel with
  | top =>
    obtain ⟨fuel,rfl⟩ : ∃ m, fuel = m+1 := ⟨fuel - 1, by omega⟩
    obtain ⟨c,u,v,w,rfl⟩ := exists_of_ptr ha .left
    have hread := hr.read
    simp only [climbLoop, hread, bind_eq_bind, bind_some, sided_parent]
    rfl
  | step s' c' x o up ih =>
    obtain ⟨fuel,rfl⟩ : ∃ m, fuel = m+1 := ⟨fuel - 1, by omega⟩
    obtain ⟨c,u,v,w,rfl⟩ := exists_of_ptr ha .left
    have hread := hr.read
    have hwalk := Represents.read (k := up) hr
    simp only [climbLoop, hread, bind_eq_bind, bind_some, sided_parent, parentPtr, hwalk]
    rcases RedBlack.Side.eq_or_eq_other s' s with rfl | rfl
    · rw [sided_near, if_pos ha, RedBlack.Context.beyond, if_pos rfl]
      refine ih (t := branch s c' _ x o) hr (ptr_branch ..) ?_
      simp only [RedBlack.Context.depth] at hf
      omega
    have hne : ptr o ≠ some a := by
      exact fun he => Represents.ptr_ne (k := up) hr (.inl fun heq => by cases heq) he.symm
    rw [sided_far, if_neg hne, RedBlack.Context.beyond, if_neg (RedBlack.Side.other_ne s').symm]
    rfl

theorem eq_of_split {α : Type} {x : α} {pre post pre' post' : List α} (hn : (pre ++ x :: post).Nodup)
    (h : pre ++ x :: post = pre' ++ x :: post') : post = post' := by
  induction pre generalizing pre' with
  | nil =>
    cases pre' with
    | nil => exact (cons.inj h).2
    | cons y pre' =>
      obtain ⟨rfl,hpost⟩ := cons.inj h
      refine absurd ?_ (nodup_cons.mp hn).1
      rw [hpost]
      simp
  | cons y pre ih =>
    cases pre' with
    | nil =>
      obtain ⟨rfl,-⟩ := cons.inj h
      exact absurd (by simp) (nodup_cons.mp hn).1
    | cons y' pre' => exact ih (nodup_cons.mp hn).2 (cons.inj h).2

theorem Represents.nodup_listTo (hr : Represents h root t) (s : Side) : (t.listTo s).Nodup := by
  have hlist : t.toList.Nodup := List.Nodup.of_map _ hr.nodup
  cases s with
  | left => exact nodup_reverse.mpr hlist
  | right => exact hlist

variable {pre post : List (Nat × V)}

theorem redBlackTreeNeighbour_spec (s : Side) (hr : Represents h root t)
    (hl : t.listTo s = pre ++ x :: post) :
    redBlackTreeNeighbour s h (some x.1) = some (post.head?.map Prod.fst) := by
  have hmem : x ∈ t.toList := by
    rw [← RbTree.mem_listTo (s := s), hl]
    simp
  obtain ⟨k,c,l,r,rfl⟩ := RedBlack.Context.exists_plug_of_mem hmem
  obtain ⟨near,far,he⟩ := RedBlack.RbTree.exists_branch s c l x r
  have hnodup := hr.nodup_listTo s
  have hfuel := hr.fuel_eq
  rw [he] at hr hl hnodup hfuel
  have hsize := RedBlack.Context.depth_le_size k (branch s c near x far)
  rw [RedBlack.RbTree.size_branch] at hsize
  rw [RedBlack.Context.listTo_plug, RedBlack.RbTree.listTo_branch, append_assoc, append_assoc,
    cons_append, ← append_assoc] at hl
  have hpost : near.listTo s ++ k.beyond s = post := by
    refine eq_of_split ?_ hl
    rw [RedBlack.Context.listTo_plug, RedBlack.RbTree.listTo_branch, append_assoc, append_assoc,
      cons_append, ← append_assoc] at hnodup
    exact hnodup
  have hread := hr.read
  rw [← hpost]
  cases hp : ptr near with
  | none =>
    cases eq_nil_of_ptr hp
    have hclimb : climbLoop s h (fuel h) x.1 = _ :=
      climbLoop_spec s k (t := branch s c nil x far) hr (ptr_branch ..) (by omega)
    simp only [redBlackTreeNeighbour, hread, bind_eq_bind, bind_some, sided_near, hp, hclimb]
    cases s <;> rfl
  | some a =>
    have hnear : near.size ≤ fuel h := by omega
    obtain ⟨y,rest,hlist,hloop⟩ := extremeLoop_spec s.other near (step s c x far k) hr hp hnear
    rw [RedBlack.Side.other_other] at hlist
    simp only [redBlackTreeNeighbour, hread, bind_eq_bind, bind_some, sided_near, hp, hloop, hlist]
    rfl

theorem exists_split (s : Side) (hx : x ∈ t.toList) : ∃ pre post, t.listTo s = pre ++ x :: post :=
  append_of_mem (RbTree.mem_listTo.mpr hx)

theorem redBlackTreeNeighbour_inverse (s : Side) (hr : Represents h root t) (hx : x ∈ t.toList) {b : Nat}
    (hnext : redBlackTreeNeighbour s h (some x.1) = some (some b)) :
    redBlackTreeNeighbour s.other h (some b) = some (some x.1) := by
  obtain ⟨pre,post,hl⟩ := exists_split s hx
  rw [redBlackTreeNeighbour_spec s hr hl] at hnext
  cases post with
  | nil => cases hnext
  | cons y post =>
    cases hnext
    have hback : t.listTo s.other = post.reverse ++ y :: (x :: pre.reverse) := by
      rw [RbTree.listTo_other, hl]
      simp
    exact redBlackTreeNeighbour_spec s.other hr hback

theorem orderedCollectionNext_eq_iff (hr : Represents h root t) {y : Nat × V}
    (hx : x ∈ t.toList) (hy : y ∈ t.toList) : orderedCollectionNext h (some x.1) = some (some y.1) ↔
      orderedCollectionPrev h (some y.1) = some (some x.1) :=
  ⟨redBlackTreeNeighbour_inverse .right hr hx, redBlackTreeNeighbour_inverse .left hr hy⟩

theorem visitLoop_spec (s : Side) (hr : Represents h root t) (hl : t.listTo s = pre ++ post)
    (hf : post.length ≤ fuel) : visitLoop s h fuel (post.head?.map Prod.fst) = some (post.map Prod.fst) := by
  induction post generalizing pre fuel with
  | nil => cases fuel <;> rfl
  | cons x post ih =>
    obtain ⟨fuel,rfl⟩ : ∃ m, fuel = m+1 := ⟨fuel - 1, by simp at hf; omega⟩
    have hnext := redBlackTreeNeighbour_spec s hr hl
    have hl' : t.listTo s = (pre ++ [x]) ++ post := by
      rw [hl]
      simp
    have hrest := ih hl' (Nat.le_of_succ_le_succ hf)
    simp only [head?_cons, map_some, visitLoop, bind_eq_bind, hnext, bind_some, hrest]
    rfl

theorem extreme_spec (s : Side) (hr : Represents tree.nodes tree.root t) : (match tree.root with
      | none => some none
      | some a => (extremeLoop s.other tree.nodes (OrderedCollection.fuel tree.nodes) a).map some) =
    some ((t.listTo s).head?.map Prod.fst) := by
  rw [hr.root]
  cases hp : ptr t with
  | none =>
    rw [eq_nil_of_ptr hp]
    cases s <;> rfl
  | some a =>
    have hfuel : t.size ≤ fuel tree.nodes := by
      rw [hr.fuel_eq]
      exact Nat.le_succ _
    obtain ⟨x,rest,hlist,hloop⟩ := extremeLoop_spec s.other t top hr hp hfuel
    rw [RedBlack.Side.other_other] at hlist
    rw [hlist]
    simp only [hloop]
    rfl

theorem orderedCollectionMin_spec (hr : Represents tree.nodes tree.root t) :
    orderedCollectionMin tree = some (t.toList.head?.map Prod.fst) := extreme_spec .right hr

structure KeyConsistent (cmp : V → V → Int) (keyCompare : K → V → Int) : Prop where
  below : ∀ key a b, cmp a b < 0 → keyCompare key a ≤ 0 → keyCompare key b < 0
  above : ∀ key a b, cmp a b < 0 → 0 ≤ keyCompare key b → 0 < keyCompare key a

theorem findLoop_spec {cmp : V → V → Int} {keyCompare : K → V → Int}
    (hk : KeyConsistent cmp keyCompare) (key : K) (t : RbTree (Nat × V)) (k : Context (Nat × V))
    (hr : Represents h root (k.plug t)) (hs : Sorted cmp t) (hf : t.size < fuel) :
    findLoop keyCompare h key fuel (ptr t) =
      some ((t.toList.find? fun x => keyCompare key x.2 = 0).map Prod.fst) := by
  induction t generalizing k fuel with
  | nil =>
    obtain ⟨fuel,rfl⟩ : ∃ m, fuel = m+1 := ⟨fuel - 1, by omega⟩
    rfl
  | node c l x r ihl ihr =>
    obtain ⟨fuel,rfl⟩ : ∃ m, fuel = m+1 := ⟨fuel - 1, by omega⟩
    have hread := Represents.read (s := .left) hr
    simp only [RbTree.size] at hf
    obtain ⟨hsl,hsx,hlx⟩ := pairwise_append.mp hs
    obtain ⟨hxr,hsr⟩ := pairwise_cons.mp hsx
    have hsmaller : 0 ≤ keyCompare key x.2 → l.toList.find? (fun x => keyCompare key x.2 = 0) = none := by
      intro hle
      refine find?_eq_none.mpr fun y hy hzero => ?_
      have hpos := hk.above key _ _ (hlx y hy x mem_cons_self) hle
      exact hpos.ne' (of_decide_eq_true hzero)
    have hgreater : keyCompare key x.2 ≤ 0 → r.toList.find? (fun x => keyCompare key x.2 = 0) = none := by
      intro hle
      refine find?_eq_none.mpr fun y hy hzero => ?_
      have hneg := hk.below key _ _ (hxr y hy) hle
      exact hneg.ne (of_decide_eq_true hzero)
    simp only [ptr, findLoop, hread, bind_eq_bind, bind_some, sided_userStruct, RbTree.toList,
      find?_append, find?_cons]
    rcases lt_trichotomy (keyCompare key x.2) 0 with hlt | h0 | hgt
    · rw [if_neg hlt.ne, if_pos hlt, hgreater hlt.le]
      simp only [hlt.ne, decide_false, Option.or_none]
      exact ihl (step .left c x r k) hr hsl (by omega)
    · rw [if_pos h0, hsmaller h0.ge]
      simp [h0]
    · rw [if_neg hgt.ne', if_neg hgt.not_gt, hsmaller hgt.le]
      simp only [hgt.ne', decide_false, Option.none_or]
      exact ihr (step .right c x l k) hr hsr (by omega)

theorem toList_of_deleted {cmp : V → V → Int} (hc : Consistent cmp) {t' : RbTree (Nat × V)}
    (hs : Sorted cmp t) (hs' : Sorted cmp t')
    (hl : t.toList = pre ++ x :: post) (hp : t.toList.Perm (x :: t'.toList)) : t'.toList = pre ++ post := by
  have hperm : t'.toList.Perm (pre ++ post) := by
    rw [hl] at hp
    exact (perm_cons x).mp (hp.symm.trans perm_middle)
  have hpart : (pre ++ post).Pairwise fun x y => cmp x.2 y.2 < 0 := by
    rw [Sorted, hl] at hs
    exact hs.sublist (List.Sublist.append_left (sublist_cons_self x post) pre)
  refine hperm.eq_of_pairwise (fun a b _ _ hab hba => ?_) hs' hpart
  exact absurd ((hc.symm _ _).mp hab) hba.not_gt

/-- From a node on: every element from there is visited, whichever of them are deleted, and the rest stay. -/
theorem deleteLoopOver_spec (chosen : Nat → Bool)
    (hc : Consistent tree.userStructCompare) (ht : Holds tree t)
    (hl : t.toList = pre ++ post) (hf : post.length ≤ fuel) :
    ∃ tree' t', deleteLoopOver chosen fuel tree (post.head?.map Prod.fst) = some (post.map Prod.fst, tree') ∧
      Holds tree' t' ∧ t'.toList = pre ++ post.filter (fun x => !chosen x.1) := by
  induction post generalizing tree t pre fuel with
  | nil => exact ⟨tree, t, by cases fuel <;> rfl, ht, hl⟩
  | cons x post ih =>
    obtain ⟨fuel,rfl⟩ : ∃ m, fuel = m+1 := ⟨fuel - 1, by simp at hf; omega⟩
    have hnext : orderedCollectionNext tree.nodes (some x.1) = some (post.head?.map Prod.fst) :=
      redBlackTreeNeighbour_spec .right ht.represents hl
    have hlen : post.length ≤ fuel := Nat.le_of_succ_le_succ hf
    cases hx : chosen x.1 with
    | false =>
      have hl' : t.toList = (pre ++ [x]) ++ post := by
        rw [hl]
        simp
      obtain ⟨tree',t',hrun,hholds,hlist⟩ := ih hc ht hl' hlen
      refine ⟨tree', t', ?_, hholds, by rw [hlist]; simp [hx]⟩
      simp only [head?_cons, map_some, deleteLoopOver, bind_eq_bind, hnext,
        bind_some, hx, Bool.false_eq_true, if_false, hrun]
      rfl
    | true =>
      have hmem : x ∈ t.toList := by
        rw [hl]
        simp
      obtain ⟨root,nodes,t1,hdel,hholds1,hperm⟩ := orderedCollectionDelete_spec ht hmem
      have hl' := toList_of_deleted hc ht.sorted hholds1.sorted hl hperm
      have hc1 : Consistent ({ tree with root, nodes } : RedBlackTree V K).userStructCompare := hc
      obtain ⟨tree',t',hrun,hholds,hlist⟩ := ih hc1 hholds1 hl' hlen
      refine ⟨tree', t', ?_, hholds, by rw [hlist]; simp [hx]⟩
      simp only [head?_cons, map_some, deleteLoopOver, bind_eq_bind, hnext,
        bind_some, hx, if_true, hdel, map_some, hrun]
      rfl

/-- In a valid tree `Min` and then `Next` come to every element once, in ascending order, and then to
`NULL`; `Prev` undoes `Next`; a key is found exactly if an element equals it; and a traversal that fetches
the next node before it deletes one goes on to exactly the greater elements, in order. -/
theorem orderedCollection_traversal (tree : RedBlackTree V K) (t : RbTree (Nat × V))
    (hc : Consistent tree.userStructCompare) (ht : Holds tree t) :
    (t.toList.Pairwise (fun x y => tree.userStructCompare x.2 y.2 < 0) ∧ (t.toList.map Prod.fst).Nodup ∧
      ∀ a, InTree tree a ↔ a ∈ t.toList.map Prod.fst) ∧
    (∃ first, orderedCollectionMin tree = some first ∧ ∀ fuel ≥ t.toList.length,
      visitLoop .right tree.nodes fuel first = some (t.toList.map Prod.fst)) ∧
    (∀ a b, InTree tree a → InTree tree b → (orderedCollectionNext tree.nodes (some a) = some (some b) ↔
      orderedCollectionPrev tree.nodes (some b) = some (some a))) ∧
    (KeyConsistent tree.userStructCompare tree.keyCompare → ∀ key,
      (∃ x ∈ t.toList, tree.keyCompare key x.2 = 0 ∧ orderedCollectionFind tree key = some (some x.1)) ∨
        (∀ x ∈ t.toList, tree.keyCompare key x.2 ≠ 0) ∧ orderedCollectionFind tree key = some none) ∧
    ∀ (chosen : Nat → Bool) (pre post : List (Nat × V)) (x : Nat × V), t.toList = pre ++ x :: post →
      ∀ fuel ≥ (x :: post).length, ∃ tree' t',
        deleteLoopOver chosen fuel tree (some x.1) = some ((x :: post).map Prod.fst, tree') ∧
          Holds tree' t' ∧ t'.toList = pre ++ (x :: post).filter (fun y => !chosen y.1) := by
  have hin (a : Nat) : InTree tree a ↔ a ∈ t.toList.map Prod.fst := by
    rw [inTree_iff ht.represents, mem_map]
    exact ⟨fun ⟨v, hv⟩ => ⟨(a,v), hv, rfl⟩, fun ⟨x, hx, hxa⟩ => ⟨x.2, hxa ▸ hx⟩⟩
  refine ⟨⟨ht.sorted, ht.represents.nodup, hin⟩, ?_, ?_, ?_, ?_⟩
  · exact ⟨_, orderedCollectionMin_spec ht.represents, fun fuel hf =>
      visitLoop_spec .right ht.represents (nil_append _).symm hf⟩
  · intro a b ha hb
    obtain ⟨x,hx,rfl⟩ := mem_map.mp ((hin a).mp ha)
    obtain ⟨y,hy,rfl⟩ := mem_map.mp ((hin b).mp hb)
    exact orderedCollectionNext_eq_iff ht.represents hx hy
  · intro hk key
    have hfind : orderedCollectionFind tree key =
        some ((t.toList.find? fun x => tree.keyCompare key x.2 = 0).map Prod.fst) := by
      rw [orderedCollectionFind, ht.represents.root]
      refine findLoop_spec hk key t top ht.represents ht.sorted ?_
      rw [ht.represents.fuel_eq]
      exact Nat.lt_succ_self _
    rw [hfind]
    cases hf : t.toList.find? fun x => tree.keyCompare key x.2 = 0 with
    | none => exact .inr ⟨fun x hx hzero => find?_eq_none.mp hf x hx (decide_eq_true hzero), rfl⟩
    | some x =>
      have hzero := find?_some hf
      exact .inl ⟨x, mem_of_find?_eq_some hf, of_decide_eq_true hzero, rfl⟩
  · intro chosen pre post x hl fuel hf
    exact deleteLoopOver_spec chosen hc ht hl hf

theorem exists_runInv {cmp : V → V → Int} {keyCompare : K → V → Int} (hc : Consistent cmp) {r : CollectionRun V K}
    (hr : Run.Reaches collectionStep Legal ⟨orderedCollectionInit cmp keyCompare, []⟩ r) : ∃ t, RunInv cmp r t := by
  refine hr.invariant (I := fun r => ∃ t, RunInv cmp r t) ⟨nil, init_inv cmp keyCompare⟩ ?_
  rintro s a s' ⟨t,hi⟩ hl hs
  obtain ⟨r',t',he,hi'⟩ := collectionStep_spec hc hi hl
  cases he.symm.trans hs
  exact ⟨t', hi'⟩

/-- In every state of a run `Max` and then `Prev` come to every element once, in descending order, and the
collection is empty exactly if nothing is linked. -/
theorem orderedCollectionMax_runs (cmp : V → V → Int) (keyCompare : K → V → Int) (hc : Consistent cmp)
    (r : CollectionRun V K) (hr : Run.Reaches collectionStep Legal ⟨orderedCollectionInit cmp keyCompare, []⟩ r) :
    (orderedCollectionIsEmpty r.tree = true ↔ r.linked = []) ∧ ∃ last, ∃ xs : List (Nat × V),
      orderedCollectionMax r.tree = some last ∧ xs.Perm r.linked ∧ xs.Pairwise (fun x y => cmp y.2 x.2 < 0) ∧
      (∀ x ∈ xs, orderedCollectionUserStruct r.tree x.1 = some x.2) ∧
      ∀ fuel ≥ xs.length, visitLoop .left r.tree.nodes fuel last = some (xs.map Prod.fst) := by
  obtain ⟨t,hi⟩ := exists_runInv hc hr
  have hrep := hi.holds.represents
  refine ⟨?_, _, t.listTo .left, extreme_spec .left hrep, (reverse_perm _).trans hi.contents,
    pairwise_reverse.mpr (hi.compare ▸ hi.holds.sorted), fun x hx => ?_,
    fun fuel hf => visitLoop_spec .left hrep (nil_append _).symm hf⟩
  · rw [orderedCollectionIsEmpty, hrep.root, Option.isNone_iff_eq_none]
    have hlen := hi.contents.length_eq
    cases t with
    | nil => exact iff_of_true rfl (nil_perm.mp hi.contents)
    | node c l x s =>
      refine iff_of_false (Option.some_ne_none _) fun h => ?_
      simp [h, RbTree.toList] at hlen
  · obtain ⟨k,c,l,s,rfl⟩ := RedBlack.Context.exists_plug_of_mem (RbTree.mem_listTo.mp hx)
    exact congrArg (Option.map _) (Represents.read (s := .left) hrep)

def insertedTwo : CollectionRun Nat Nat := (Run.run collectionStep emptyRun (insertTwoDeleteRoot.take 2)).get rfl

/-- The greater of the two inserted elements comes first. -/
theorem orderedCollectionMax_runs_insertedTwo : orderedCollectionIsEmpty insertedTwo.tree = false ∧
    ∃ last, ∃ xs : List (Nat × Nat), orderedCollectionMax insertedTwo.tree = some last ∧
      xs.Perm insertedTwo.linked ∧ xs.Pairwise (fun x y => natCompare y.2 x.2 < 0) ∧
      (∀ x ∈ xs, orderedCollectionUserStruct insertedTwo.tree x.1 = some x.2) ∧
      visitLoop .left insertedTwo.tree.nodes 2 last = some (xs.map Prod.fst) ∧
      xs.map Prod.fst = [0x1000, 0x2000] := by
  obtain ⟨hempty,last,xs,hmax,hperm,hsorted,huser,hvisit⟩ := orderedCollectionMax_runs natCompare natCompare
    natCompare_consistent insertedTwo (Run.reaches_of_run_along (Option.some_get
      (x := Run.run collectionStep emptyRun (insertTwoDeleteRoot.take 2)) rfl).symm
        ⟨insertTwoDeleteRoot_legal.1, insertTwoDeleteRoot_legal.2.1, trivial⟩)
  have hlinked : insertedTwo.linked ≠ [] := by decide
  have hvisited := hvisit 2 (hperm.length_eq.trans rfl).le
  obtain rfl := Option.some.inj (hmax.symm.trans (show _ = some (some 0x1000) from rfl))
  refine ⟨Bool.eq_false_of_not_eq_true fun h => hlinked (hempty.mp h), _, xs, hmax, hperm, hsorted, huser,
    hvisited, ?_⟩
  exact Option.some.inj (hvisited.symm.trans (show _ = some [0x1000, 0x2000] from rfl))

def pairTree : RbTree (Nat × Nat) := node .black (node .red nil (0x2000,3) nil) (0x1000,5) nil

def pairCollection : RedBlackTree Nat Nat where
  root := some 0x1000
  userStructCompare := natCompare
  keyCompare := natCompare
  nodes := ⟨[(0x1000, ⟨5, none, some 0x2000, none, .black⟩), (0x2000, ⟨3, some 0x1000, none, none, .red⟩)],
    by decide⟩

theorem pairCollection_holds : Holds pairCollection pairTree where
  represents := ⟨rfl, rfl⟩
  isRedBlack := ⟨rfl, 1, 0, rfl, ⟨0, rfl, rfl, rfl, fun _ => ⟨rfl, rfl⟩⟩, rfl, nofun⟩
  sorted := by
    rw [Sorted]
    decide

theorem orderedCollection_traversal_pair : (∃ first, orderedCollectionMin pairCollection = some first ∧
      visitLoop .right pairCollection.nodes 2 first = some [0x2000, 0x1000]) ∧
    (∃ x ∈ pairTree.toList, natCompare 3 x.2 = 0 ∧ orderedCollectionFind pairCollection 3 = some (some x.1)) ∧
    ∃ tree' t', deleteLoopOver (fun _ => true) 2 pairCollection (some 0x2000) =
        some ([0x2000, 0x1000], tree') ∧ Holds tree' t' ∧ t'.toList = [] := by
  obtain ⟨-,⟨first,hmin,hvisit⟩,-,hfind,hdelete⟩ :=
    orderedCollection_traversal pairCollection pairTree natCompare_consistent pairCollection_holds
  refine ⟨⟨first, hmin, hvisit 2 le_rfl⟩, ?_, ?_⟩
  · have hkey : KeyConsistent natCompare natCompare :=
      ⟨fun key a b => by unfold natCompare; omega, fun key a b => by unfold natCompare; omega⟩
    exact (hfind hkey 3).resolve_right fun hnone => hnone.1 (0x2000,3) (mem_cons_self ..) rfl
  · exact hdelete (fun _ => true) [] [(0x1000,5)] (0x2000,3) rfl 2 le_rfl

end Liano.OrderedCollection
