import Liano.OrderedCollection.Delete
import Liano.Lib.Run
import Mathlib.Data.List.Pairwise

/-! Every sequence of insertions and deletions from the empty collection: the tree is a red-black
tree in strict order with consistent links, and links exactly what the caller has put in and not
taken out. -/
namespace Liano.OrderedCollection
open RedBlack (Side Color RbTree Context)
open RedBlack.RbTree (nil branch)
open RedBlack.Context (top step)
open Run (Reaches)

variable {V K : Type}

inductive InTree (tree : RedBlackTree V K) : Nat → Prop
  | root {a : Nat} (hr : tree.root = some a) : InTree tree a
  | child {a b : Nat} {n : RedBlackTreeNode V} (s : Side) (ha : InTree tree a)
      (hn : tree.nodes.read a = some n) (hb : n.child s = some b) : InTree tree b

/-- Each link has its inverse: a child's `Parent`, a child of a `Parent`, and no `Parent` at the
root alone. -/
structure LinksConsistent (tree : RedBlackTree V K) : Prop where
  down : ∀ a n s b, tree.nodes.read a = some n → n.child s = some b →
    ∃ m, tree.nodes.read b = some m ∧ m.parent = some a
  up : ∀ a n p, tree.nodes.read a = some n → n.parent = some p →
    ∃ m s, tree.nodes.read p = some m ∧ m.child s = some a
  root : ∀ a n, tree.nodes.read a = some n → (n.parent = none ↔ tree.root = some a)

theorem map_cells (p : Option Nat) (t : RbTree (Nat × V)) :
    (cells p t).map (fun c => (c.1,c.2.userStruct)) = t.toList := by
  induction t generalizing p with
  | nil => rfl
  | node c l x r ihl ihr =>
    simp only [cells, Multiset.map_add, Multiset.map_singleton, ihl, ihr, RbTree.toList]
    rw [← Multiset.coe_add, ← Multiset.cons_coe, ← Multiset.singleton_add]
    abel

variable {t : RbTree (Nat × V)}

/-- A node of the heap is a node of the tree, with the links that its place in the tree gives it. -/
theorem Represents.exists_plug {h : Nodes V} {root : Option Nat}
    (hr : Represents h root t) {a : Nat} {n : RedBlackTreeNode V} (hn : h.read a = some n)
    (s : Side) : ∃ k c u v w, t = Context.plug k (branch s c u (a,v) w) ∧
      n = sided s v (parentPtr k) (ptr u) (ptr w) c := by
  have hm : (a,n.userStruct) ∈ t.toList := by
    have hcell := Multiset.mem_map_of_mem (fun c => (c.1,c.2.userStruct))
      (Heap.mem_bag_of_read hn)
    rw [hr.bag, map_cells] at hcell
    exact hcell
  obtain ⟨k,c,l,r,rfl⟩ := RedBlack.Context.exists_plug_of_mem hm
  obtain ⟨u,w,he⟩ := RedBlack.RbTree.exists_branch s c l (a,n.userStruct) r
  rw [he] at hr ⊢
  exact ⟨k, c, u, n.userStruct, w, rfl, Option.some.inj (hn.symm.trans hr.read)⟩

theorem Represents.nodup {h : Nodes V} {root : Option Nat}
    (hr : Represents h root t) : (t.toList.map Prod.fst).Nodup := by
  have hn : (h.bag.map Prod.fst).Nodup := h.nodup
  have he : h.bag.map Prod.fst = ((t.toList.map Prod.fst : List Nat) : Multiset Nat) := by
    rw [← Multiset.map_coe, ← map_cells none, Multiset.map_map, hr.bag]
    rfl
  rw [he] at hn
  exact hn

variable {tree : RedBlackTree V K}

theorem Represents.linksConsistent (hr : Represents tree.nodes tree.root t) : LinksConsistent tree := by
  constructor
  · intro a n s b hn hb
    obtain ⟨k,c,u,v,w,rfl,rfl⟩ := hr.exists_plug hn s
    rw [sided_near] at hb
    obtain ⟨c',u1,v',u2,rfl⟩ := exists_of_ptr hb .left
    have hread := Represents.read (k := step s c (a,v) w k) hr
    exact ⟨_, hread, by rw [sided_parent, parentPtr_step]⟩
  · intro a n p hn hp
    obtain ⟨k,c,u,v,w,rfl,rfl⟩ := hr.exists_plug hn .left
    cases k with
    | top => cases hp
    | step s c' y o up =>
      cases hp
      have hread := Represents.read (k := up) hr
      exact ⟨_, s, hread, by rw [sided_near, ptr_branch]⟩
  · intro a n hn
    obtain ⟨k,c,u,v,w,rfl,rfl⟩ := hr.exists_plug hn .left
    rw [sided_parent, eq_comm (a := tree.root), ← ptr_branch .left c u w (a,v), hr.root_eq_iff]
    cases k with
    | top => simp [parentPtr]
    | step s c' y o up => simp

theorem inTree_of_plug (k : Context (Nat × V)) {c : Color} {l r : RbTree (Nat × V)} {x : Nat × V}
    (hr : Represents tree.nodes tree.root (k.plug (.node c l x r))) : InTree tree x.1 := by
  induction k generalizing c l x r with
  | top => exact .root hr.root
  | step s c' y o up ih =>
    have hread := Represents.read (k := up) hr
    refine .child s ?_ hread (sided_near ..)
    cases s with
    | left => exact ih (c := c') hr
    | right => exact ih (c := c') hr

theorem inTree_iff (hr : Represents tree.nodes tree.root t) {a : Nat} :
    InTree tree a ↔ ∃ v, (a,v) ∈ t.toList := by
  constructor
  · intro h
    have hread : ∃ n, tree.nodes.read a = some n := by
      induction h with
      | root ha =>
        obtain ⟨c,u,v,w,rfl⟩ := exists_of_ptr (hr.root.symm.trans ha) .left
        exact ⟨_, Represents.read (k := top) hr⟩
      | child s _ hn hb _ =>
        obtain ⟨m,hm,_⟩ := hr.linksConsistent.down _ _ _ _ hn hb
        exact ⟨m, hm⟩
    obtain ⟨n,hn⟩ := hread
    obtain ⟨k,c,u,v,w,rfl,_⟩ := hr.exists_plug hn .left
    refine ⟨v, ?_⟩
    rw [RedBlack.Context.toList_plug]
    simp [branch, RbTree.toList]
  · rintro ⟨v,hm⟩
    obtain ⟨k,c,l,r,rfl⟩ := RedBlack.Context.exists_plug_of_mem hm
    exact inTree_of_plug k hr

/-- A collection in use: `linked` is what the caller has put in and not taken out, each user
structure with the node that links it. -/
structure CollectionRun (V K : Type) where
  tree : RedBlackTree V K
  linked : List (Nat × V)

inductive CollectionAction (V : Type)
  | insert (allocatePool : Option Nat) (userStruct : V)
  | delete (node : Nat)

def collectionStep (r : CollectionRun V K) : CollectionAction V → Option (CollectionRun V K)
  | .insert allocatePool userStruct => do
      let (tree,status,node) ← orderedCollectionInsert r.tree allocatePool userStruct
      match status, node with
      | .success, some a => return ⟨tree, (a,userStruct) :: r.linked⟩
      | _, _ => return ⟨tree, r.linked⟩
  | .delete node => do
      let (tree,_) ← orderedCollectionDelete r.tree node
      return ⟨tree, r.linked.filter (·.1 ≠ node)⟩

/-- `AllocatePool` returns memory that is not in use, and the caller deletes nodes of the tree. -/
def Legal (r : CollectionRun V K) : CollectionAction V → Prop
  | .insert allocatePool _ => ∀ a, allocatePool = some a → r.tree.nodes.read a = none
  | .delete node => InTree r.tree node

structure RunInv (cmp : V → V → Int) (r : CollectionRun V K) (t : RbTree (Nat × V)) : Prop where
  compare : r.tree.userStructCompare = cmp
  holds : Holds r.tree t
  contents : t.toList.Perm r.linked

variable {cmp : V → V → Int}

theorem insert_step (hc : Consistent cmp) {r : CollectionRun V K} (hi : RunInv cmp r t)
    {allocatePool : Option Nat} {u : V} (hl : Legal r (.insert allocatePool u)) :
    ∃ r' t', collectionStep r (.insert allocatePool u) = some r' ∧ RunInv cmp r' t' := by
  rcases orderedCollectionInsert_spec (hi.compare ▸ hc) hi.holds hl u with
    ⟨x, _, _, he⟩ | ⟨_, ⟨_, he⟩ | ⟨a, root, nodes, t', _, he, hh, hp⟩⟩
  · refine ⟨r, t, ?_, hi⟩
    simp only [collectionStep, he, Option.bind_eq_bind, Option.bind_some]
    rfl
  · refine ⟨r, t, ?_, hi⟩
    simp only [collectionStep, he, Option.bind_eq_bind, Option.bind_some]
    rfl
  refine ⟨⟨{ r.tree with root, nodes }, (a,u) :: r.linked⟩, t', ?_, hi.compare, hh,
    hp.trans (hi.contents.cons _)⟩
  simp only [collectionStep, he, Option.bind_eq_bind, Option.bind_some]
  rfl

theorem delete_step {r : CollectionRun V K}
    (hi : RunInv cmp r t) {node : Nat} (hl : Legal r (.delete node)) :
    ∃ r' t', collectionStep r (.delete node) = some r' ∧ RunInv cmp r' t' := by
  obtain ⟨v,hm⟩ := (inTree_iff hi.holds.represents).mp hl
  obtain ⟨root,nodes,t',he,hh,hp⟩ := orderedCollectionDelete_spec hi.holds hm
  refine ⟨⟨{ r.tree with root, nodes }, r.linked.filter (·.1 ≠ node)⟩, t', ?_, hi.compare, hh, ?_⟩
  · simp only [collectionStep, he, Option.bind_eq_bind, Option.bind_some]
    rfl
  · have hnodup := (hp.map Prod.fst).nodup hi.holds.represents.nodup
    have hother : ∀ y ∈ t'.toList, y.1 ≠ node := by
      intro y hy hn
      have hm := List.mem_map_of_mem (f := Prod.fst) hy
      rw [hn] at hm
      exact (List.nodup_cons.mp hnodup).1 hm
    have hself : t'.toList.filter (·.1 ≠ node) = t'.toList :=
      List.filter_eq_self.mpr fun y hy => decide_eq_true (hother y hy)
    have hf := (hi.contents.symm.trans hp).filter (·.1 ≠ node)
    rw [List.filter_cons_of_neg (by simp), hself] at hf
    exact hf.symm

theorem collectionStep_spec (hc : Consistent cmp) {r : CollectionRun V K} (hi : RunInv cmp r t)
    {a : CollectionAction V} (hl : Legal r a) : ∃ r' t', collectionStep r a = some r' ∧ RunInv cmp r' t' := by
  cases a with
  | insert allocatePool u => exact insert_step hc hi hl
  | delete node => exact delete_step hi hl

theorem init_inv (cmp : V → V → Int) (keyCompare : K → V → Int) :
    RunInv cmp ⟨orderedCollectionInit cmp keyCompare, []⟩ nil :=
  ⟨rfl, ⟨⟨rfl, rfl⟩, ⟨rfl, 0, rfl⟩, List.Pairwise.nil⟩, List.Perm.refl _⟩

theorem eq_of_compare_zero (hc : Consistent cmp)
    (hs : Sorted cmp t) {x y : Nat × V} (hx : x ∈ t.toList) (hy : y ∈ t.toList) {u : V}
    (h1 : cmp u x.2 = 0) (h2 : cmp u y.2 = 0) : x = y := by
  have hle : ∀ {a b : V}, cmp u a = 0 → cmp u b = 0 → ¬ cmp a b < 0 := by
    intro a b ha hb hlt
    have hbu : cmp b u ≤ 0 := not_lt.mp fun h => ((hc.symm u b).mpr h).ne hb
    exact absurd (hc.trans b u a hbu ha.le) (not_le.mpr ((hc.symm a b).mp hlt))
  by_contra hne
  have hsym : t.toList.Pairwise fun x y => cmp x.2 y.2 < 0 ∨ cmp y.2 x.2 < 0 := hs.imp .inl
  have : Std.Symm fun x y : Nat × V => cmp x.2 y.2 < 0 ∨ cmp y.2 x.2 < 0 := ⟨fun _ _ h => h.symm⟩
  rcases hsym.forall hx hy hne with h | h
  · exact hle h1 h2 h
  · exact hle h2 h1 h

/-- In every state reached from the empty collection the tree is a red-black tree in strict order
with consistent links over exactly the linked user structures; every legal operation completes;
an insertion collides exactly with an equal element, which it names and changes nothing; and a
deletion hands back what its node linked. -/
theorem orderedCollection_runs (cmp : V → V → Int) (keyCompare : K → V → Int)
    (hc : Consistent cmp) (r : CollectionRun V K)
    (hr : Reaches collectionStep Legal ⟨orderedCollectionInit cmp keyCompare, []⟩ r) :
    (∃ t, Represents r.tree.nodes r.tree.root t ∧ t.IsRedBlack ∧ Sorted cmp t ∧ t.toList.Perm r.linked) ∧
    LinksConsistent r.tree ∧ (∀ a, Legal r a → (collectionStep r a).isSome) ∧
    (∀ allocatePool u, Legal r (.insert allocatePool u) → (∀ x ∈ r.linked, cmp u x.2 = 0 →
        orderedCollectionInsert r.tree allocatePool u = some (r.tree, .alreadyStarted, some x.1)) ∧
      ((∀ x ∈ r.linked, cmp u x.2 ≠ 0) → ∀ tree node,
        orderedCollectionInsert r.tree allocatePool u ≠ some (tree, .alreadyStarted, node))) ∧
    (∀ x ∈ r.linked, ∃ tree, orderedCollectionDelete r.tree x.1 = some (tree,x.2)) := by
  obtain ⟨t,hi⟩ : ∃ t, RunInv cmp r t := by
    refine Reaches.invariant (I := fun r => ∃ t, RunInv cmp r t) hr ?_ ?_
    · exact ⟨nil, init_inv cmp keyCompare⟩
    · rintro s a s' ⟨t,hi⟩ hl hs
      obtain ⟨r',t',he,hi'⟩ := collectionStep_spec hc hi hl
      cases he.symm.trans hs
      exact ⟨t', hi'⟩
  have hcmp := hi.compare
  subst hcmp
  refine ⟨⟨t, hi.holds.represents, hi.holds.isRedBlack, hi.holds.sorted, hi.contents⟩,
    hi.holds.represents.linksConsistent, ?_, ?_, ?_⟩
  · intro a hl
    obtain ⟨r',_,he,_⟩ := collectionStep_spec hc hi hl
    rw [he]
    rfl
  · intro allocatePool u hl
    rcases orderedCollectionInsert_spec hc hi.holds hl u with ⟨y,hy,h0,he⟩ | ⟨hnone,h⟩
    · refine ⟨fun x hx hx0 => ?_, fun hne => absurd h0 (hne y (hi.contents.mem_iff.mp hy))⟩
      rw [eq_of_compare_zero hc hi.holds.sorted (hi.contents.mem_iff.mpr hx) hy hx0 h0]
      exact he
    · refine ⟨fun x hx hx0 => absurd hx0 (hnone x (hi.contents.mem_iff.mpr hx)), ?_⟩
      rintro _ tree node hcol
      rcases h with ⟨_,he⟩ | ⟨a,root,nodes,t',_,he,_⟩
      · rw [he] at hcol
        simp at hcol
      · rw [he] at hcol
        simp at hcol
  · intro x hx
    obtain ⟨root,nodes,t',he,_⟩ := orderedCollectionDelete_spec hi.holds (hi.contents.mem_iff.mpr hx)
    exact ⟨_, he⟩

def natCompare (a b : Nat) : Int := (a : Int) - b

theorem natCompare_consistent : Consistent natCompare :=
  ⟨fun a b => by unfold natCompare; omega, fun a b c => by unfold natCompare; omega⟩

def emptyRun : CollectionRun Nat Nat := ⟨orderedCollectionInit natCompare natCompare, []⟩

def insertTwoDeleteRoot : List (CollectionAction Nat) :=
  [.insert (some 0x1000) 5, .insert (some 0x2000) 3, .delete 0x1000]

theorem insertTwoDeleteRoot_legal : Run.Along collectionStep Legal emptyRun insertTwoDeleteRoot := by
  refine ⟨?_, ?_, ?_, trivial⟩
  · rintro _ ⟨⟩
    rfl
  · rintro _ ⟨⟩
    rfl
  · exact .root rfl

def insertTwoDeleteRootEnd : CollectionRun Nat Nat :=
  (Run.run collectionStep emptyRun insertTwoDeleteRoot).get rfl

theorem orderedCollection_runs_insertTwoDeleteRoot : LinksConsistent insertTwoDeleteRootEnd.tree ∧
      orderedCollectionInsert insertTwoDeleteRootEnd.tree none 3 =
        some (insertTwoDeleteRootEnd.tree, .alreadyStarted, some 0x2000) := by
  have hr := Run.reaches_of_run_along (Option.some_get
    (x := Run.run collectionStep emptyRun insertTwoDeleteRoot) rfl).symm insertTwoDeleteRoot_legal
  obtain ⟨_,hlinks,_,hinsert,_⟩ := orderedCollection_runs natCompare natCompare natCompare_consistent _ hr
  exact ⟨hlinks, (hinsert none 3 nofun).1 (0x2000,3) (List.mem_singleton.mpr rfl) rfl⟩

end Liano.OrderedCollection
