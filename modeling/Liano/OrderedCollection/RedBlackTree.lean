import Liano.Lib.Heap
import Liano.Lib.RedBlack
import Liano.Efi

/-! `BaseOrderedCollectionRedBlackTreeLib.c`: nodes are cells of a heap and pointers are
addresses, NULL being `none`. A function returns `none` where the code would fail an `ASSERT` or
follow a pointer that leads to no node; a loop gets the number of allocated nodes plus one as fuel.
Mirrored branches are one definition with the side as a parameter. -/
namespace Liano.OrderedCollection
open RedBlack (Side)

abbrev RedBlackTreeColor := RedBlack.Color

structure RedBlackTreeNode (V : Type) where
  userStruct : V
  parent : Option Nat
  left : Option Nat
  right : Option Nat
  color : RedBlackTreeColor
deriving DecidableEq, Repr

variable {V K : Type}

namespace RedBlackTreeNode

def child (n : RedBlackTreeNode V) : Side → Option Nat
  | .left => n.left
  | .right => n.right

def setChild (n : RedBlackTreeNode V) (s : Side) (p : Option Nat) : RedBlackTreeNode V := match s with
  | .left => { n with left := p }
  | .right => { n with right := p }

def setParent (n : RedBlackTreeNode V) (p : Option Nat) : RedBlackTreeNode V := { n with parent := p }

def setColor (n : RedBlackTreeNode V) (c : RedBlackTreeColor) : RedBlackTreeNode V := { n with color := c }

end RedBlackTreeNode

abbrev Nodes (V : Type) := Heap (RedBlackTreeNode V)

/-- `RED_BLACK_TREE`, with the pool its nodes are allocated in. -/
structure RedBlackTree (V K : Type) where
  root : Option Nat
  userStructCompare : V → V → Int
  keyCompare : K → V → Int
  nodes : Nodes V

def orderedCollectionInit (userStructCompare : V → V → Int) (keyCompare : K → V → Int) :
    RedBlackTree V K := { root := none, userStructCompare, keyCompare, nodes := Heap.empty }

section
variable (tree : RedBlackTree V K)

def orderedCollectionIsEmpty : Bool := tree.root.isNone

def orderedCollectionUserStruct (node : Nat) : Option V :=
  (tree.nodes.read node).map (·.userStruct)

def fuel (nodes : Nodes V) : Nat := nodes.cells.length+1

/-- `if (Node != NULL) { Node->Parent = Parent; }` -/
def setParentOf (h : Nodes V) (node parent : Option Nat) : Option (Nodes V) := match node with
  | none => some h
  | some a => h.modify a (·.setParent parent)

/-- Put `new` where `Parent`, or the root pointer if there is no parent, pointed to `old`. -/
def replaceChild (h : Nodes V) (newRoot parent : Option Nat) (old : Nat) (new : Option Nat) :
    Option (Nodes V × Option Nat) := match parent with
  | none => some (h,new)
  | some p => do
      let parentNode ← h.read p
      let h ← h.modify p (·.setChild (if parentNode.left = some old then .left else .right) new)
      return (h,newRoot)

/-- Rotate around `pivot` so that its child on side `up` takes its place. -/
def redBlackTreeRotate (up : Side) (h : Nodes V) (pivot : Nat) (newRoot : Option Nat) :
    Option (Nodes V × Option Nat) := do
  let pivotNode ← h.read pivot
  let parent := pivotNode.parent
  let child ← pivotNode.child up
  let grandChild := (← h.read child).child up.other
  let h ← h.modify pivot (·.setChild up grandChild)
  let h ← setParentOf h grandChild (some pivot)
  let h ← h.modify child (·.setParent parent)
  let (h,newRoot) ← replaceChild h newRoot parent pivot (some child)
  let h ← h.modify child (·.setChild up.other (some pivot))
  let h ← h.modify pivot (·.setParent (some child))
  return (h,newRoot)

def redBlackTreeRotateRight (h : Nodes V) (pivot : Nat) (newRoot : Option Nat) :
    Option (Nodes V × Option Nat) := redBlackTreeRotate .left h pivot newRoot

def redBlackTreeRotateLeft (h : Nodes V) (pivot : Nat) (newRoot : Option Nat) :
    Option (Nodes V × Option Nat) := redBlackTreeRotate .right h pivot newRoot

def nodeIsNullOrBlack (h : Nodes V) (node : Option Nat) : Option Bool := match node with
  | none => some true
  | some a => (h.read a).map fun n => n.color = .black

def findLoop (keyCompare : K → V → Int) (h : Nodes V) (standaloneKey : K) :
    Nat → Option Nat → Option (Option Nat)
  | 0, _ => none
  | _+1, none => some none
  | fuel+1, some node => do
      let n ← h.read node
      let result := keyCompare standaloneKey n.userStruct
      if result = 0 then some (some node)
      else findLoop keyCompare h standaloneKey fuel (n.child (if result < 0 then .left else .right))

def orderedCollectionFind (standaloneKey : K) : Option (Option Nat) :=
  findLoop tree.keyCompare tree.nodes standaloneKey (fuel tree.nodes) tree.root

/-- `while (Node->Left != NULL) { Node = Node->Left; }`, or to the right. -/
def extremeLoop (s : Side) (h : Nodes V) : Nat → Nat → Option Nat
  | 0, _ => none
  | fuel+1, node => do
      match (← h.read node).child s with
      | none => return node
      | some next => extremeLoop s h fuel next

def orderedCollectionMin : Option (Option Nat) := match tree.root with
  | none => some none
  | some node => (extremeLoop .left tree.nodes (fuel tree.nodes) node).map some

def orderedCollectionMax : Option (Option Nat) := match tree.root with
  | none => some none
  | some node => (extremeLoop .right tree.nodes (fuel tree.nodes) node).map some

/-- The search for a collision: the node found, or NULL, the last node examined before it, and
the last comparison. -/
def collisionLoop (userStructCompare : V → V → Int) (h : Nodes V) (userStruct : V) :
    Nat → Option Nat → Option Nat → Int → Option (Option Nat × Option Nat × Int)
  | 0, _, _, _ => none
  | _+1, none, parent, result => some (none,parent,result)
  | fuel+1, some tmp, parent, _ => do
      let n ← h.read tmp
      let result := userStructCompare userStruct n.userStruct
      if result = 0 then some (some tmp, parent, result)
      else
        collisionLoop userStructCompare h userStruct fuel
          (n.child (if result < 0 then .left else .right)) (some tmp) result

structure InsertLoop (V : Type) where
  nodes : Nodes V
  newRoot : Option Nat
  tmp : Nat
  parent : Option Nat

def insertRecolor (l : InsertLoop V) (parent grandParent uncle : Nat) : Option (InsertLoop V) := do
  let h ← l.nodes.modify parent (·.setColor .black)
  let h ← h.modify uncle (·.setColor .black)
  let h ← h.modify grandParent (·.setColor .red)
  return { l with nodes := h, tmp := grandParent, parent := (← h.read grandParent).parent }

/-- If `Tmp` is the child of `Parent` away from the side `Parent` is on, rotate it up. -/
def insertStraighten (side : Side) (l : InsertLoop V) (parent grandParent : Nat) :
    Option (InsertLoop V × Nat) := do
  if (← l.nodes.read parent).child side.other = some l.tmp then
    let (h,newRoot) ← redBlackTreeRotate side.other l.nodes parent l.newRoot
    let newParent ← (← h.read parent).parent
    -- ASSERT (GrandParent == Parent->Parent)
    if (← h.read newParent).parent = some grandParent then
      return ({ nodes := h, newRoot, tmp := parent, parent := some newParent }, newParent)
    else none
  else return (l,parent)

/-- The body of the loop when `Parent` is the child of `GrandParent` on `side`. -/
def insertBody (side : Side) (l : InsertLoop V) (parent grandParent : Nat) : Option (InsertLoop V) := do
  let uncle := (← l.nodes.read grandParent).child side.other
  match uncle, ← nodeIsNullOrBlack l.nodes uncle with
  | some u, false => insertRecolor l parent grandParent u
  | _, _ =>
    let (l,parent) ← insertStraighten side l parent grandParent
    let h ← l.nodes.modify parent (·.setColor .black)
    let h ← h.modify grandParent (·.setColor .red)
    let (h,newRoot) ← redBlackTreeRotate side h grandParent l.newRoot
    return { l with nodes := h, newRoot }

def insertLoop : Nat → InsertLoop V → Option (InsertLoop V)
  | 0, _ => none
  | fuel+1, l =>
    if some l.tmp = l.newRoot then some l
    else do
      let parent ← l.parent
      let parentNode ← l.nodes.read parent
      if parentNode.color = .black then return l
      else
        let grandParent ← parentNode.parent
        let grandParentNode ← l.nodes.read grandParent
        let l ← insertBody (if grandParentNode.left = some parent then .left else .right)
          l parent grandParent
        insertLoop fuel l

/-- Link a new node below `parent` and rebalance. -/
def insertNode (tmp : Nat) (parent : Option Nat) (result : Int)
    (userStruct : V) : Option (RedBlackTree V K) := match parent with
  | none => do
      let h ← tree.nodes.alloc tmp ⟨userStruct, none, none, none, .black⟩
      return { tree with root := some tmp, nodes := h }
  | some p => do
      let h ← tree.nodes.alloc tmp ⟨userStruct, some p, none, none, .red⟩
      let h ← h.modify p (·.setChild (if result < 0 then .left else .right) (some tmp))
      let l ← insertLoop (fuel h) { nodes := h, newRoot := tree.root, tmp, parent := some p }
      let newRoot ← l.newRoot
      let h ← l.nodes.modify newRoot (·.setColor .black)
      return { tree with root := some newRoot, nodes := h }

/-- `allocatePool` is the address `AllocatePool` returns, or NULL; the node returned is what is
stored in `*Node`. -/
def orderedCollectionInsert (allocatePool : Option Nat) (userStruct : V) :
    Option (RedBlackTree V K × EfiStatus × Option Nat) := do
  let (tmp,parent,result) ← collisionLoop tree.userStructCompare tree.nodes userStruct
    (fuel tree.nodes) tree.root none 0
  match tmp, allocatePool with
  | some tmp, _ => return (tree, .alreadyStarted, some tmp)
  | none, none => return (tree, .outOfResources, none)
  | none, some tmp =>
    let tree ← insertNode tree tmp parent result userStruct
    return (tree, .success, some tmp)

structure Unlinked (V : Type) where
  nodes : Nodes V
  newRoot : Option Nat
  child : Option Nat
  parent : Option Nat
  colorOfUnlinked : RedBlackTreeColor

def unlinkNode (node : Nat) (n : RedBlackTreeNode V) : Option (Unlinked V) := do
  let child := if n.left ≠ none then n.left else n.right
  let h ← setParentOf tree.nodes child n.parent
  let (h,newRoot) ← replaceChild h tree.root n.parent node child
  return { nodes := h, newRoot, child, parent := n.parent, colorOfUnlinked := n.color }

/-- Find the successor below `origRightChild` and take it out of there. -/
def unlinkSuccessor (h : Nodes V) (origRightChild : Nat) : Option (Nodes V × Nat × Nat × Option Nat) := do
  let rightNode ← h.read origRightChild
  match rightNode.left with
  | none => return (h,origRightChild,origRightChild,rightNode.right)
  | some next =>
    let toRelink ← extremeLoop .left h (fuel h) next
    let relinkNode ← h.read toRelink
    let parent ← relinkNode.parent
    let child := relinkNode.right
    let h ← h.modify parent (·.setChild .left child)
    let h ← setParentOf h child (some parent)
    let h ← h.modify toRelink (·.setChild .right (some origRightChild))
    let h ← h.modify origRightChild (·.setParent (some toRelink))
    return (h,toRelink,parent,child)

def relinkSuccessor (node : Nat) (n : RedBlackTreeNode V)
    (origLeftChild origRightChild : Nat) : Option (Unlinked V) := do
  let (h,toRelink,parent,child) ← unlinkSuccessor tree.nodes origRightChild
  let h ← h.modify toRelink (·.setChild .left (some origLeftChild))
  let h ← h.modify origLeftChild (·.setParent (some toRelink))
  let colorOfUnlinked := (← h.read toRelink).color
  let h ← h.modify toRelink (·.setColor n.color)
  let h ← h.modify toRelink (·.setParent n.parent)
  let (h,newRoot) ← replaceChild h tree.root n.parent node (some toRelink)
  return { nodes := h, newRoot, child, parent := some parent, colorOfUnlinked }

def unlink (node : Nat) (n : RedBlackTreeNode V) : Option (Unlinked V) :=
  match n.left, n.right with
  | some origLeftChild, some origRightChild => relinkSuccessor tree node n origLeftChild origRightChild
  | _, _ => unlinkNode tree node n

structure DeleteLoop (V : Type) where
  nodes : Nodes V
  newRoot : Option Nat
  child : Option Nat
  parent : Option Nat

section
variable (side : Side) (l : DeleteLoop V)

/-- A red sibling is rotated up, which gives `Child` a black one. -/
def deleteRedSibling (parent sibling : Nat) :
    Option (DeleteLoop V × Nat) := do
  if (← l.nodes.read sibling).color = .red then
    let h ← l.nodes.modify sibling (·.setColor .black)
    let h ← h.modify parent (·.setColor .red)
    let (h,newRoot) ← redBlackTreeRotate side.other h parent l.newRoot
    -- ASSERT (Sibling != NULL)
    let sibling ← (← h.read parent).child side.other
    return ({ l with nodes := h, newRoot }, sibling)
  else return (l,sibling)

def deleteNearNephew (parent sibling : Nat) :
    Option (DeleteLoop V × Option Nat × Option Nat) := do
  let siblingNode ← l.nodes.read sibling
  if ← nodeIsNullOrBlack l.nodes (siblingNode.child side.other) then
    let nearNephew ← siblingNode.child side
    let h ← l.nodes.modify nearNephew (·.setColor .black)
    let h ← h.modify sibling (·.setColor .red)
    let (h,newRoot) ← redBlackTreeRotate side h sibling l.newRoot
    let sibling ← (← h.read parent).child side.other
    return ({ l with nodes := h, newRoot }, some sibling, (← h.read sibling).child side.other)
  else return (l, some sibling, siblingNode.child side.other)

def deleteFarNephew (parent : Nat) (sibling farNephew : Option Nat) :
    Option (DeleteLoop V) := do
  -- ASSERT (FarNephew != NULL), ASSERT (Sibling != NULL) and the colours of both
  let farNephew ← farNephew
  let sibling ← sibling
  if (← l.nodes.read farNephew).color = .red ∧ (← l.nodes.read sibling).color = .black then
    let parentColor := (← l.nodes.read parent).color
    let h ← l.nodes.modify sibling (·.setColor parentColor)
    let h ← h.modify parent (·.setColor .black)
    let h ← h.modify farNephew (·.setColor .black)
    let (h,newRoot) ← redBlackTreeRotate side.other h parent l.newRoot
    return { l with nodes := h, newRoot, child := newRoot }
  else none

/-- The body of the loop when `Child` is the child of `Parent` on `side`. -/
def deleteBody (parent : Nat) : Option (DeleteLoop V) := do
  -- ASSERT (Sibling != NULL)
  let sibling ← (← l.nodes.read parent).child side.other
  let (l,sibling) ← deleteRedSibling side l parent sibling
  let siblingNode ← l.nodes.read sibling
  -- ASSERT (Sibling->Color == RedBlackTreeBlack)
  if siblingNode.color = .black then
    if (← nodeIsNullOrBlack l.nodes (siblingNode.child side)) ∧
        (← nodeIsNullOrBlack l.nodes (siblingNode.child side.other)) then
      let h ← l.nodes.modify sibling (·.setColor .red)
      return { l with nodes := h, child := some parent, parent := (← h.read parent).parent }
    else
      let (l,sibling,farNephew) ← deleteNearNephew side l parent sibling
      deleteFarNephew side l parent sibling farNephew
  else none

end

def deleteLoop : Nat → DeleteLoop V → Option (DeleteLoop V)
  | 0, _ => none
  | fuel+1, l =>
    if l.child = l.newRoot then some l
    else do
      if ← nodeIsNullOrBlack l.nodes l.child then
        let parent ← l.parent
        let parentNode ← l.nodes.read parent
        let l ← deleteBody (if parentNode.left = l.child then .left else .right) l parent
        deleteLoop fuel l
      else return l

/-- Transfer the black of the unlinked node to `Child`. -/
def deleteRebalance (u : Unlinked V) : Option (Nodes V × Option Nat) := if u.colorOfUnlinked = .black then do
    let l ← deleteLoop (fuel u.nodes) ⟨u.nodes, u.newRoot, u.child, u.parent⟩
    match l.child with
    | none => return (l.nodes,l.newRoot)
    | some child => return (← l.nodes.modify child (·.setColor .black), l.newRoot)
  else some (u.nodes,u.newRoot)

/-- The user structure returned is what is stored in `*UserStruct`. -/
def orderedCollectionDelete (node : Nat) : Option (RedBlackTree V K × V) := do
  let n ← tree.nodes.read node
  let u ← unlink tree node n
  let h ← u.nodes.free node
  let (h,newRoot) ← deleteRebalance { u with nodes := h }
  return ({ tree with root := newRoot, nodes := h }, n.userStruct)

end

end Liano.OrderedCollection
