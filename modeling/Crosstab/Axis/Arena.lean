import Crosstab.Axis

/-!
# Arenas

Builds an axis node by node into a list, where nodes refer to one another by their places. A node
names its parent as soon as it is made, and the parent names its children once all of them are.
-/
namespace Crosstab

structure Slot where
  field : Option String
  isTotal : Bool
  label : Value
  order : MemberOrder
  parent : Option Nat
  depth : Nat
  children : List Nat := []
  measures : List String := []
  deriving Repr

/-! ### Following links

There is no result where a place is missing, or where the steps do not suffice. -/

namespace Slot

def bind (names : List String) (slot : Slot) : Slot :=
  { slot with measures := addNames slot.measures names }

def link (children : List Nat) (slot : Slot) : Slot :=
  { slot with children := slot.children ++ children }

variable (slot? : Nat → Option Slot)

/-- The places above a node from the root down, found by going from parent to parent. -/
def ancestors : (steps : Nat) → (id : Nat) → Option (List Nat)
  | 0, _ => none
  | steps + 1, id => do
    let slot ← slot? id
    match slot.parent with
    | none => return []
    | some parent => return (← ancestors steps parent) ++ [parent]

/-- The places met from a stack: the first, and then those met with its children in its place. -/
def walkFrom : (steps : Nat) → (stack : List Nat) → Option (List Nat)
  | _, [] => some []
  | 0, _ :: _ => none
  | steps + 1, id :: rest => do
    let slot ← slot? id
    return id :: (← walkFrom steps (slot.children ++ rest))

/-- The chains that go on from `above` through one of the places, down to a leaf. -/
def branchesFrom : (steps : Nat) → (above ids : List Nat) → Option (List (List Nat))
  | _, _, [] => some []
  | 0, _, _ :: _ => none
  | steps + 1, above, id :: rest => do
    let slot ← slot? id
    let own ← if slot.children.isEmpty then pure [above ++ [id]]
      else branchesFrom steps (above ++ [id]) slot.children
    return own ++ (← branchesFrom steps above rest)

def isLeaf (id : Nat) : Bool := (slot? id).all fun slot => slot.children.isEmpty

end Slot

/-- The nodes made so far, and the names bound to the axis as a whole. -/
structure Arena where
  slots : List Slot := []
  measures : List String := []
  deriving Repr

namespace Arena

def slot? (arena : Arena) (id : Nat) : Option Slot := arena.slots[id]?

def leaves (arena : Arena) (heads : List Nat) : List Nat :=
  ((Slot.walkFrom arena.slot? arena.slots.length heads).getD []).filter (Slot.isLeaf arena.slot?)

def bind (names : List String) : Option Nat → Arena → Arena
  | none, arena => { arena with measures := addNames arena.measures names }
  | some id, arena => { arena with slots := arena.slots.modify id (Slot.bind names) }

def link (parent : Nat) (children : List Nat) (arena : Arena) : Arena :=
  { arena with slots := arena.slots.modify parent (Slot.link children) }

def depthBelow (arena : Arena) (parent : Option Nat) : Nat :=
  parent.elim 0 fun id => (arena.slot? id).elim 0 Slot.depth + 1

abbrev Builder := StateT Arena Outcome

def make (field : Option String) (isTotal : Bool) (label : Value) (order : MemberOrder)
    (parent : Option Nat) : Builder (List Nat) :=
  modifyGet fun arena =>
    let depth := arena.depthBelow parent
    ([arena.slots.length],
      { arena with slots := arena.slots ++ [{ field, isTotal, label, order, parent, depth }] })

variable (schema : Schema) (measures : List Measure)

def makeDimension (dimension : Dimension) (parent : Option Nat) : Builder (List Nat) := do
  match ← schema.field? dimension.name with
  | none => throw (.compile (.unknownField dimension.name))
  | some field =>
    make (some field) false dimension.label (← dimension.compileOrdering measures field) parent

def makeTotal (total : Total) (parent : Option Nat) : Builder (List Nat) :=
  if total.limit.isSome || !total.order.isNull then throw (.compile .orderedTotal)
  else make none true total.label .plain parent

/-- Binds names to the leaves of what was made, or to the parent where that has no nodes. -/
def bindLeaves (names : List String) (parent : Option Nat) (heads : List Nat) : Builder PUnit := do
  let arena ← get
  forM (if heads.isEmpty then [parent] else (arena.leaves heads).map some) fun target =>
    modify (bind names target)

/-- Makes the rest below every leaf of what was made, or in its place where that has no nodes. -/
def nest (rest : Option Nat → Builder (List Nat)) (parent : Option Nat) (heads : List Nat) :
    Builder (List Nat) := do
  if heads.isEmpty then rest parent
  else
    let arena ← get
    forM (arena.leaves heads) fun leaf => do
      let children ← rest (some leaf)
      modify (link leaf children)
    return heads

mutual

/-- Makes the groups of a clause. Their roots are told, but the parent does not name them yet. -/
def buildClause : AxisClause (List String) → Option Nat → Builder (List Nat)
  | [], _ => return []
  | group :: rest, parent => do
    let heads ← buildGroup group parent
    bindLeaves (Item.ownNames group) parent heads
    return heads ++ (← buildClause rest parent)

def buildGroup : Group (List String) → Option Nat → Builder (List Nat)
  | [], _ => return []
  | .binding _ :: rest, parent => buildGroup rest parent
  | item :: rest, parent => do
    nest (buildGroup rest) parent (← build item parent)

def build : Item (List String) → Option Nat → Builder (List Nat)
  | .dimension d, parent => makeDimension schema measures d parent
  | .total t, parent => makeTotal t parent
  | .binding _, _ => return []
  | .axis groups, parent => buildClause groups parent

end

end Arena

structure TreeNode extends Slot where
  id : Nat
  deriving Repr

/-- A finished arena: its nodes know their places, and the roots are told. -/
structure AxisTree where
  nodes : List TreeNode
  roots : List Nat
  measures : List String
  deriving Repr

namespace AxisTree

def ofClause (schema : Schema) (measures : List Measure)
    (clause : Option (AxisClause (List String))) : Outcome AxisTree := do
  let (roots, arena) ← (Arena.buildClause schema measures (clause.getD []) none).run {}
  return ⟨arena.slots.mapIdx fun id slot => ⟨slot, id⟩, roots, arena.measures⟩

def slot? (tree : AxisTree) (id : Nat) : Option Slot := (tree.nodes[id]?).map TreeNode.toSlot

def ancestors (tree : AxisTree) : (steps : Nat) → (id : Nat) → Option (List Nat) :=
  Slot.ancestors tree.slot?

def walk (tree : AxisTree) (steps : Nat) : Option (List Nat) :=
  Slot.walkFrom tree.slot? steps tree.roots

/-- The chains from a root to a leaf; an empty tree has one empty branch. -/
def branches (tree : AxisTree) (steps : Nat) : Option (List (List Nat)) :=
  if tree.roots.isEmpty then some [[]] else Slot.branchesFrom tree.slot? steps [] tree.roots

end AxisTree

/-! ### The tree of an axis -/

def Node.slot (node : Node) (parent : Option Nat) (depth : Nat) (children : List Nat) : Slot :=
  ⟨node.field?, node.isTotal, node.label, node.order, parent, depth, children, node.measures⟩

namespace Visit

def parentId? (visit : Visit Node) : Option Nat := visit.parent?.map Node.id

def childIds (visit : Visit Node) : List Nat := visit.children.map Node.id

def treeNode (visit : Visit Node) : TreeNode :=
  ⟨visit.node.slot visit.parentId? visit.depth visit.childIds, visit.node.id⟩

end Visit

def Axis.tree (axis : Axis) : AxisTree where
  nodes := axis.numbered.map Visit.treeNode
  roots := axis.forest.heads.map Node.id
  measures := axis.measures

end Crosstab
