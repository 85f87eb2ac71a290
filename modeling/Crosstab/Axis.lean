import Crosstab.Forest
import Crosstab.Measure
import Crosstab.Ranking
import Crosstab.Schema
import Crosstab.Statement

/-!
# Axes

One side of a table: an ordered forest of dimensions and totals. Measures may be bound to a node, or
to the axis as a whole. In a clause groups stand side by side, and in a group each item is repeated
below every leaf of the items before it.
-/
namespace Crosstab

/-- How the members of a dimension are ordered and limited. -/
structure MemberOrder where
  /-- The aggregate that members are ranked by; without one they are ranked by their text. -/
  orderBy : Option MeasureRef
  direction : Option Direction
  limit : Option Int
  deriving DecidableEq, Repr

namespace MemberOrder

def plain : MemberOrder := ⟨none, none, none⟩

def byValue (order : MemberOrder) : Bool := order.orderBy.isSome

def basis (order : MemberOrder) : Basis := if order.byValue then .value else .text

def ranking (order : MemberOrder) : Ranking := ⟨order.basis, order.direction, order.limit⟩

end MemberOrder

inductive Place where
  | total
  | dimension (field : String) (order : MemberOrder)
  deriving DecidableEq, Repr

namespace Place

def field? : Place → Option String
  | total => none
  | dimension field _ => some field

def order : Place → MemberOrder
  | total => .plain
  | dimension _ order => order

end Place

structure Node where
  /-- Nodes are numbered in the order in which the clause makes them. -/
  id : Nat
  place : Place
  label : Value
  measures : List String
  deriving Repr

namespace Node

def field? (node : Node) : Option String := node.place.field?

def isTotal (node : Node) : Bool := node.field?.isNone

def order (node : Node) : MemberOrder := node.place.order

/-- The members of the node are not known before its ranking aggregate is. -/
def isPending (node : Node) : Bool := node.order.byValue

def displayLabel (node : Node) : Value :=
  if node.label.isNull then .text (node.field?.getD "Total") else node.label

end Node

def fieldsOf (nodes : List Node) : List String := nodes.filterMap Node.field?

/-- The fields above a node. -/
abbrev Visit.scope (visit : Visit Node) : List String := fieldsOf visit.above

structure Axis where
  forest : Forest Node
  measures : List String
  deriving Repr

namespace Axis

def isEmpty (axis : Axis) : Bool := axis.forest.isEmpty

/-- The chains of nodes from a root to a leaf; an empty axis has one empty branch. -/
def branches (axis : Axis) : List (List Node) :=
  if axis.isEmpty then [[]] else axis.forest.branches

/-- The measures bound to a branch: the deepest binding along it wins. -/
def branchMeasures (axis : Axis) (branch : List Node) : List String :=
  match branch.reverse.find? fun node => !node.measures.isEmpty with
  | some node => node.measures
  | none => axis.measures

/-- All nodes with their surroundings, in reading order. -/
def visits (axis : Axis) : List (Visit Node) := axis.forest.visits []

/-- All nodes with their surroundings, in the order of their numbers. -/
def numbered (axis : Axis) : List (Visit Node) :=
  Sorting.arrange (fun a b => decide (a.node.id ≤ b.node.id)) axis.visits

def pendingVisits (axis : Axis) : List (Visit Node) := axis.visits.filter fun v => v.node.isPending

def fields (axis : Axis) : List String := (fieldsOf axis.forest.walk).eraseDups

end Axis

/-! ### Clauses -/

namespace Item

variable {β γ : Type}

mutual

def clauseBindings : AxisClause β → List β
  | [] => []
  | group :: rest => groupBindings group ++ clauseBindings rest

def groupBindings : Group β → List β
  | [] => []
  | item :: rest => bindings item ++ groupBindings rest

def bindings : Item β → List β
  | binding b => [b]
  | axis groups => clauseBindings groups
  | _ => []

end

mutual

/-- Replaces the bindings of a clause, in order, by what is listed for them; bindings past the end
of the list become `absent`. The rest of the list is returned. -/
def relabelClause (absent : γ) : AxisClause β → List γ → AxisClause γ × List γ
  | [], labels => ([], labels)
  | group :: rest, labels =>
    let (group, labels) := relabelGroup absent group labels
    let (rest, labels) := relabelClause absent rest labels
    (group :: rest, labels)

def relabelGroup (absent : γ) : Group β → List γ → Group γ × List γ
  | [], labels => ([], labels)
  | item :: rest, labels =>
    let (item, labels) := relabel absent item labels
    let (rest, labels) := relabelGroup absent rest labels
    (item :: rest, labels)

def relabel (absent : γ) : Item β → List γ → Item γ × List γ
  | dimension d, labels => (dimension d, labels)
  | total t, labels => (total t, labels)
  | binding _, [] => (binding absent, [])
  | binding _, label :: labels => (binding label, labels)
  | axis groups, labels =>
    let (groups, labels) := relabelClause absent groups labels
    (axis groups, labels)

end

end Item

def addNames (names more : List String) : List String :=
  more.foldl (fun names name => if names.contains name then names else names ++ [name]) names

namespace Node

def bind (names : List String) (node : Node) : Node :=
  { node with measures := addNames node.measures names }

def shift (places : Nat) (node : Node) : Node := { node with id := places + node.id }

end Node

/-- A piece of an axis, with nodes numbered from zero, and the names that it passes up. -/
structure Part where
  forest : Forest Node
  names : List String

namespace Part

def empty : Part := ⟨.nil, []⟩

def leaf (place : Place) (label : Value) : Part := ⟨.cons ⟨0, place, label, []⟩ .nil .nil, []⟩

def beside (left right : Part) : Part where
  forest := left.forest.append (right.forest.map (Node.shift left.forest.size))
  names := addNames left.names right.names

/-- The right part below every leaf of the left one. A left part without nodes leaves its place to
the right one. -/
def nest (left right : Part) : Part :=
  if left.forest.isEmpty then ⟨right.forest, addNames left.names right.names⟩
  else
    let copy (leaf : Nat) : Forest Node :=
      right.forest.map (Node.shift (left.forest.size + leaf * right.forest.size))
    ⟨(left.forest.mapLeaves (Node.bind right.names)).graft copy 0, left.names⟩

/-- Binds names to the leaves, or passes them up when there are none. -/
def bind (part : Part) (names : List String) : Part :=
  if part.forest.isEmpty then ⟨part.forest, addNames part.names names⟩
  else ⟨part.forest.mapLeaves (Node.bind names), part.names⟩

end Part

namespace Dimension

def readDirection (order : Value) (field : String) : Outcome (Option Direction) :=
  match order with
  | .null => .ok none
  | _ => do
    let keyword ← order.asText
    let lowered := Text.lower keyword
    if lowered = "asc" then return some .ascending
    else if lowered = "desc" then return some .descending
    else .error (.compile (.unknownDirection keyword field))

/-- The measure of the table that an ordering refers to; an open aggregate takes the first measure of
the field. -/
def resolveOrder (measures : List Measure) (field : String) (ref : OrderRef) : Outcome MeasureRef :=
  let named (measure : Measure) : Bool :=
    (measure.field.elim .null Value.text).same ref.field &&
      (ref.aggregate.isNull || (Value.text measure.aggregate).same ref.aggregate)
  match measures.find? named with
  | some measure => .ok measure.base
  | none =>
    let target :=
      if ref.aggregate.isNull then ref.field.plain
      else ref.field.plain ++ "." ++ ref.aggregate.plain
    .error (.compile (.orderedByForeignMeasure field target))

/-- The ordering inside a limit comes before the one outside. -/
def orderTarget (dimension : Dimension) : OrderTarget :=
  let outside := dimension.orderBy.elim .absent OrderTarget.ref
  match dimension.limit with
  | none => outside
  | some limit =>
    match limit.orderBy with
    | .absent => outside
    | .ref ref => .ref ref
    | .other value => if value.truthy then .other value else outside

def compileOrdering (measures : List Measure) (dimension : Dimension) (field : String) :
    Outcome MemberOrder := do
  let direction ← readDirection dimension.order field
  let limit := dimension.limit.map (·.count)
  if limit = some 0 then .error (.compile (.zeroLimit field))
  else
    match dimension.orderTarget with
    | .absent => return ⟨none, direction, limit⟩
    | .ref ref => return ⟨some (← resolveOrder measures field ref), direction, limit⟩
    | .other _ => Outcome.noMember

end Dimension

namespace Item

variable (schema : Schema) (measures : List Measure)

def compileDimension (dimension : Dimension) : Outcome Part := do
  match ← schema.field? dimension.name with
  | none => .error (.compile (.unknownField dimension.name))
  | some field =>
    let ordering ← dimension.compileOrdering measures field
    return .leaf (.dimension field ordering) dimension.label

def compileTotal (total : Total) : Outcome Part :=
  if total.limit.isSome || !total.order.isNull then .error (.compile .orderedTotal)
  else .ok (.leaf .total total.label)

def ownNames (group : Group (List String)) : List String :=
  group.flatMap fun
    | binding names => names
    | _ => []

mutual

def compileClause : AxisClause (List String) → Outcome Part
  | [] => .ok .empty
  | group :: rest => do
    let first ← compileGroup group
    let rest ← compileClause rest
    return (first.bind (ownNames group)).beside rest

def compileGroup : Group (List String) → Outcome Part
  | [] => .ok .empty
  | binding _ :: rest => compileGroup rest
  | item :: rest => do
    let first ← compile item
    let rest ← compileGroup rest
    return first.nest rest

def compile : Item (List String) → Outcome Part
  | dimension d => compileDimension schema measures d
  | total t => compileTotal t
  | binding _ => .ok .empty
  | axis groups => compileClause groups

end

end Item

def Axis.ofClause (schema : Schema) (measures : List Measure)
    (clause : Option (AxisClause (List String))) : Outcome Axis := do
  let part ← Item.compileClause schema measures (clause.getD [])
  return ⟨part.forest, part.names⟩

end Crosstab
