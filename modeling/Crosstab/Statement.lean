import Crosstab.Error

/-!
# Statements

A statement describes a table: two axes, a filter and options. Its leaves are values as they were
written; checking them is the work of compilation.
-/
namespace Crosstab

/-- The measure that an ordering refers to; the aggregate may be left open. -/
structure OrderRef where
  field : Value
  aggregate : Value := .null
  deriving Repr

/-- What stands at the place of an ordering inside a limit. -/
inductive OrderTarget where
  | absent
  | ref (ref : OrderRef)
  | other (value : Value)
  deriving Repr

/-- How many members to keep; the sign tells from which end. -/
structure Limit where
  count : Int
  orderBy : OrderTarget := .absent
  deriving Repr

structure Dimension where
  name : Value
  label : Value := .null
  limit : Option Limit := none
  order : Value := .null
  orderBy : Option OrderRef := none
  deriving Repr

/-- A total over all members. It may not be ordered or limited, which compilation reports. -/
structure Total where
  label : Value := .null
  limit : Option Limit := none
  order : Value := .null
  deriving Repr

structure Aggregation where
  method : Value
  format : Value := .null
  label : Value := .null
  deriving Repr

/-- Aggregations of one measure field; a bare count has no field. -/
structure Binding where
  measure : Value
  aggregations : List Aggregation := []
  format : Value := .null
  label : Value := .null
  across : Value := .null
  deriving Repr

/-- The items of an axis, with measure bindings of any form. -/
inductive Item (β : Type) where
  | dimension (dimension : Dimension)
  | total (total : Total)
  | binding (binding : β)
  | axis (groups : List (List (Item β)))
  deriving Repr

namespace Item

variable {β : Type}

def column (name : String) : Item β := .dimension { name }

/-- The members of a dimension that come first by an aggregate, or last for a negative count. -/
def leading (count : Int) (name field aggregate : String) : Item β :=
  .dimension { name, limit := some ⟨count, .ref ⟨field, aggregate⟩⟩ }

def overall : Item β := .total {}

/-- Aggregates of a field, as shares across what is given for a side. -/
def share (field : String) (methods : List String) (across : Value) : Item Binding :=
  .binding { measure := field, aggregations := methods.map fun method : String => { method }, across }

def measure (field : String) (methods : List String) : Item Binding := share field methods .null

end Item

/-- The items of a group are nested in one another. -/
abbrev Group (β : Type) := List (Item β)

/-- The groups of a clause stand side by side. -/
abbrev AxisClause (β : Type) := List (Group β)

/-- The terms of a filter as written. A chain joins its terms by the connectives between them. -/
inductive FilterTerm where
  | comparison (field operator value : Value)
  | nullCheck (field : Value) (negated : Bool)
  | negation (operand : FilterTerm)
  | chain (terms : List FilterTerm) (connectives : List String)
  deriving Repr

structure Statement where
  rows : AxisClause Binding
  cols : Option (AxisClause Binding) := none
  filter : Option FilterTerm := none
  includeNulls : Value := .bool false
  deriving Repr

/-! ### Documents -/

namespace Value

/-- A field of a record, with a value that stands in for an absent one. -/
def memberOr (v : Value) (name : String) (absent : Value) : Outcome Value :=
  match v with
  | record fields => .ok ((fields.lookup name).getD absent)
  | _ => Outcome.noMember

def member (v : Value) (name : String) : Outcome Value := v.memberOr name null

def required (v : Value) (name : String) : Outcome Value :=
  match v with
  | record fields =>
    match fields.lookup name with
    | some found => .ok found
    | none => .error (.missingKey name)
  | _ => Outcome.wrongType

/-- What a value consists of: the items of a list, the names of a record, the characters of a text. -/
def elements : Value → Outcome (List Value)
  | list items => .ok items
  | record fields => .ok (fields.map fun entry => text entry.1)
  | text s => .ok (s.toList.map fun c => text (String.singleton c))
  | _ => Outcome.wrongType

/-- Null stands for something absent. -/
def present? : Value → Option Value
  | null => none
  | v => some v

mutual

/-- How deeply a value is nested; a value without parts has depth one. -/
def depth : Value → Nat
  | list items => depthItems items + 1
  | record fields => depthFields fields + 1
  | _ => 1

def depthItems : List Value → Nat
  | [] => 0
  | item :: rest => max (depth item) (depthItems rest)

def depthFields : List (String × Value) → Nat
  | [] => 0
  | (_, v) :: rest => max (depth v) (depthFields rest)

end

end Value

namespace OrderRef

def ofDocument (document : Value) : Outcome OrderRef := do
  let field ← document.required "field"
  let aggregate ← document.member "aggregate"
  return { field, aggregate }

end OrderRef

namespace OrderTarget

def ofDocument (document : Value) : Outcome OrderTarget :=
  match document with
  | .null => .ok absent
  | .record _ => do return ref (← OrderRef.ofDocument document)
  | value => .ok (other value)

end OrderTarget

namespace Limit

def ofDocument (document : Value) : Outcome Limit := do
  let orderBy ← document.member "order_by"
  let count ← (← document.required "count").asInt
  return { count, orderBy := ← OrderTarget.ofDocument orderBy }

end Limit

namespace Dimension

def ofDocument (document : Value) : Outcome Dimension := do
  let limit ← document.member "limit"
  let orderBy ← document.member "order_by"
  return {
    name := ← document.required "name"
    label := ← document.member "label"
    limit := ← limit.present?.mapM Limit.ofDocument
    order := ← document.member "order"
    orderBy := ← orderBy.present?.mapM OrderRef.ofDocument }

end Dimension

namespace Total

def ofDocument (document : Value) : Outcome Total := do
  let limit ← document.member "limit"
  return {
    label := ← document.member "label"
    limit := ← limit.present?.mapM Limit.ofDocument
    order := ← document.member "order" }

end Total

namespace Aggregation

/-- A text alone names the method. -/
def ofDocument (document : Value) : Outcome Aggregation :=
  match document with
  | .text _ => .ok { method := document, format := .null, label := .null }
  | _ => do
    return {
      method := ← document.required "method"
      format := ← document.member "format"
      label := ← document.member "label" }

end Aggregation

namespace Binding

def ofDocument (document : Value) : Outcome Binding := do
  return {
    measure := ← document.member "measure"
    aggregations :=
      ← (← (← document.memberOr "aggregations" (.list [])).elements).mapM Aggregation.ofDocument
    format := ← document.member "format"
    label := ← document.member "label"
    across := ← document.member "across" }

end Binding

namespace AxisClause

/-- The groups of a clause, given how to read an item. -/
def groupsOfDocument {β : Type} (item : Value → Outcome (Item β)) (document : Value) :
    Outcome (AxisClause β) := do
  let groups ← (← document.memberOr "groups" (.list [])).elements
  groups.mapM fun group => do (← (← group.memberOr "items" (.list [])).elements).mapM item

/-- An item nested at most `depth` deep. -/
def itemOfDocument : Nat → Value → Outcome (Item Binding)
  | 0, _ => Outcome.wrongType
  | depth + 1, document => do
    match ← document.member "type" with
    | .text "dimension" => return .dimension (← Dimension.ofDocument document)
    | .text "all" => return .total (← Total.ofDocument document)
    | .text "binding" => return .binding (← Binding.ofDocument document)
    | .text "axis" => return .axis (← groupsOfDocument (itemOfDocument depth) document)
    | type => .error (.invalid (.unknownItem type))

def ofDocument (document : Value) : Outcome (AxisClause Binding) :=
  groupsOfDocument (itemOfDocument document.depth) document

end AxisClause

namespace FilterTerm

/-- A term nested at most `depth` deep. -/
def ofDocumentWithin : Nat → Value → Outcome FilterTerm
  | 0, _ => Outcome.wrongType
  | depth + 1, document => do
    match ← document.member "type" with
    | .text "comparison" =>
      return .comparison (← document.required "field") (← document.required "op")
        (← document.member "value")
    | .text "null_check" =>
      return .nullCheck (← document.required "field")
        (← document.memberOr "negated" (.bool false)).truthy
    | .text "not" => return .negation (← ofDocumentWithin depth (← document.required "operand"))
    | .text "chain" =>
      let terms ← (← (← document.memberOr "terms" (.list [])).elements).mapM (ofDocumentWithin depth)
      let connectives ← (← document.memberOr "operators" (.list [])).elements
      return .chain terms (← connectives.mapM fun connective => do
        return Text.upper (← connective.asText))
    | type => .error (.invalid (.unknownTerm type))

def ofDocument (document : Value) : Outcome FilterTerm := ofDocumentWithin (document.depth + 1) document

end FilterTerm

namespace Statement

/-- The options of a statement know one name. -/
def includeNullsOfDocument (options : Value) : Outcome Value :=
  if options.truthy then
    match options with
    | .record fields =>
      if fields.all (·.1 == "include_nulls") then
        .ok ((fields.lookup "include_nulls").getD (.bool false))
      else Outcome.wrongType
    | _ => Outcome.wrongType
  else .ok (.bool false)

def ofDocument (document : Value) : Outcome Statement := do
  let cols ← document.member "cols"
  let filter ← document.member "where"
  let rows ← document.member "rows"
  return {
    rows := ← AxisClause.ofDocument (if rows.truthy then rows else .record [])
    cols := ← cols.present?.mapM AxisClause.ofDocument
    filter := ← filter.present?.mapM FilterTerm.ofDocument
    includeNulls := ← includeNullsOfDocument (← document.member "options") }

end Statement

end Crosstab
