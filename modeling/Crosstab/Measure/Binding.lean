import Crosstab.Display
import Crosstab.Measure
import Crosstab.Schema
import Crosstab.Statement

/-!
# Measure bindings

Turns the measure bindings of a statement into measures. Aggregations that agree in everything that
shows are one measure; all others have names of their own.
-/
namespace Crosstab

namespace Binding

def readAcross (across : Value) : Outcome (Option Side) :=
  match across with
  | .null => .ok none
  | _ => do
    let name ← across.asText
    let lowered := Text.lower name
    if lowered = "rows" then return some .rows
    else if lowered = "cols" then return some .cols
    else .error (.compile (.unknownAcross name))

/-- The field that an aggregation reads, after all checks of the two against each other. -/
def checkAggregate (schema : Schema) (measure : Value) (method : String) :
    Outcome (Option String) :=
  if !Aggregate.isValid method then .error (.compile (.unknownAggregation method))
  else if measure.isNull then
    if method != "count" then .error (.compile (.aggregationNeedsField method)) else .ok none
  else do
    match ← schema.field? measure with
    | none => .error (.compile (.unknownMeasure measure))
    | some field =>
      if method != "count" && !schema.isNumeric field then
        .error (.compile (.aggregationNeedsNumber method field))
      else return some field

/-- A format name: a keyword, or a number of places; one final line break is ignored. -/
def isFormat (name : String) : Bool :=
  let body := String.ofList (Display.withoutFinalBreak name.toList)
  ["currency", "percent", "integer", "none"].contains body ||
    (Display.placesAfter? "decimal" name.toList).isSome ||
    (Display.placesAfter? "comma" name.toList).isSome

/-- The format of an aggregation: its own, else that of its binding, else a percentage for a share. -/
def readFormat (own shared : Value) (across : Option Side) : Outcome (Option String) :=
  match if own.truthy then own else shared with
  | .null => .ok (if across.isSome then some "percent" else none)
  | .text name => if isFormat name then .ok (some name) else .error (.compile (.unknownFormat name))
  | _ => Outcome.wrongType

end Binding

/-- All that tells two measures apart. -/
structure MeasureIdentity where
  field : Option String
  method : String
  across : Option Side
  format : Option String
  label : Value

namespace MeasureIdentity

def same (a b : MeasureIdentity) : Bool :=
  a.field == b.field && a.method == b.method && a.across == b.across && a.format == b.format &&
    a.label.same b.label

def ofAggregation (schema : Schema) (binding : Binding) (across : Option Side)
    (aggregation : Aggregation) : Outcome MeasureIdentity := do
  let method := Text.lower (← aggregation.method.asText)
  let field ← Binding.checkAggregate schema binding.measure method
  let format ← Binding.readFormat aggregation.format binding.format across
  let label ← (if aggregation.label.isNull then binding.label else aggregation.label).asKey
  return { field, method, across, format, label }

def baseName (identity : MeasureIdentity) : String :=
  let column := Aggregate.column identity.field identity.method
  match identity.across with
  | some side => column ++ "_pct_" ++ side.name
  | none => column

def toMeasure (identity : MeasureIdentity) (name : String) : Measure where
  name := name
  field := identity.field
  aggregate := identity.method
  format := identity.format
  across := identity.across
  label := identity.label

end MeasureIdentity

namespace Measure

def identity (measure : Measure) : MeasureIdentity where
  field := measure.field
  method := measure.aggregate
  across := measure.across
  format := measure.format
  label := measure.label

/-- The name itself if it is free, else the first free one with a number from two upwards. One
number more than there are taken names is enough. -/
def freshName (taken : List String) (base : String) : String :=
  if taken.contains base then
    let numbered := (List.range (taken.length + 1)).map fun n => base ++ "_" ++ toString (n + 2)
    (numbered.find? fun name => !taken.contains name).getD base
  else base

/-- Adds a measure unless one with the same identity is there, and tells the name it goes by. -/
def adjoin (measures : List Measure) (identity : MeasureIdentity) : List Measure × String :=
  match measures.find? fun measure => measure.identity.same identity with
  | some measure => (measures, measure.name)
  | none =>
    let name := freshName (measures.map (·.name)) identity.baseName
    (measures ++ [identity.toMeasure name], name)

/-- Adds the aggregations of one binding; the names come in the order of the aggregations. -/
def bindAggregations (schema : Schema) (binding : Binding) (across : Option Side) :
    List Measure → List Aggregation → Outcome (List Measure × List String)
  | measures, [] => .ok (measures, [])
  | measures, aggregation :: rest => do
    let identity ← MeasureIdentity.ofAggregation schema binding across aggregation
    let (measures, name) := adjoin measures identity
    let (measures, names) ← bindAggregations schema binding across measures rest
    return (measures, name :: names)

def bindOne (schema : Schema) (measures : List Measure) (binding : Binding) :
    Outcome (List Measure × List String) :=
  if binding.aggregations.isEmpty then .error (.compile (.missingAggregation binding.measure))
  else do
    let across ← Binding.readAcross binding.across
    bindAggregations schema binding across measures binding.aggregations

/-- The measures of all bindings, in order of first occurrence, and the names that each binding
stands for. -/
def bindAll (schema : Schema) :
    List Measure → List Binding → Outcome (List Measure × List (List String))
  | measures, [] => .ok (measures, [])
  | measures, binding :: rest => do
    let (measures, names) ← bindOne schema measures binding
    let (measures, bound) ← bindAll schema measures rest
    return (measures, names :: bound)

end Measure

end Crosstab
