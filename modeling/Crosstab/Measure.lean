import Crosstab.Error

/-!
# Measures

A measure of a table: an aggregate with its name, its format and its label, possibly as a share of
the total across one side.
-/
namespace Crosstab

namespace Aggregate

def baseNames : List String := ["sum", "mean", "count", "min", "max", "median", "stdev"]

/-- The percentage of a name that is `p` with one or two digits; one final line break is ignored. -/
def percentile? (name : String) : Option Nat :=
  match name.toList with
  | 'p' :: rest =>
    let rest :=
      match rest.reverse with
      | '\n' :: front => front.reverse
      | _ => rest
    let digits := rest.map Text.digit?
    if digits.isEmpty || 2 < digits.length || digits.any Option.isNone then none
    else some (Text.digitsValue (digits.map (·.getD 0)))
  | _ => none

/-- Base aggregates and percentiles strictly between zero and a hundred. -/
def isValid (name : String) : Bool :=
  baseNames.contains name ||
    match percentile? name with
    | some percent => decide (0 < percent ∧ percent < 100)
    | none => false

def column (field : Option String) (aggregate : String) : String :=
  match field with
  | none => aggregate
  | some field =>
    if field.isEmpty then aggregate
    else aggregate ++ "_" ++ field.map fun c => if c = '.' then '_' else c

end Aggregate

/-- An aggregate of a field; a count of rows has no field. -/
structure MeasureRef where
  field : Option String
  aggregate : String
  deriving DecidableEq, Repr

def MeasureRef.column (ref : MeasureRef) : String := Aggregate.column ref.field ref.aggregate

structure Measure where
  name : String
  field : Option String
  aggregate : String
  format : Option String
  /-- The side across which the measure is a share of the total. -/
  across : Option Side
  label : Value
  deriving Repr

namespace Measure

def base (measure : Measure) : MeasureRef := ⟨measure.field, measure.aggregate⟩

/-- The label, or a text made of field and aggregate. -/
def displayLabel (measure : Measure) : Value :=
  if measure.label.isNull then
    match measure.field with
    | some field =>
      .text (if field.isEmpty then measure.aggregate else field ++ "." ++ measure.aggregate)
    | none => .text measure.aggregate
  else measure.label

/-- The measure of a statement that names none: the number of rows. -/
def rowCount : Measure where
  name := "count"
  field := none
  aggregate := "count"
  format := none
  across := none
  label := .null

end Measure

end Crosstab
