import Crosstab.Query
import Crosstab.Value.Arithmetic

/-!
# Sources in memory

A source is a list of rows. It answers a grouping query by filtering, grouping and aggregating its
rows; groups come in the order in which they first appear.
-/
namespace Crosstab.Source

def presentValues (field : String) (rows : List Row) : List Value :=
  (rows.map fun row => row.get field).filter fun v => !v.isNull

/-- An aggregate over a group of rows: a count of rows without a field, a count of distinct values
with one, and null where there is no value. -/
def aggregate (ref : MeasureRef) (rows : List Row) : Outcome Value :=
  match ref.field with
  | none => .ok (.int rows.length)
  | some field =>
    let values := presentValues field rows
    if ref.aggregate = "count" then
      if values.all Value.hashable then .ok (.int (Value.distinct values).length)
      else Outcome.wrongType
    else
      match values with
      | [] => .ok .null
      | first :: rest =>
        match ref.aggregate with
        | "sum" => Value.sum values
        | "mean" => Value.mean values
        | "min" => Value.extreme false first rest
        | "max" => Value.extreme true first rest
        | name => .error (.invalid (.unsupportedAggregate name))

def matching (filter : Option Filter) (rows : List Row) : Outcome (List Row) :=
  rows.filterM (Filter.passes filter)

/-- Groups rows by the values of fields. Without fields there is one group, even of no rows. -/
def groups (fields : List String) (rows : List Row) : Outcome (Groups (List Value) Row) :=
  let entries := rows.map fun row => (row.project fields, row)
  if entries.all fun entry => entry.1.all Value.hashable then
    match fields, Groups.ofList Value.sameKeys entries with
    | [], [] => .ok [([], [])]
    | _, groups => .ok groups
  else Outcome.wrongType

/-- The row of a group: its values, then its aggregates. An aggregate takes the place of a grouped
value whose field is named like its column. -/
def groupRow (query : GroupingQuery) (values : List Value) (rows : List Row) : Outcome Row := do
  query.aggregates.foldlM (fun row ref => do return row.set ref.column (← aggregate ref rows))
    (query.fields.zip values)

def answer (rows : List Row) (query : GroupingQuery) : Outcome (List Row) := do
  let groups ← groups query.fields (← matching query.filter rows)
  groups.mapM fun group => groupRow query group.1 group.2

end Crosstab.Source
