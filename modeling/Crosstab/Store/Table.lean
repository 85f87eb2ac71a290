import Crosstab.Query
import Crosstab.Store.Condition

/-!
# Stored tables

A table with typed columns answers grouping queries the way a database does: conditions have three
truth values, and null is a group of its own.
-/
namespace Crosstab

structure StoredTable where
  columns : List (String × ColumnType)
  rows : List (List StoredValue)
  deriving Repr

/-- A row with the names of its columns. -/
abbrev StoredRow := List (String × StoredValue)

namespace StoredTable

variable (table : StoredTable)

def schema : Schema where
  fields := table.columns.map fun column => (column.1, column.2.kind)

def named (row : List StoredValue) : StoredRow :=
  (table.columns.map (·.1)).zip row

def readable (row : List StoredValue) : Row :=
  (table.named row).map fun entry => (entry.1, entry.2.value)

def columnType (column : String) : Outcome ColumnType :=
  Condition.columnType table.columns column

structure Column where
  name : String
  statistic : String
  source : Option (String × ColumnType)

/-- Checks an aggregate; its name counts without blanks and case. -/
def prepareColumn (ref : MeasureRef) : Outcome Column := do
  let name := Text.lower (Text.strip ref.aggregate)
  if !Aggregate.isValid name then .error (.invalid (.unsupportedStatistic name))
  else
    match ref.field with
    | none =>
      if name != "count" then .error (.invalid (.statisticNeedsField name))
      else return ⟨ref.column, name, none⟩
    | some field =>
      let type ← table.columnType field
      if ["sum", "mean", "stdev"].contains name && !type.isSummable then Outcome.noMember
      else return ⟨ref.column, name, some (field, type)⟩

def columnValue (column : Column) (rows : List StoredRow) : Outcome Value :=
  match column.source with
  | none => .ok (.int rows.length)
  | some (field, type) => do
    let value ← Statistic.compute column.statistic type (rows.filterMap fun row => row.lookup field)
    return if value.isNan then .null else value

/-- The condition of a filter, and the aggregates. The first fault counts: the filter comes before
the aggregates, these before the grouping, and the names of the answer's columns come last. -/
def prepare (query : GroupingQuery) : Outcome (Option Filter × List Column) := do
  let condition ← query.filter.mapM (Condition.build table.columns)
  let columns ← query.sortedAggregates.mapM table.prepareColumn
  query.fields.forM fun field => do discard (table.columnType field)
  let names := columns.map (·.name)
  if names.eraseDups.length < names.length then .error (.misuse .ambiguousColumn)
  else if names.any query.fields.contains then .error (.misuse .repeatedColumn)
  else if names.isEmpty && query.fields.isEmpty then .error (.misuse .emptyQuery)
  else return (condition, columns)

/-- The rows that a condition keeps: those on which it is true. -/
def kept (condition : Option Filter) : List StoredRow :=
  let rows := table.rows.filter fun row =>
    match condition with
    | none => true
    | some condition => condition.truth (table.readable row) == some true
  rows.map table.named

def sameKeys : List StoredValue → List StoredValue → Bool
  | [], [] => true
  | a :: as, b :: bs => a.same b && sameKeys as bs
  | _, _ => false

/-- The rows of a table by the values of some fields; no fields make one group of all rows. -/
def groups (fields : List String) (rows : List StoredRow) : Groups (List StoredValue) StoredRow :=
  if fields.isEmpty then [([], rows)]
  else
    Groups.ofList sameKeys (rows.map fun row =>
      (fields.map fun field => (row.lookup field).getD (.plain .null), row))

def answer (query : GroupingQuery) : Outcome (List Row) := do
  let (condition, columns) ← table.prepare query
  let condition ← condition.mapM (Condition.convert table.columns (table.rows.map table.readable))
  (groups query.fields (table.kept condition)).mapM fun group => do
    let values ← columns.mapM fun column => do return (column.name, ← columnValue column group.2)
    return query.fields.zip (group.1.map StoredValue.returned) ++ values

end StoredTable

end Crosstab
