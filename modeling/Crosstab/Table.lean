import Crosstab.Axis
import Crosstab.Filter
import Crosstab.Measure.Binding

/-!
# Tables

The compiled form of a statement: two axes, the measures, the filter, and whether rows without a
value in a dimension count.
-/
namespace Crosstab

structure Table where
  rows : Axis
  cols : Axis
  measures : List Measure
  filter : Option Filter
  includeNulls : Value
  deriving Repr

namespace Table

def axis (table : Table) : Side → Axis
  | .rows => table.rows
  | .cols => table.cols

/-- The fields of both axes, those of the rows first, each once. -/
def dimensionFields (table : Table) : List String :=
  let fields := table.rows.fields
  fields ++ table.cols.fields.filter fun field => !fields.contains field

def measure? (table : Table) (name : String) : Option Measure :=
  table.measures.find? fun measure => measure.name == name

/-- The measures shown where two branches cross: those of the row branch, then those of the column
branch; all measures of the table if neither has any. -/
def cellMeasures (table : Table) (rowBranch colBranch : List Node) : List Measure :=
  let names := table.rows.branchMeasures rowBranch ++ table.cols.branchMeasures colBranch
  if names.isEmpty then table.measures else names.eraseDups.filterMap table.measure?

/-- Some ordering waits for a ranking aggregate. -/
def hasPending (table : Table) : Bool :=
  !table.rows.pendingVisits.isEmpty || !table.cols.pendingVisits.isEmpty

/-- Conditions that keep rows with a value in every dimension, unless nulls are included. -/
def guards (table : Table) : List Filter :=
  if table.includeNulls.truthy then []
  else table.dimensionFields.map fun field => .test field .isNotNull .null

def queryFilter (table : Table) (narrow : List Filter) : Option Filter :=
  Filter.conjoin table.filter (table.guards ++ narrow)

/-- Compiles a statement against a schema; `includeNulls` is the setting that applies when the
statement does not ask for nulls itself. -/
def compile (schema : Schema) (includeNulls : Value) (statement : Statement) : Outcome Table := do
  let filter ← statement.filter.mapM (FilterTerm.compile schema)
  let bindings :=
    Item.clauseBindings statement.rows ++ Item.clauseBindings (statement.cols.getD [])
  let (measures, names) ← Measure.bindAll schema [] bindings
  let measures := if measures.isEmpty then [Measure.rowCount] else measures
  let (rowClause, names) := Item.relabelClause [] statement.rows names
  let colClause := statement.cols.map fun clause => (Item.relabelClause [] clause names).1
  let rows ← Axis.ofClause schema measures (some rowClause)
  let cols ← Axis.ofClause schema measures colClause
  let includeNulls :=
    if statement.includeNulls.truthy then statement.includeNulls else includeNulls
  return { rows, cols, measures, filter, includeNulls }

end Table

end Crosstab
