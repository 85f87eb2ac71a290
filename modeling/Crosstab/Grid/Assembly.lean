import Crosstab.Description
import Crosstab.Grid
import Crosstab.Plan
import Crosstab.Settings
import Crosstab.Value.Arithmetic

/-!
# Assembly of grids

Joins the rows of the executed queries onto the axes. A combination without a row is an empty cell.
-/
namespace Crosstab

structure Leaf where
  path : Path
  branch : List Node
  values : Row
  deriving Repr

/-- What the expansion of an axis draws on. -/
structure Expansion where
  selections : List Selection
  /-- The rows of all queries that a node takes part in. -/
  nodeRows : Nat → List Row
  settings : Settings

/-- Headers with the leaves below them. -/
abbrev Expanded := Forest Header × List Leaf

namespace Expanded

def empty : Expanded := (.nil, [])

def append (a b : Expanded) : Expanded := (a.1.append b.1, a.2 ++ b.2)

end Expanded

/-- A text for a member; null has a label of its own. -/
def memberLabel (settings : Settings) (member : Value) : Value :=
  if member.isNull then settings.nullLabel else .text member.plain

namespace Expansion

/-- The members of a dimension that is ranked by text: the distinct values under its parent. -/
def foundMembers (expansion : Expansion) (above : List String) (node : Node) (field : String)
    (values : Row) : Outcome (List Value) :=
  let rows := (expansion.nodeRows node.id).filter fun row =>
    above.all fun name => (row.get name).same (values.get name)
  let found := rows.map fun row => row.get field
  if found.all Value.hashable then
    let candidates := (Value.distinct found).map fun member =>
      (member, if member.isNull then .null else .text member.plain)
    rank candidates node.order.ranking
  else Outcome.wrongType

def members (expansion : Expansion) (above : List String) (node : Node) (field : String)
    (values : Row) : Outcome (List Value) :=
  match expansion.selections.find? fun selection => selection.node == node.id with
  | some selection => selection.members (above.map values.get)
  | none => expansion.foundMembers above node field values

/-- The headers that a node makes at its place, each with the values that hold below it. -/
def headers (expansion : Expansion) (path : Path) (branch : List Node) (values : Row)
    (node : Node) : Outcome (List (Header × Row)) :=
  match node.field? with
  | none =>
    let label := if node.label.isNull then expansion.settings.totalLabel else node.label
    .ok [(⟨node.id, none, .null, label, path ++ [Path.totalSegment]⟩, values)]
  | some field => do
    let members ← expansion.members (fieldsOf branch) node field values
    return members.map fun member =>
      (⟨node.id, some field, member, memberLabel expansion.settings member,
          path ++ [(field, member)]⟩,
        values.set field member)

/-- A header with what stands below it. A header of a leaf is a leaf; any other header without
something below it is dropped. -/
def placeHeader (header : Header) (branch : List Node) (values : Row) (isLeaf : Bool)
    (below : Expanded) : Expanded :=
  if isLeaf then (.cons header .nil .nil, [⟨header.path, branch, values⟩])
  else if below.1.isEmpty then .empty
  else (.cons header below.1 .nil, below.2)

def expand (expansion : Expansion) : Forest Node → Path → List Node → Row → Outcome Expanded
  | .nil, _, _, _ => .ok .empty
  | .cons node children siblings, path, branch, values => do
    let own ← (← expansion.headers path branch values node).mapM fun (header, values) => do
      let below ← expand expansion children header.path (branch ++ [node]) values
      return placeHeader header (branch ++ [node]) values children.isEmpty below
    let rest ← expand expansion siblings path branch values
    return (own.foldr Expanded.append rest)

/-- Expands a whole axis; an empty one has a single leaf without a path. -/
def expandAxis (expansion : Expansion) (axis : Axis) : Outcome Expanded :=
  if axis.isEmpty then .ok (.nil, [⟨[], [], []⟩]) else expansion.expand axis.forest [] [] []

end Expansion

def shownNumber (value : Value) : Value := if value.isNan then .null else value

/-- The row of a result whose grouped fields have the given values. Of several such rows the last
one counts. -/
def findRow (plan : QueryPlan) (results : Results) (key : String) (values : Row) :
    Outcome (Option Row) :=
  match plan.query? key, results.lookup key with
  | some query, some rows =>
    let wanted := query.fields.map values.get
    if (rows.all fun row => (row.project query.fields).all Value.hashable) &&
        wanted.all Value.hashable then
      .ok (rows.reverse.find? fun row => Value.sameKeys (row.project query.fields) wanted)
    else Outcome.wrongType
  | _, _ => .error (.missingKey key)

/-- The share of a number in its denominator; null where the denominator is null or zero. -/
def share (raw denominator : Value) : Outcome Value :=
  if denominator.truthy then raw.divide denominator else .ok .null

/-- The dimension values of a path, as texts for a description. -/
def describedPairs (settings : Settings) (path : Path) : List (String × String) :=
  (path.filter fun segment => segment.1 != Path.totalField).map fun (field, value) =>
    (field, (memberLabel settings value).plain)

/-- The description of a measure; without dimension values it is the label itself. -/
def describeMeasure (pairs : List (String × String)) (label : Value) : Value :=
  if pairs.isEmpty then label else .text (Description.describe pairs label.plain)

structure Assembly where
  table : Table
  plan : QueryPlan
  results : Results
  settings : Settings

namespace Assembly

/-- The raw value of a measure in the row of a cell; a share is divided by its denominator. -/
def rawValue (assembly : Assembly) (source : CellSource) (measure : Measure) (values : Row)
    (row : Option Row) : Outcome Value := do
  let column (row : Option Row) : Value :=
    match row with
    | some row => shownNumber (row.get measure.base.column)
    | none => .null
  let raw := column row
  if measure.across.isNone || raw.isNull then return raw
  else
    match source.denominators.lookup measure.name with
    | none => .error (.missingKey measure.name)
    | some key => share raw (column (← findRow assembly.plan assembly.results key values))

def cellValue (assembly : Assembly) (source : CellSource) (pairs : List (String × String))
    (values : Row) (row : Option Row) (measure : Measure) : Outcome CellValue := do
  let raw ← assembly.rawValue source measure values row
  let format := measure.format.elim .null Value.text
  return {
    measure := measure.name
    raw := raw
    formatted := ← formatValue raw format assembly.settings.percentDecimals
    description := describeMeasure pairs measure.displayLabel }

def cellValues (assembly : Assembly) (source : CellSource) (row col : Leaf) :
    Outcome (List CellValue) := do
  let values := col.values.foldl (fun values entry => values.set entry.1 entry.2) row.values
  let found ← findRow assembly.plan assembly.results source.key values
  let pairs :=
    describedPairs assembly.settings row.path ++ describedPairs assembly.settings col.path
  (source.measures.filterMap assembly.table.measure?).mapM
    (assembly.cellValue source pairs values found)

def branchIndex (axis : Axis) (branch : List Node) : Nat :=
  axis.branches.findIdx fun other => other.map (·.id) == branch.map (·.id)

def fillCell (assembly : Assembly) (cells : Cells) (row col : Leaf) : Outcome Cells := do
  let rowIndex := branchIndex assembly.table.rows row.branch
  let colIndex := branchIndex assembly.table.cols col.branch
  match assembly.plan.cell? rowIndex colIndex with
  | none => .error (.missingKey "")
  | some source =>
    let values ← assembly.cellValues source row col
    if row.path.hashable && col.path.hashable then
      return Grid.setCell row.path col.path values cells
    else Outcome.wrongType

end Assembly

/-- The rows of all queries in which a node of a side takes part, query by query. -/
def nodeRows (table : Table) (plan : QueryPlan) (results : Results) (side : Side) (node : Nat) :
    List Row :=
  let branches := (table.axis side).branches
  let position (cell : CellSource) : Nat :=
    match side with
    | .rows => cell.row
    | .cols => cell.col
  let cells := plan.cells.filter fun cell =>
    (branches[position cell]?.getD []).any fun other => other.id == node
  (cells.map (·.key)).eraseDups.flatMap fun key => (results.lookup key).getD []

namespace ResolvedTable

def expansion (resolved : ResolvedTable) (plan : QueryPlan) (results : Results)
    (settings : Settings) (side : Side) : Expansion where
  selections := resolved.selections side
  nodeRows := nodeRows resolved.table plan results side
  settings := settings

def missingKeys (plan : QueryPlan) (results : Results) : List String :=
  (plan.mainQueries.map (·.key)).filter fun key => (results.lookup key).isNone

def assemble (resolved : ResolvedTable) (settings : Settings) (plan : QueryPlan)
    (results : Results) : Outcome Grid := do
  match missingKeys plan results with
  | key :: rest => .error (.plan (.noResult (rest.length + 1) key))
  | [] =>
    let table := resolved.table
    let rows ← (resolved.expansion plan results settings .rows).expandAxis table.rows
    let cols ← (resolved.expansion plan results settings .cols).expandAxis table.cols
    let assembly : Assembly := { table, plan, results, settings }
    let crossings := rows.2.flatMap fun row => cols.2.map fun col => (row, col)
    let cells ← crossings.foldlM (fun cells (row, col) => assembly.fillCell cells row col) []
    return {
      rowHeaders := rows.1
      colHeaders := cols.1
      rowLeaves := rows.2.map (·.path)
      colLeaves := cols.2.map (·.path)
      measures := table.measures
      cells := cells }

end ResolvedTable

end Crosstab
