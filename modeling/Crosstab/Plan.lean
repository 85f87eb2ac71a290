import Crosstab.Query
import Crosstab.Table

/-!
# Discovery and query plans

Orderings by value need aggregates before members are known: discovery asks for them, and resolution
ranks the members. Then every crossing of a row branch and a column branch is filled from one grouping
query. A total adds no field, so totals are coarser groupings.
-/
namespace Crosstab

/-! ### Discovery -/

/-- The queries that rank members, and the key of the query for each pending node. -/
structure DiscoveryPlan where
  queries : List GroupingQuery
  nodeKeys : List ((Side × Nat) × String)
  deriving Repr

def hasRepeat (fields : List String) : Bool := fields.eraseDups.length != fields.length

namespace Table

variable (table : Table)

/-- The first branch of a side along which a field is repeated. -/
def repeatedBranch? (side : Side) : Option (List String) :=
  ((table.axis side).branches.map fieldsOf).find? hasRepeat

def sharedFields : List String :=
  sortedTexts (table.rows.fields.filter fun field => table.cols.fields.contains field)

def nullFields : List String :=
  (Filter.allConjuncts table.filter).filterMap fun
    | .test field .isNull _ => some field
    | _ => none

/-- Why a ranking by this aggregate cannot be computed, if it cannot. -/
def forcedNull? (node : Node) : Option PlanError :=
  match node.order.orderBy with
  | some ref =>
    match ref.field with
    | some field =>
      if table.nullFields.contains field && ref.aggregate != "count" then
        some (.forcedNull (node.field?.getD "") ref.column field)
      else none
    | none => none
  | none => none

def pendingVisits : List (Side × Visit Node) :=
  Side.both.flatMap fun side => (table.axis side).pendingVisits.map fun visit => (side, visit)

/-- Why no queries can fill the table, if none can. -/
def defect? : Option PlanError :=
  (Side.both.findSome? fun side =>
      (table.repeatedBranch? side).map (PlanError.repeatedField side)) <|>
    (if table.sharedFields.isEmpty then none else some (.sharedFields table.sharedFields)) <|>
    table.pendingVisits.findSome? fun (_, visit) => table.forcedNull? visit.node

def validate : Outcome Unit :=
  match table.defect? with
  | some cause => .error (.plan cause)
  | none => .ok ()

def rankingRequest (visit : Visit Node) : QueryRequest where
  fields := visit.scope ++ visit.node.field?.toList
  aggregates := visit.node.order.orderBy.toList
  filter := table.queryFilter []

def discover : Outcome DiscoveryPlan := do
  table.validate
  let requests := table.pendingVisits.map fun (_, visit) => table.rankingRequest visit
  return {
    queries := mergeRequests .discovery requests
    nodeKeys := table.pendingVisits.map fun (side, visit) =>
      ((side, visit.node.id), (table.rankingRequest visit).key) }

end Table

/-- The members of a pending node, ranked, for every combination of values of the fields above. -/
structure Selection where
  node : Nat
  field : String
  byParent : List (List Value × List Value)
  deriving Repr

namespace Selection

def members (selection : Selection) (parent : List Value) : Outcome (List Value) :=
  if parent.all Value.hashable then
    .ok (((selection.byParent.find? fun entry => Value.sameKeys entry.1 parent).map (·.2)).getD [])
  else Outcome.wrongType

/-- The members under any parent, each once. -/
def allMembers (selection : Selection) : List Value :=
  Value.distinct (selection.byParent.flatMap (·.2))

def ofRows (visit : Visit Node) (field : String) (ref : MeasureRef) (rows : List Row) :
    Outcome Selection := do
  let above := visit.scope
  let candidates := rows.map fun row => (row.project above, (row.get field, row.get ref.column))
  if candidates.all fun entry => entry.1.all Value.hashable then
    let byParent ← (Groups.ofList Value.sameKeys candidates).mapM fun entry => do
      return (entry.1, ← rank entry.2 visit.node.order.ranking)
    return ⟨visit.node.id, field, byParent⟩
  else Outcome.wrongType

end Selection

structure ResolvedTable where
  table : Table
  rowMembers : List Selection
  colMembers : List Selection
  discoveryQueries : List GroupingQuery
  deriving Repr

namespace ResolvedTable

def selections (resolved : ResolvedTable) : Side → List Selection
  | .rows => resolved.rowMembers
  | .cols => resolved.colMembers

def selection? (resolved : ResolvedTable) (side : Side) (node : Nat) : Option Selection :=
  (resolved.selections side).find? fun selection => selection.node == node

end ResolvedTable

namespace Table

def resolveNode (side : Side) (plan : DiscoveryPlan) (results : Results) (visit : Visit Node) :
    Outcome Selection :=
  let field := visit.node.field?.getD ""
  match (plan.nodeKeys.lookup (side, visit.node.id)).bind fun key => results.lookup key,
      visit.node.order.orderBy with
  | some rows, some ref => Selection.ofRows visit field ref rows
  | _, _ => .error (.plan (.noDiscoveryResult field))

def resolve (table : Table) (plan : DiscoveryPlan) (results : Results) : Outcome ResolvedTable := do
  let rowMembers ← table.rows.pendingVisits.mapM (resolveNode .rows plan results)
  let colMembers ← table.cols.pendingVisits.mapM (resolveNode .cols plan results)
  return { table, rowMembers, colMembers, discoveryQueries := plan.queries }

end Table

/-! ### Plans -/

/-- Where a crossing reads its numbers. -/
structure CellSource where
  row : Nat
  col : Nat
  key : String
  measures : List String
  /-- The key of the denominator of each share. -/
  denominators : List (String × String)
  deriving Repr

structure QueryPlan where
  discoveryQueries : List GroupingQuery
  mainQueries : List GroupingQuery
  cells : List CellSource
  deriving Repr

namespace QueryPlan

def query? (plan : QueryPlan) (key : String) : Option GroupingQuery :=
  plan.mainQueries.find? fun query => query.key == key

def cell? (plan : QueryPlan) (row col : Nat) : Option CellSource :=
  plan.cells.find? fun cell => cell.row == row && cell.col == col

def describe (plan : QueryPlan) : List String :=
  (plan.discoveryQueries ++ plan.mainQueries).map GroupingQuery.describe

end QueryPlan

namespace ResolvedTable

variable (resolved : ResolvedTable)

def memberFilters (side : Side) (branch : List Node) : List Filter :=
  branch.filterMap fun node =>
    (resolved.selection? side node.id).map fun selection =>
      .member selection.field selection.allMembers

def checkResolved : Outcome Unit :=
  match resolved.table.pendingVisits.find? fun (side, visit) =>
      (resolved.selection? side visit.node.id).isNone with
  | some (_, visit) => .error (.plan (.pendingOrdering (visit.node.field?.getD "")))
  | none => .ok ()

def cellRequest (rowBranch colBranch : List Node) : QueryRequest where
  fields := fieldsOf rowBranch ++ fieldsOf colBranch
  aggregates := (resolved.table.cellMeasures rowBranch colBranch).map Measure.base
  filter := resolved.table.queryFilter
    (resolved.memberFilters .rows rowBranch ++ resolved.memberFilters .cols colBranch)

/-- The request for the denominator of a share: the other side is dropped. -/
def denominatorRequest (rowBranch colBranch : List Node)
    (measure : Measure) : Option QueryRequest :=
  measure.across.map fun
    | .cols => {
        fields := fieldsOf rowBranch
        aggregates := [measure.base]
        filter := resolved.table.queryFilter (resolved.memberFilters .rows rowBranch) }
    | .rows => {
        fields := fieldsOf colBranch
        aggregates := [measure.base]
        filter := resolved.table.queryFilter (resolved.memberFilters .cols colBranch) }

/-- The requests of a crossing: its own, then those of its denominators. -/
def crossingRequests (rowBranch colBranch : List Node) : List QueryRequest :=
  resolved.cellRequest rowBranch colBranch ::
    (resolved.table.cellMeasures rowBranch colBranch).filterMap
      (resolved.denominatorRequest rowBranch colBranch)

def cellSource (row col : Nat) (rowBranch colBranch : List Node) : CellSource :=
  let measures := resolved.table.cellMeasures rowBranch colBranch
  { row, col
    key := (resolved.cellRequest rowBranch colBranch).key
    measures := measures.map (·.name)
    denominators := measures.filterMap fun measure =>
      (resolved.denominatorRequest rowBranch colBranch measure).map fun request =>
        (measure.name, request.key) }

def crossings (table : Table) : List ((Nat × List Node) × (Nat × List Node)) :=
  table.rows.branches.zipIdx.flatMap fun (rowBranch, row) =>
    table.cols.branches.zipIdx.map fun (colBranch, col) => ((row, rowBranch), (col, colBranch))

/-- The queries that fill every cell, and where each crossing reads them. -/
def plan : Outcome QueryPlan := do
  resolved.table.validate
  resolved.checkResolved
  let crossings := crossings resolved.table
  return {
    discoveryQueries := resolved.discoveryQueries
    mainQueries := mergeRequests .main (crossings.flatMap fun ((_, rowBranch), (_, colBranch)) =>
      resolved.crossingRequests rowBranch colBranch)
    cells := crossings.map fun ((row, rowBranch), (col, colBranch)) =>
      resolved.cellSource row col rowBranch colBranch }

end ResolvedTable

end Crosstab
