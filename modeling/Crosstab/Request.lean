import Crosstab.Executor
import Crosstab.Grid.Assembly

/-!
# Requests

A request compiles a statement, has the discovery queries answered, fixes the members, has the
planned queries answered and assembles the grid.
-/
namespace Crosstab

inductive Response where
  | grid (grid : Grid)
  | records (records : List Record)
  | typed (records : List Record)
  deriving Repr

def Response.ofGrid (form : Value) (grid : Grid) : Outcome Response :=
  match form with
  | .text "grid" => .ok (.grid grid)
  | .text "dict" => .ok (.records grid.records)
  | .text "arrow" => do return .typed (← grid.typedRecords)
  | _ => .error (.invalid (.unknownResultForm form))

namespace Request

variable {σ : Type}

/-- A failure of a query: errors of the engine itself pass unchanged, all others are wrapped. -/
def queryFailure (query : GroupingQuery) (error : Error) : Error :=
  if error.isOwn then error else .execution (.failed query.describe error.message)

def timeoutFailure (settings : Settings) (query : GroupingQuery) : Error :=
  .execution (.timedOut settings.queryTimeout.plain query.describe)

def timedFailure (settings : Settings) (query : GroupingQuery) (error : Error) : Error :=
  if error.isTimeout then timeoutFailure settings query else queryFailure query error

def executeOne (execute : GroupingQuery → Run σ (List Row)) (query : GroupingQuery) :
    Run σ (String × List Row) := do
  match ← (execute query).attempt with
  | .ok rows => return (query.key, rows)
  | .error error => throw (queryFailure query error)

/-- Executes queries one after the other, up to the first failure. -/
def executeInOrder (execute : GroupingQuery → Run σ (List Row)) (queries : List GroupingQuery) :
    Run σ Results :=
  queries.mapM (executeOne execute)

def compile (schema : Schema) (settings : Settings) (document : Value) : Outcome Table := do
  Table.compile schema settings.includeNulls (← Statement.ofDocument document)

/-- Fixes the members by the results of discovery, and plans the queries. -/
def planAfter (table : Table) (discovery : DiscoveryPlan) (found : Results) :
    Outcome (ResolvedTable × QueryPlan) := do
  let resolved ← table.resolve discovery found
  return (resolved, ← resolved.plan)

/-- Takes a compiled table to its grid, given how a wave of queries is executed. -/
def runTable (wave : List GroupingQuery → Run σ Results) (settings : Settings) (table : Table) :
    Run σ Grid := do
  let discovery ← Run.ofOutcome table.discover
  let found ← wave discovery.queries
  let (resolved, plan) ← Run.ofOutcome (planAfter table discovery found)
  let results ← wave plan.mainQueries
  Run.ofOutcome (resolved.assemble settings plan results)

def run (execute : GroupingQuery → Run σ (List Row)) (schema : Schema) (settings : Settings)
    (document form : Value) : Run σ Response := do
  let table ← Run.ofOutcome (compile schema settings document)
  let grid ← runTable (executeInOrder execute) settings table
  Run.ofOutcome (Response.ofGrid form grid)

def checkConcurrency (settings : Settings) : Outcome Unit :=
  match settings.maxConcurrentQueries.less? (.int 0) with
  | some false => .ok ()
  | some true => .error (.invalid .negativeConcurrency)
  | none => Outcome.wrongType

end Request

inductive Progress where
  /-- The results of discovery. -/
  | discovering (table : Table) (plan : DiscoveryPlan)
  /-- The results of the planned queries. -/
  | tabulating (resolved : ResolvedTable) (plan : QueryPlan)

/-- Where a request stands when it needs no more results, or has to wait for some. -/
inductive Reached where
  | awaiting (progress : Progress)
  | complete (grid : Grid)

namespace Progress

def queries : Progress → List GroupingQuery
  | discovering _ plan => plan.queries
  | tabulating _ plan => plan.mainQueries

def discovered (settings : Settings) (table : Table) (discovery : DiscoveryPlan) (found : Results) :
    Outcome Reached := do
  let (resolved, plan) ← Request.planAfter table discovery found
  if plan.mainQueries.isEmpty then return .complete (← resolved.assemble settings plan [])
  else return .awaiting (tabulating resolved plan)

/-- Starts with a compiled table; nothing is awaited where nothing is to be discovered. -/
def ofTable (settings : Settings) (table : Table) : Outcome Reached := do
  let discovery ← table.discover
  if discovery.queries.isEmpty then discovered settings table discovery []
  else return .awaiting (discovering table discovery)

/-- Starts a request whose queries are executed several at a time. -/
def start (schema : Schema) (settings : Settings) (document : Value) : Outcome Reached := do
  let table ← Request.compile schema settings document
  Request.checkConcurrency settings
  ofTable settings table

def next (settings : Settings) (results : Results) : Progress → Outcome Reached
  | discovering table discovery => discovered settings table discovery results
  | tabulating resolved plan => do return .complete (← resolved.assemble settings plan results)

/-- As many queries as a request can have at most: one or two per crossing besides its own. -/
def queryBound (schema : Schema) (settings : Settings) (document : Value) : Nat :=
  let bound : Outcome Nat := do
    let table ← Request.compile schema settings document
    let discovery ← table.discover
    return discovery.queries.length + 3 * (table.rows.branches.length * table.cols.branches.length)
  match bound with
  | .ok count => count
  | .error _ => 0

end Progress

end Crosstab
