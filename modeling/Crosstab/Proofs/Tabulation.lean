import Crosstab.Proofs.Grid.Cells
import Crosstab.Proofs.Source.Grouping

/-!
# Tabulations

A statement that was tabulated over rows in memory, with the results of all stages on the way.
-/
namespace Crosstab

open Source

/-- The results of all stages from a statement to its grid. -/
structure Tabulation (schema : Schema) (settings : Settings) (statement : Statement)
    (source : List Row) where
  table : Table
  discovery : DiscoveryPlan
  found : Results
  resolved : ResolvedTable
  plan : QueryPlan
  results : Results
  rows : Expanded
  cols : Expanded
  grid : Grid
  compiled : Table.compile schema settings.includeNulls statement = .ok table
  discovered : table.discover = .ok discovery
  explored : answerAll source discovery.queries = .ok found
  fixed : table.resolve discovery found = .ok resolved
  planned : resolved.plan = .ok plan
  executed : answerAll source plan.mainQueries = .ok results
  expandedRows : (resolved.expansion plan results settings .rows).expandAxis
    resolved.table.rows = .ok rows
  expandedCols : (resolved.expansion plan results settings .cols).expandAxis
    resolved.table.cols = .ok cols
  assembled : resolved.assemble settings plan results = .ok grid

namespace Tabulation

variable {schema : Schema} {settings : Settings} {statement : Statement} {source : List Row}

def run (schema : Schema) (settings : Settings) (statement : Statement) (source : List Row) :
    Outcome (Tabulation schema settings statement source) := do
  let ⟨table, compiled⟩ ← (Table.compile schema settings.includeNulls statement).attach
  let ⟨discovery, discovered⟩ ← table.discover.attach
  let ⟨found, explored⟩ ← (answerAll source discovery.queries).attach
  let ⟨resolved, fixed⟩ ← (table.resolve discovery found).attach
  let ⟨plan, planned⟩ ← resolved.plan.attach
  let ⟨results, executed⟩ ← (answerAll source plan.mainQueries).attach
  let ⟨rows, expandedRows⟩ ←
    ((resolved.expansion plan results settings .rows).expandAxis resolved.table.rows).attach
  let ⟨cols, expandedCols⟩ ←
    ((resolved.expansion plan results settings .cols).expandAxis resolved.table.cols).attach
  let ⟨grid, assembled⟩ ← (resolved.assemble settings plan results).attach
  return {
    table, discovery, found, resolved, plan, results, rows, cols, grid, compiled, discovered,
    explored, fixed, planned, executed, expandedRows, expandedCols, assembled }

/-- What can be decided of the outcome of a run holds of a tabulation. -/
theorem exists_of_run {P : Tabulation schema settings statement source → Prop} [DecidablePred P]
    (met : (run schema settings statement source).toOption.any fun t => P t) : ∃ t, P t := by
  obtain ⟨t, _, met⟩ := (Option.any_eq_true _ _).mp met
  exact ⟨t, of_decide_eq_true met⟩

/-- Every stage has one result, so a statement is tabulated in one way. -/
instance : Subsingleton (Tabulation schema settings statement source) where
  allEq t t' := by
    obtain ⟨_, _, _, _, _, _, _, _, _, compiled, discovered, explored, fixed, planned, executed,
      expandedRows, expandedCols, assembled⟩ := t
    obtain ⟨_, _, _, _, _, _, _, _, _, compiled', discovered', explored', fixed', planned', executed',
      expandedRows', expandedCols', assembled'⟩ := t'
    cases compiled.symm.trans compiled'
    cases discovered.symm.trans discovered'
    cases explored.symm.trans explored'
    cases fixed.symm.trans fixed'
    cases planned.symm.trans planned'
    cases executed.symm.trans executed'
    cases expandedRows.symm.trans expandedRows'
    cases expandedCols.symm.trans expandedCols'
    cases assembled.symm.trans assembled'
    rfl

variable (t : Tabulation schema settings statement source)

theorem resolved_table : t.resolved.table = t.table := (Table.resolve_eq_ok t.fixed).1

theorem wellFormed : t.resolved.table.WellFormed schema := by
  rw [t.resolved_table]
  exact Table.wellFormed_of_compile t.compiled

theorem answers : Answers t.resolved.requests t.plan.mainQueries :=
  (ResolvedTable.plan_eq_ok t.planned).2.2.2.1

def expansion (side : Side) : Expansion := t.resolved.expansion t.plan t.results settings side

def expanded : Side → Expanded
  | .rows => t.rows
  | .cols => t.cols

theorem expandAxis_eq (side : Side) :
    (t.expansion side).expandAxis (t.resolved.table.axis side) = .ok (t.expanded side) := by
  cases side with
  | rows => exact t.expandedRows
  | cols => exact t.expandedCols


variable {schema : Schema} {settings : Settings} {statement : Statement} {source : List Row}
  (t : Tabulation schema settings statement source)

theorem find_answer {query : GroupingQuery} (member : query ∈ t.plan.mainQueries) :
    t.plan.query? query.key = some query ∧ ∃ records,
      t.results.lookup query.key = some records ∧ answer source query = .ok records :=
  ⟨find?_of_nodup_map t.answers.nodup_keys member,
    lookup_answerAll t.executed t.answers.nodup_keys member⟩

end Tabulation

end Crosstab
