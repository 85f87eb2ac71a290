import Crosstab.Proofs.Grid.DirectValue
import Crosstab.Proofs.Tabulation

/-!
# Rows that do not count

A row that does not count passes no query, and without such rows every query has the same answer.
-/
namespace Crosstab

open Outcome

namespace Source

variable {source matched records : List Row} {query : GroupingQuery} {keeps : Row → Bool}

/-- Rows that pass a filter are found among fewer rows, if none of them is left out. -/
theorem matching_filter {filter : Option Filter} (passed : matching filter source = .ok matched)
    (kept : ∀ row ∈ source, (Filter.passes filter row).isTrue → keeps row) :
    matching filter (source.filter keeps) = .ok matched := by
  obtain ⟨answered, rfl⟩ := filterM_eq_ok passed
  rw [matching, filterM_of_answered fun row member => answered row (List.mem_filter.mp member).1,
    List.filter_filter]
  congr 1
  apply List.filter_congr
  intro row member
  rw [Bool.eq_iff_iff, Bool.and_eq_true, and_iff_left_iff_imp]
  exact kept row member

/-- A query is answered alike without rows that it does not select. -/
theorem answer_filter (answered : answer source query = .ok records)
    (kept : ∀ row ∈ source, (Filter.passes query.filter row).isTrue → keeps row) :
    answer (source.filter keeps) query = .ok records := by
  obtain ⟨matched, passed, grouped⟩ := bind_eq_ok.mp answered
  exact bind_eq_ok.mpr ⟨matched, matching_filter passed kept, grouped⟩

private theorem answerAll_filter {queries : List GroupingQuery} {results : Results}
    (answered : answerAll source queries = .ok results)
    (kept : ∀ query ∈ queries, ∀ row ∈ source,
      (Filter.passes query.filter row).isTrue → keeps row) :
    answerAll (source.filter keeps) queries = .ok results := by
  have each := mapM_eq_ok.mp answered
  refine mapM_eq_ok.mpr (((List.forall₂_and_left _ _).mpr ⟨kept, each⟩).imp ?_)
  rintro query entry ⟨keptBy, returned⟩
  obtain ⟨records, own, returned⟩ := bind_eq_ok.mp returned
  exact bind_eq_ok.mpr ⟨records, answer_filter own keptBy, returned⟩

end Source

/-! ### Filters of queries -/

/-- A query under the filter of the table, possibly narrowed. -/
def Table.Guards (table : Table) (query : GroupingQuery) : Prop :=
  ∃ narrow, query.filter = table.queryFilter narrow

private theorem Table.Guards.counts {table : Table} {query : GroupingQuery} (guarded : table.Guards query)
    {row : Row} (passed : (Filter.passes query.filter row).isTrue) : table.counts row := by
  obtain ⟨narrow, filter⟩ := guarded
  rw [filter, passes_queryFilter_iff] at passed
  exact passed.1

theorem Answers.guarded {table : Table} {requests : List QueryRequest} {queries : List GroupingQuery}
    (answers : Answers requests queries)
    (asked : ∀ request ∈ requests, ∃ narrow, request.filter = table.queryFilter narrow) :
    ∀ query ∈ queries, table.Guards query := by
  intro query member
  obtain ⟨request, listed, _, _, filter⟩ := answers.exists_request member
  obtain ⟨narrow, narrowed⟩ := asked request listed
  exact ⟨narrow, filter.trans narrowed⟩

/-! ### Tabulations -/

namespace Tabulation

variable {schema : Schema} {settings : Settings} {statement : Statement} {source : List Row}
  (t : Tabulation schema settings statement source)

private theorem guards_discovery : ∀ query ∈ t.discovery.queries, t.table.Guards query := by
  refine (Table.discover_eq_ok t.discovered).2.1.guarded fun request member => ?_
  obtain ⟨entry, _, rfl⟩ := List.mem_map.mp member
  exact ⟨[], rfl⟩

theorem guards_main : ∀ query ∈ t.plan.mainQueries, t.table.Guards query := by
  refine t.answers.guarded fun request member => ?_
  obtain ⟨narrow, filter, _⟩ := ResolvedTable.narrow_of_mem_requests member
  rw [t.resolved_table] at filter
  exact ⟨narrow, filter⟩

/-- Rows that do not count have no influence: without them the statement is tabulated too, with the
same answers at every stage, the same fixed members, the same plan and the same grid. -/
theorem excluded_rows_have_no_influence :
    ∃ t' : Tabulation schema settings statement (source.filter t.table.counts),
      t'.table = t.table ∧ t'.found = t.found ∧ t'.resolved = t.resolved ∧ t'.plan = t.plan ∧
        t'.results = t.results ∧ t'.grid = t.grid := by
  have explored := Source.answerAll_filter t.explored fun query member _ _ =>
    (t.guards_discovery query member).counts
  have executed := Source.answerAll_filter t.executed fun query member _ _ =>
    (t.guards_main query member).counts
  exact ⟨{ t with explored, executed }, rfl, rfl, rfl, rfl, rfl, rfl⟩

/-- Shares of the best paid job beside a total, where one row has no job and another is filtered out:
three of five rows count, and they alone make the grid. -/
theorem shares_without_excluded_rows :
    let schema := Schema.ofNames ["job", "town"] ["pay"]
    let statement : Statement :=
      { rows := [[.leading (-1) "job" "pay" "sum"], [.overall]]
        cols := some [[.column "town", .share "pay" ["sum"] "COLS"]]
        filter := some (.comparison "pay" "<" 50) }
    let source := Row.table ["job", "town", "pay"] [["clerk", "York", 90], ["cook", "York", 5],
      [.null, "Hull", 40], ["cook", "Bath", 15], ["clerk", "York", 12]]
    let shares := [("job=cook", "town=Bath", "0.75"), ("job=cook", "town=York", "0.25"),
      ("ALL", "town=Bath", "0.46875"), ("ALL", "town=York", "0.53125")]
    ∃ t : Tabulation schema {} statement source,
      ∃ t' : Tabulation schema {} statement (source.filter t.table.counts),
        (source.filter t.table.counts).length = 3 ∧ t'.resolved = t.resolved ∧
        t'.plan = t.plan ∧ t'.grid = t.grid ∧
        (t'.grid.records.map fun record => (record.row, record.col, record.raw.plain)) =
          shares := by
  intro schema statement source shares
  obtain ⟨t, counted, shown⟩ : ∃ t : Tabulation schema {} statement source,
      (source.filter t.table.counts).length = 3 ∧
      (t.grid.records.map fun record => (record.row, record.col, record.raw.plain)) = shares :=
    exists_of_run (by decide +kernel)
  obtain ⟨t', _, _, resolved, plan, _, grid⟩ := excluded_rows_have_no_influence t
  refine ⟨t, t', counted, resolved, plan, grid, ?_⟩
  rw [grid]
  exact shown

end Tabulation

end Crosstab
