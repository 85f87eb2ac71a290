import Crosstab.Proofs.Axis.Hiding
import Crosstab.Proofs.Grid.Overwriting
import Crosstab.Proofs.Statement.WellFormed

/-!
# Which measures are shown

A measure is missing from all crossings exactly if its bindings are hidden on every branch, and no
crossing is without bindings.
-/
namespace Crosstab

open List Item ResolvedTable Outcome Axis Crosstab.Measure

namespace Table

variable {schema : Schema} {includeNulls : Value} {statement : Statement} {table : Table}

/-- The name is bound on some branch. -/
def Binds (table : Table) (name : String) : Prop :=
  ∃ side, ∃ branch ∈ (table.axis side).branches,
    ∃ names ∈ (table.axis side).bindingsAlong branch, name ∈ names

/-- Nothing is bound along two branches, so that all measures are shown where they cross. -/
def Unbound (table : Table) (rowBranch colBranch : List Node) : Prop :=
  ∀ names ∈ table.rows.bindingsAlong rowBranch ++ table.cols.bindingsAlong colBranch, names = []

/-- Wherever the name is bound something is bound further down, on every branch through that place,
and something is bound in every crossing. -/
def Hides (table : Table) (name : String) : Prop :=
  (∀ side, ∀ branch ∈ (table.axis side).branches, (table.axis side).Hides branch name) ∧
    ∀ rowBranch ∈ table.rows.branches, ∀ colBranch ∈ table.cols.branches,
      ¬table.Unbound rowBranch colBranch

variable {rowBranch colBranch : List Node} {measure : Measure}

private theorem mem_cellMeasures_iff (wellFormed : table.WellFormed schema)
    (listed : measure ∈ table.measures) :
    measure ∈ table.cellMeasures rowBranch colBranch ↔
      ¬table.rows.Hides rowBranch measure.name ∨ ¬table.cols.Hides colBranch measure.name ∨
        table.Unbound rowBranch colBranch := by
  have unbound : table.Unbound rowBranch colBranch ↔
      table.rows.branchMeasures rowBranch ++ table.cols.branchMeasures colBranch = [] := by
    rw [Unbound, forall_mem_append, append_eq_nil_iff, branchMeasures_eq_nil_iff,
      branchMeasures_eq_nil_iff]
  rw [unbound, ← mem_branchMeasures_iff, ← mem_branchMeasures_iff, ← or_assoc, ← mem_append]
  unfold cellMeasures
  simp only
  split
  next none => simp [isEmpty_iff.mp none, listed]
  next some =>
    rw [List.isEmpty_iff] at some
    rw [or_iff_left some, mem_filterMap]
    constructor
    · rintro ⟨name, bound, found⟩
      have named : measure.name = name := by simpa using find?_some found
      rw [named]
      exact mem_eraseDups.mp bound
    · intro bound
      exact ⟨measure.name, mem_eraseDups.mpr bound, wellFormed.measure?_name listed⟩

/-- There is a crossing with every branch, since no axis is without branches. -/
theorem exists_crossing_iff (wellFormed : table.WellFormed schema)
    (listed : measure ∈ table.measures) :
    (∃ rowBranch ∈ table.rows.branches, ∃ colBranch ∈ table.cols.branches,
        measure ∈ table.cellMeasures rowBranch colBranch) ↔ ¬table.Hides measure.name := by
  obtain ⟨someRow, _, rows⟩ := exists_cons_of_ne_nil table.rows.branches_ne_nil
  obtain ⟨someCol, _, cols⟩ := exists_cons_of_ne_nil table.cols.branches_ne_nil
  have inRows : someRow ∈ table.rows.branches := by simp [rows]
  have inCols : someCol ∈ table.cols.branches := by simp [cols]
  simp only [mem_cellMeasures_iff wellFormed listed]
  constructor
  · rintro ⟨rowBranch, alongRow, colBranch, alongCol, shown | shown | unbound⟩ hides
    · exact shown (hides.1 .rows rowBranch alongRow)
    · exact shown (hides.1 .cols colBranch alongCol)
    · exact hides.2 rowBranch alongRow colBranch alongCol unbound
  · intro notHidden
    by_contra missing
    simp only [not_exists, not_and, not_or, not_not] at missing
    refine notHidden ⟨?_, fun rowBranch alongRow colBranch alongCol =>
      (missing rowBranch alongRow colBranch alongCol).2.2⟩
    intro side branch along
    cases side with
    | rows => exact (missing branch along someCol inCols).1
    | cols => exact (missing someRow inRows branch along).2.1

section

/-- Names for all bindings stand in the clauses, each in the place of its binding. -/
theorem clauseBindings_named {names : List (List String)}
    (length : names.length = statement.bindings.length) :
    clauseBindings ((statement.named names .rows).getD []) ++
        clauseBindings ((statement.named names .cols).getD []) = names ∧
      ∀ side, (clauseBindings ((statement.named names side).getD [])).length =
        (clauseBindings (statement.clause side)).length := by
  rw [Statement.bindings, length_append] at length
  obtain ⟨inRows, left⟩ := clauseBindings_relabelClause ([] : List String)
    (show (clauseBindings statement.rows).length ≤ names.length by omega)
  have rest : (relabelClause [] statement.rows names).2.length =
      (clauseBindings (statement.cols.getD [])).length := by
    rw [left, length_drop]
    omega
  have inCols := clauseBindings_relabel_of_length ([] : List String) rest
  refine ⟨?_, ?_⟩
  · rw [Statement.named, Option.getD_some, inRows, Statement.named, inCols, left, take_append_drop]
  · intro side
    cases side with
    | rows =>
      rw [Statement.named, Option.getD_some, inRows, length_take]
      exact Nat.min_eq_left (by omega)
    | cols =>
      rw [Statement.named, inCols, rest]
      rfl

variable (compiled : Table.compile schema includeNulls statement = .ok table)
include compiled

private theorem binds_of_compile (requested : statement.bindings ≠ [])
    (listed : measure ∈ table.measures) : table.Binds measure.name := by
  obtain ⟨measures, names, made⟩ := compile_eq_ok_iff.mp compiled
  have own : measure ∈ measures := by
    rw [made.measures, orRowCount, if_neg] at listed
    · exact listed
    · exact fun none => ne_nil_of_bindAll made.bound requested (isEmpty_iff.mp none)
  have named := ((mem_names_bindAll made.bound).mp (mem_map_of_mem own)).resolve_left not_mem_nil
  rw [← (clauseBindings_named (length_of_bindAll made.bound)).1, mem_flatten] at named
  obtain ⟨group, inside, within⟩ := named
  rcases mem_append.mp inside with inRows | inCols
  · exact ⟨.rows, exists_bindingsAlong (made.axis .rows) inRows within⟩
  · exact ⟨.cols, exists_bindingsAlong (made.axis .cols) inCols within⟩

theorem branchMeasures_eq_nil_of_compile (side : Side)
    (unbound : clauseBindings (statement.clause side) = []) {branch : List Node}
    (along : branch ∈ (table.axis side).branches) :
    (table.axis side).branchMeasures branch = [] := by
  obtain ⟨_, names, made⟩ := compile_eq_ok_iff.mp compiled
  have none : clauseBindings ((statement.named names side).getD []) = [] := by
    rw [← length_eq_zero_iff, (clauseBindings_named (length_of_bindAll made.bound)).2, unbound,
      length_nil]
  rw [eq_nil_iff_forall_not_mem]
  intro name shown
  exact names_of_ofClause (P := fun _ => False) (by simp [none]) (made.axis side) along shown

private theorem measures_of_compile (unrequested : statement.bindings = []) :
    table.measures = [rowCount] := by
  obtain ⟨measures, names, made⟩ := compile_eq_ok_iff.mp compiled
  have bound := made.bound
  rw [unrequested] at bound
  cases bound
  exact made.measures

private theorem unbound_of_compile
    (unrequested : statement.bindings = []) (alongRow : rowBranch ∈ table.rows.branches)
    (alongCol : colBranch ∈ table.cols.branches) : table.Unbound rowBranch colBranch := by
  obtain ⟨noRows, noCols⟩ := append_eq_nil_iff.mp unrequested
  have ofRows : table.rows.branchMeasures rowBranch = [] :=
    branchMeasures_eq_nil_of_compile compiled .rows noRows alongRow
  have ofCols : table.cols.branchMeasures colBranch = [] :=
    branchMeasures_eq_nil_of_compile compiled .cols noCols alongCol
  rw [branchMeasures_eq_nil_iff] at ofRows ofCols
  exact forall_mem_append.mpr ⟨ofRows, ofCols⟩

end

/-- A measure of a crossing is aggregated by the query of the crossing. -/
theorem exists_query_of_shown {resolved : ResolvedTable} {plan : QueryPlan}
    (planned : resolved.plan = .ok plan) (alongRow : rowBranch ∈ resolved.table.rows.branches)
    (alongCol : colBranch ∈ resolved.table.cols.branches)
    (shown : measure ∈ resolved.table.cellMeasures rowBranch colBranch) :
    ∃ query ∈ plan.mainQueries, query.key = (resolved.cellRequest rowBranch colBranch).key ∧
      measure.base ∈ query.aggregates := by
  obtain ⟨_, _, _, answers, _⟩ := plan_eq_ok planned
  have asked : resolved.cellRequest rowBranch colBranch ∈ resolved.requests :=
    mem_requests.mpr ⟨rowBranch, alongRow, colBranch, alongCol, mem_cons_self⟩
  obtain ⟨query, listed, key⟩ := answers.exists_query asked
  refine ⟨query, listed, key, (answers.aggregates query listed _).mpr ⟨_, asked, key.symm, ?_⟩⟩
  exact mem_map_of_mem shown

/-- A measure of a crossing stands in its cell, if no later leaves have the same paths. -/
theorem exists_value_of_shown {settings : Settings} {source : List Row}
    (t : Tabulation schema settings statement source) {row col : Leaf} (inRows : row ∈ t.rows.2)
    (inCols : col ∈ t.cols.2) (lastRow : Leaf.lastAt t.rows.2 row.path = some row)
    (lastCol : Leaf.lastAt t.cols.2 col.path = some col)
    (shown : measure ∈ t.table.cellMeasures row.branch col.branch) :
    ∃ value ∈ t.grid.valuesAt row.path col.path, value.measure = measure.name ∧
      t.resolved.readMeasure t.plan t.results row col measure = .ok value.raw := by
  obtain ⟨_, row', col', atRow, atCol, fills⟩ :=
    fills_last t.assembled t.expandedRows t.expandedCols inRows inCols
  cases lastRow.symm.trans atRow
  cases lastCol.symm.trans atCol
  obtain ⟨_, _, _, values⟩ := (fills_iff t.wellFormed t.planned
    (Expansion.branch_mem t.expandedRows inRows) (Expansion.branch_mem t.expandedCols inCols)).mp fills
  rw [← t.resolved_table] at shown
  obtain ⟨value, listed, shows⟩ := exists_right_of_forall₂ values shown
  obtain ⟨raw, read, shows⟩ := bind_eq_ok.mp shows
  obtain ⟨formatted, _, shows⟩ := bind_eq_ok.mp shows
  cases shows
  exact ⟨_, listed, rfl, read⟩

/-- Every measure that a statement asks for is bound on some branch, and it is shown in a crossing
unless deeper bindings hide it everywhere; where nothing is asked for, the number of rows stands in and
is never hidden. What is shown in a crossing is aggregated by the query of the crossing, and
stands in the cell of the leaves that end its branches, if they are the last with their paths. -/
theorem measure_shown_unless_hidden
    (compiled : Table.compile schema includeNulls statement = .ok table) {measure : Measure}
    (listed : measure ∈ table.measures) :
    (statement.bindings ≠ [] → table.Binds measure.name) ∧
    (statement.bindings = [] → table.measures = [Measure.rowCount] ∧ ¬table.Hides measure.name) ∧
    ((∃ rowBranch ∈ table.rows.branches, ∃ colBranch ∈ table.cols.branches,
        measure ∈ table.cellMeasures rowBranch colBranch) ↔ ¬table.Hides measure.name) ∧
    (∀ (resolved : ResolvedTable) (plan : QueryPlan), resolved.table = table →
      resolved.plan = .ok plan → ∀ rowBranch ∈ table.rows.branches, ∀ colBranch ∈ table.cols.branches,
        measure ∈ table.cellMeasures rowBranch colBranch →
          ∃ query ∈ plan.mainQueries, query.key = (resolved.cellRequest rowBranch colBranch).key ∧
            measure.base ∈ query.aggregates) ∧
    ∀ (settings : Settings) (source : List Row) (t : Tabulation schema settings statement source),
      t.table = table → ∀ row ∈ t.rows.2, ∀ col ∈ t.cols.2,
        Leaf.lastAt t.rows.2 row.path = some row → Leaf.lastAt t.cols.2 col.path = some col →
          measure ∈ table.cellMeasures row.branch col.branch →
            ∃ value ∈ t.grid.valuesAt row.path col.path, value.measure = measure.name ∧
              t.resolved.readMeasure t.plan t.results row col measure = .ok value.raw := by
  have wellFormed := wellFormed_of_compile compiled
  refine ⟨fun requested => binds_of_compile compiled requested listed, fun unrequested => ?_,
    exists_crossing_iff wellFormed listed, ?_, ?_⟩
  · obtain ⟨row, _, rows⟩ := List.exists_cons_of_ne_nil table.rows.branches_ne_nil
    obtain ⟨col, _, cols⟩ := List.exists_cons_of_ne_nil table.cols.branches_ne_nil
    have inRows : row ∈ table.rows.branches := by simp [rows]
    have inCols : col ∈ table.cols.branches := by simp [cols]
    refine ⟨measures_of_compile compiled unrequested, fun hides => ?_⟩
    exact hides.2 row inRows col inCols (unbound_of_compile compiled unrequested inRows inCols)
  · rintro resolved plan rfl planned rowBranch alongRow colBranch alongCol shown
    exact exists_query_of_shown planned alongRow alongCol shown
  · rintro settings source t rfl row inRows col inCols lastRow lastCol shown
    exact exists_value_of_shown t inRows inCols lastRow lastCol shown

/-- Jobs below towns, with the pay bound to the towns and the age to the jobs of only one section: the
pay is hidden on the branches through jobs and shown on the others. -/
theorem pay_shown_beside_jobs :
    let schema := Schema.ofNames ["town", "job"] ["pay", "age"]
    let statement : Statement := { rows := [[.column "town", .axis [[.measure "pay" ["sum"]],
      [.column "job", .measure "age" ["mean"]], [.overall]]]] }
    ∃ table, Table.compile schema .null statement = .ok table ∧
      ∃ pay ∈ table.measures, pay.name = "sum_pay" ∧ table.Binds pay.name ∧
        ¬table.Hides pay.name ∧
        table.rows.branches.map (fun branch => (table.cellMeasures branch []).map Measure.name) =
          [["mean_age"], ["sum_pay"]] := by
  intro schema statement
  obtain ⟨table, compiled, cells, pay, listed, named, row, alongRow, col, alongCol, shown, inCell,
      same⟩ : ∃ table, Table.compile schema .null statement = .ok table ∧
        table.rows.branches.map (fun branch => (table.cellMeasures branch []).map Measure.name) =
          [["mean_age"], ["sum_pay"]] ∧
        ∃ pay ∈ table.measures, pay.name = "sum_pay" ∧
          ∃ row ∈ table.rows.branches, ∃ col ∈ table.cols.branches,
            ∃ shown ∈ table.cellMeasures row col, shown.name = pay.name := by
    decide +kernel
  have own : shown = pay := List.inj_on_of_nodup_map (wellFormed_of_compile compiled).names
    (mem_measures_of_mem_cellMeasures inCell) listed same
  obtain ⟨binds, _, crossed, _⟩ := measure_shown_unless_hidden compiled listed
  exact ⟨table, compiled, pay, listed, named, binds (List.cons_ne_nil _ _),
    crossed.mp ⟨row, alongRow, col, alongCol, own ▸ inCell⟩, cells⟩

/-- The pay of everyone beside the mean age by town: the age is bound to the towns, which are the only
branches, so the pay is shown nowhere. -/
theorem outer_measure_hidden :
    let schema := Schema.ofNames ["town"] ["pay", "age"]
    let statement : Statement :=
      { rows := [[.measure "pay" ["sum"]], [.column "town", .measure "age" ["mean"]]] }
    ∃ table, Table.compile schema .null statement = .ok table ∧
      ∃ pay ∈ table.measures, pay.name = "sum_pay" ∧
        ¬∃ rowBranch ∈ table.rows.branches, ∃ colBranch ∈ table.cols.branches,
          pay ∈ table.cellMeasures rowBranch colBranch := by
  intro schema statement
  obtain ⟨table, compiled, pay, listed, named, missing⟩ :
      ∃ table, Table.compile schema .null statement = .ok table ∧
        ∃ pay ∈ table.measures, pay.name = "sum_pay" ∧
          ∀ row ∈ table.rows.branches, ∀ col ∈ table.cols.branches,
            ∀ shown ∈ table.cellMeasures row col, shown.name ≠ pay.name := by
    decide +kernel
  refine ⟨table, compiled, pay, listed, named, ?_⟩
  rintro ⟨row, alongRow, col, alongCol, shown⟩
  exact missing row alongRow col alongCol pay shown rfl

end Table

end Crosstab
