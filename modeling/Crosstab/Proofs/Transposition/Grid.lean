import Crosstab.Proofs.Grid.HeaderMembers
import Crosstab.Proofs.Transposition.Expansion

/-!
# Transposed grids

Exchanging the clauses of a statement transposes its grid: where two leaves cross, the same measures
read the same numbers.
-/
namespace Crosstab

open List ResolvedTable Node

/-- What a measure shows under another name. The description is left out: it lists the members of the
row first. -/
structure CellValue.Turns (newName : String → String) (value turned : CellValue) : Prop where
  measure : turned.measure = newName value.measure
  raw : turned.raw = value.raw
  formatted : turned.formatted = value.formatted

/-- The grid with its sides exchanged, and with its measures under other names. -/
structure Grid.Transposes (newName : String → String) (grid turned : Grid) : Prop where
  headers : ∀ side, turned.headers side = grid.headers side.other
  rowLeaves : turned.rowLeaves = grid.colLeaves
  colLeaves : turned.colLeaves = grid.rowLeaves
  measures : turned.measures = grid.measures.map (Measure.turned newName)
  values : ∀ row col, List.Forall₂ (CellValue.Turns newName) (grid.valuesAt row col)
    (turned.valuesAt col row)

/-! ### Leaves -/

namespace Leaf

/-- Leaves that share no field give a crossing the same values from either side. -/
theorem get_crossValues_comm {rowSteps colSteps : List Step}
    (apart : ∀ field ∈ fieldsOf (rowSteps.map Prod.fst), field ∉ fieldsOf (colSteps.map Prod.fst))
    (field : String) :
    ((ofSteps colSteps).crossValues (ofSteps rowSteps)).get field =
      ((ofSteps rowSteps).crossValues (ofSteps colSteps)).get field := by
  have absent {steps : List Step} (elsewhere : field ∉ fieldsOf (steps.map Prod.fst)) :
      (Step.values steps).get field = .null :=
    Row.get_of_not_mem (mt Step.mem_keys_values.mp elsewhere)
  rw [get_crossValues_ofSteps, get_crossValues_ofSteps]
  by_cases inRow : field ∈ fieldsOf (rowSteps.map Prod.fst)
  · rw [if_pos inRow, if_neg (apart field inRow)]
  · rw [if_neg inRow]
    split
    · rfl
    next elsewhere => rw [absent inRow, absent elsewhere]

end Leaf

namespace Tabulation

variable {schema : Schema} {settings : Settings} {statement : Statement} {source : List Row}
  {t : Tabulation schema settings statement source} {newName : Equiv.Perm String}
  {resolved : ResolvedTable} {plan : QueryPlan} {results : Results}

/-- Two leaves give a crossing the same values, whichever of them is the row. -/
theorem get_crossValues_comm {row col : Leaf} (inRows : row ∈ t.rows.2) (inCols : col ∈ t.cols.2)
    (field : String) : (col.crossValues row).get field = (row.crossValues col).get field := by
  obtain ⟨rowSteps, alongRow, _, rfl⟩ := Expansion.exists_steps t.expandedRows inRows
  obtain ⟨colSteps, alongCol, _, rfl⟩ := Expansion.exists_steps t.expandedCols inCols
  rw [t.resolved_table] at alongRow alongCol
  obtain ⟨valid, _⟩ := Table.discover_eq_ok t.discovered
  exact Leaf.get_crossValues_comm
    (fun _ inRow => Table.not_mem_cols_of_mem_rows valid alongRow alongCol inRow) field

/-! ### Readings -/

namespace TurnedPlan

variable (turned : t.TurnedPlan newName resolved plan results) (asked : t.AnsweredAsAsked)
  {row col : Leaf} (inRows : row ∈ t.rows.2) (inCols : col ∈ t.cols.2)

include turned asked inRows inCols

theorem exists_fills {values : List CellValue}
    (fills : (t.resolved.assembly settings t.plan t.results).Fills row col values) :
    ∃ values', (resolved.assembly settings plan results).Fills (col.recast (renamed newName))
        (row.recast (renamed newName)) values' ∧
      Forall₂ (CellValue.Turns newName) values values' := by
  have alongRow : row.branch ∈ (t.resolved.table.axis .rows).branches :=
    Expansion.branch_mem t.expandedRows inRows
  have alongCol : col.branch ∈ (t.resolved.table.axis .cols).branches :=
    Expansion.branch_mem t.expandedCols inCols
  have alongCol' := turned.mem_branches alongCol
  have alongRow' := turned.mem_branches alongRow
  have alike : CrossesAlike _ _ _ resolved row.branch col.branch
      (col.recast (renamed newName)).branch (row.recast (renamed newName)).branch :=
    turned.turns.crossesAlike newName.injective turned.oneSided t.resolved_filter_evaluated alongRow
      alongCol
  refine alike.exists_fills ?_
    (fun field => congrArg Value.key? (get_crossValues_comm inRows inCols field)) t.wellFormed
    turned.wellFormed t.planned turned.planned alongRow alongCol alongCol' alongRow'
    (fun a b => ⟨b, a⟩) (fun _ _ _ => ⟨rfl, rfl, rfl⟩) fills
  intro request asks request' asks' same
  exact ⟨same.fields, same.aggregates, turned.exists_serves asked
    (mem_requests.mpr ⟨_, alongRow, _, alongCol, asks⟩)
    (mem_requests.mpr ⟨_, alongCol', _, alongRow', asks'⟩) same⟩

end TurnedPlan

/-! ### The grid -/

variable {transposed : Statement}

/-- The transposed statement can be tabulated, and each of its sides is expanded to what the other side
was. -/
theorem exists_transposed (asked : t.AnsweredAsAsked)
    (identical : IdenticalIn t.table.dimensionFields source) (apart : t.table.TextsApart source)
    (oneSided : t.table.BoundOneSide)
    (compiled : Table.compile schema settings.includeNulls transposed =
      .ok (t.table.turned newName)) (faithful : transposed.PlansFaithfully schema settings source) :
    ∃ t' : Tabulation schema settings transposed source,
      t.TurnedPlan newName t'.resolved t'.plan t'.results ∧
        ∀ side, t'.expanded side = (t.expanded side.other).recast (renamed newName) := by
  obtain ⟨discovery, found, resolved, plan, results, plans, turned⟩ :=
    exists_turnedPlan asked oneSided compiled faithful
  have expandedRows := turned.expandAxis_eq asked identical apart .rows
  have expandedCols := turned.expandAxis_eq asked identical apart .cols
  obtain ⟨grid, assembled⟩ := exists_assemble expandedRows expandedCols
    turned.stage.missingKeys_eq_nil (by
      intro row' inRows col' inCols
      obtain ⟨col, there, rfl⟩ := mem_map.mp inRows
      obtain ⟨row, there', rfl⟩ := mem_map.mp inCols
      obtain ⟨⟨values, fills⟩, _⟩ := fills_last t.assembled t.expandedRows
        t.expandedCols there' there
      obtain ⟨values', fills', _⟩ := turned.exists_fills asked there' there fills
      exact ⟨values', fills'⟩)
  refine ⟨⟨_, discovery, found, resolved, plan, results, _, _, grid, compiled, plans.discovered,
    plans.explored, plans.fixed, plans.planned, turned.stage.answered, expandedRows, expandedCols,
    assembled⟩, turned, fun side => ?_⟩
  cases side <;> rfl

/-- Under every two paths stand the same values, whichever of them is that of the row. -/
theorem lookup_transposed {t' : Tabulation schema settings transposed source}
    (asked : t.AnsweredAsAsked) (turned : t.TurnedPlan newName t'.resolved t'.plan t'.results)
    (expanded : ∀ side, t'.expanded side = (t.expanded side.other).recast (renamed newName))
    (row col : Path) :
    Option.Rel (Forall₂ (CellValue.Turns newName)) (Grid.lookup t.grid.cells row col)
      (Grid.lookup t'.grid.cells col row) := by
  have shown := lookup_related t.assembled t.expandedRows t.expandedCols row col
  have shown' := lookup_related t'.assembled t'.expandedRows t'.expandedCols col row
  have lastAt (side : Side) (path : Path) : Leaf.lastAt (t'.expanded side).2 path =
      (Leaf.lastAt (t.expanded side.other).2 path).map (Leaf.recast (renamed newName)) := by
    rw [Leaf.lastAt_eq_getLast?, Leaf.lastAt_eq_getLast?, expanded, Expanded.allAt_recast,
      getLast?_map]
  -- Of several leaves with one path the last one counts, and leaves have kept their order.
  rw [show Leaf.lastAt t'.rows.2 col = _ from lastAt .rows col,
    show Leaf.lastAt t'.cols.2 row = _ from lastAt .cols row, Leaf.crossing_map, Leaf.crossing_swap,
    Option.map_map] at shown'
  refine Assembly.Fills.rel_of_map shown shown' fun lastRow lastCol values crossed fills => ?_
  obtain ⟨inRows, inCols⟩ := Leaf.mem_of_lastCrossing crossed
  exact turned.exists_fills asked inRows inCols fills

/-- Transposition. Where the measures of a statement are bound on one side, the statement with its
clauses exchanged is tabulated too, and its grid is the transposed grid. -/
theorem transposed_grid_of_transposed_statement (t : Tabulation schema settings statement source)
    (asked : t.AnsweredAsAsked) (oneSided : statement.BindsOneSide)
    (identical : IdenticalIn t.table.dimensionFields source) (apart : t.table.TextsApart source)
    (faithful : statement.transpose.PlansFaithfully schema settings source) :
    ∃ (t' : Tabulation schema settings statement.transpose source) (newName : Equiv.Perm String),
      t.grid.Transposes newName t'.grid := by
  obtain ⟨newName, compiled⟩ := Table.exists_compile_transpose oneSided t.compiled
  obtain ⟨t', turned, expanded⟩ := exists_transposed asked identical apart
    (Table.boundOneSide_of_compile oneSided t.compiled) compiled faithful
  obtain ⟨_, _, grid⟩ := ResolvedTable.assembled_eq t.assembled t.expandedRows t.expandedCols
  obtain ⟨_, _, grid'⟩ := ResolvedTable.assembled_eq t'.assembled t'.expandedRows t'.expandedCols
  have paths (side : Side) : (t'.expanded side).2.map Leaf.path =
      (t.expanded side.other).2.map Leaf.path := by
    rw [expanded, Expanded.recast, List.map_map]
    rfl
  refine ⟨t', newName, ?_, ?_, ?_, ?_, ?_⟩
  · intro side
    rw [t.headers_eq, t'.headers_eq, expanded]
    rfl
  · rw [grid, grid']
    exact paths .rows
  · rw [grid, grid']
    exact paths .cols
  · rw [grid, grid', turned.turns.table]
    rfl
  · intro row col
    rw [Grid.valuesAt_eq, Grid.valuesAt_eq]
    obtain ⟨absent, absent'⟩ | ⟨_, _, present, present', turns⟩ :=
      cases_of_rel (lookup_transposed asked turned expanded row col)
    · rw [absent, absent']
      exact .nil
    · rw [present, present']
      exact turns

/-- The two best paid towns by their jobs, with the years across, as shares of all years: the towns and
jobs stand in the columns of the transposed grid, in the same order, and the shares are those of all
rows. -/
theorem towns_across_and_years_down :
    let schema := Schema.ofNames ["job", "town", "year"] ["pay"]
    let statement : Statement :=
      { rows := [[.leading (-2) "town" "pay" "sum", .axis [[.column "job"], [.overall]],
          .share "pay" ["sum", "max"] "COLS"]]
        cols := some [[.column "year"], [.overall]] }
    let source := Row.table ["town", "job", "year", "pay"] [["Bath", "cook", "1901", 3],
      ["York", "clerk", "1902", 5], ["York", "smith", "1901", 5], ["York", "cook", "1902", 6],
      ["Bath", "smith", "1902", 4], ["Hull", "cook", "1901", 2]]
    let leaves := ["town=York / job=clerk", "town=York / job=cook", "town=York / job=smith",
      "town=York / ALL", "town=Bath / job=cook", "town=Bath / job=smith", "town=Bath / ALL"]
    ∃ (t : Tabulation schema {} statement source)
      (t' : Tabulation schema {} statement.transpose source) (newName : Equiv.Perm String),
      t.grid.rowLeaves.map Path.label = leaves ∧
      t.grid.measures.map Measure.name = ["sum_pay_pct_cols", "max_pay_pct_cols"] ∧
      t'.grid.measures.map Measure.name = ["sum_pay_pct_rows", "max_pay_pct_rows"] ∧
      t.grid.Transposes newName t'.grid := by
  intro schema statement source leaves
  obtain ⟨t, asked, texts, labels, names⟩ : ∃ t : Tabulation schema {} statement source,
      t.AnsweredAsAsked ∧
      (∀ row ∈ source, ∀ field ∈ t.table.dimensionFields, (row.get field).isText = true) ∧
      t.grid.rowLeaves.map Path.label = leaves ∧
      t.grid.measures.map Measure.name = ["sum_pay_pct_cols", "max_pay_pct_cols"] :=
    exists_of_run (by decide +kernel)
  obtain ⟨t₁, turnedKeys, turnedColumns, turnedNames⟩ :
      ∃ t : Tabulation schema {} statement.transpose source,
        FaithfulKeys t.resolved.requests source ∧
        (∀ query ∈ t.plan.mainQueries, query.columns.Nodup) ∧
        t.grid.measures.map Measure.name = ["sum_pay_pct_rows", "max_pay_pct_rows"] :=
    exists_of_run (by decide +kernel)
  obtain ⟨t', newName, transposes⟩ := transposed_grid_of_transposed_statement t asked ⟨.cols, rfl⟩
    (fun a first _ _ field listed same => Value.eq_of_sameKey_text (texts a first field listed) same)
    (Table.textsApart_of_isText texts)
    (Statement.plansFaithfully_of_tabulation t₁ turnedKeys turnedColumns)
  rw [Subsingleton.elim t₁ t'] at turnedNames
  exact ⟨t, t', newName, labels, names, turnedNames, transposes⟩

/-- Members that only read the same: the text and the number have one place in the order of texts, and
are listed as they are first seen. With the sides exchanged the number is seen first. -/
theorem tied_members_change_places :
    let schema := Schema.ofNames ["a", "x", "y", "b", "c"] ["n"]
    let statement : Statement :=
      { rows := [[.column "a", .axis [[.leading (-1) "x" "n" "sum"], [.column "y"]],
          .measure "n" ["sum"]]]
        cols := some [[.leading (-1) "b" "n" "sum"], [.column "c"]] }
    let source := Row.table ["a", "x", "y", "b", "c", "n"] [["1", "x1", "y1", "b2", "c1", 1],
      [1, "x1", "y1", "b2", "c1", 100], [1, "x2", "y1", "b1", "c1", 1],
      ["0", "x3", "y1", "b1", "c1", 1000]]
    ∃ t : Tabulation schema {} statement source, t.AnsweredAsAsked ∧ statement.BindsOneSide ∧
      IdenticalIn t.table.dimensionFields source ∧
      (∀ side, ((t.table.axis side).branches.map branchShape).Nodup) ∧
      statement.transpose.PlansFaithfully schema {} source ∧
      Nonempty (Tabulation schema {} statement.transpose source) ∧
      ∀ (t' : Tabulation schema {} statement.transpose source) (newName : String → String),
        ¬t.grid.Transposes newName t'.grid := by
  intro schema statement source
  obtain ⟨t, asked, fields, rowShapes, colShapes, order⟩ : ∃ t : Tabulation schema {} statement source,
      t.AnsweredAsAsked ∧ t.table.dimensionFields = ["a", "x", "y", "b", "c"] ∧
      (t.table.rows.branches.map branchShape).Nodup ∧ (t.table.cols.branches.map branchShape).Nodup ∧
      t.grid.rowLeaves.map (fun path => path.all fun segment => segment.2.isText) =
        [true, true, true, true, false, false] :=
    exists_of_run (by decide +kernel)
  obtain ⟨t₁, turnedKeys, turnedColumns, turnedOrder⟩ :
      ∃ t : Tabulation schema {} statement.transpose source,
        FaithfulKeys t.resolved.requests source ∧
        (∀ query ∈ t.plan.mainQueries, query.columns.Nodup) ∧
        t.grid.colLeaves.map (fun path => path.all fun segment => segment.2.isText) =
          [true, true, false, false, true, true] :=
    exists_of_run (by decide +kernel)
  refine ⟨t, asked, ⟨.cols, rfl⟩, ?_, ?_,
    Statement.plansFaithfully_of_tabulation t₁ turnedKeys turnedColumns, ⟨t₁⟩, ?_⟩
  · rw [fields]
    intro a first b second field listed same
    simp only [source, Row.table, List.map_cons, List.map_nil, List.mem_cons, List.not_mem_nil,
      or_false] at first second listed
    rcases first with rfl | rfl | rfl | rfl <;> rcases second with rfl | rfl | rfl | rfl <;>
      rcases listed with rfl | rfl | rfl | rfl | rfl <;>
      first | rfl | exact absurd same (by decide)
  · intro side
    cases side with
    | rows => exact rowShapes
    | cols => exact colShapes
  · intro t' newName transposes
    rw [Subsingleton.elim t₁ t', transposes.colLeaves, order] at turnedOrder
    cases turnedOrder

end Tabulation

end Crosstab
