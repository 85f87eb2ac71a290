import Crosstab.Proofs.Grid.Reading
import Crosstab.Proofs.Tabulation

/-!
# Cells that share their paths

Where two branches run through the same fields, cells of the later one can take the place of those
of the earlier one.
-/
namespace Crosstab

open Leaf Outcome

/-- The fields that a branch runs through, as the paths of its leaves tell them. -/
def branchShape (branch : List Node) : List String :=
  branch.map fun node => node.field?.getD Path.totalField

namespace Leaf

private theorem fst_path_ofSteps (steps : List Step) :
    (ofSteps steps).path.map Prod.fst = branchShape (ofSteps steps).branch := by
  rw [ofSteps, branchShape, List.map_map, List.map_map]
  apply List.map_congr_left
  intro step _
  rw [Function.comp_apply, Function.comp_apply, Step.segment]
  cases step.1.field? <;> rfl

private theorem branchShape_eq_of_keys_eq {steps others : List Step}
    (same : (ofSteps steps).path.keys = (ofSteps others).path.keys) :
    branchShape (ofSteps steps).branch = branchShape (ofSteps others).branch := by
  rw [← fst_path_ofSteps, ← fst_path_ofSteps]
  exact Path.fst_eq_of_keys_eq same

theorem get_crossValues_ofSteps (rowSteps colSteps : List Step) (field : String) :
    ((ofSteps rowSteps).crossValues (ofSteps colSteps)).get field =
      if field ∈ fieldsOf (colSteps.map Prod.fst) then (Step.values colSteps).get field
      else (Step.values rowSteps).get field := by
  rw [crossValues, ofSteps, ofSteps, Row.get_foldl_set (Step.nodup_keys_values colSteps)]
  simp only [Step.mem_keys_values]

end Leaf

namespace ResolvedTable

variable {schema : Schema} {resolved : ResolvedTable} {settings : Settings} {plan : QueryPlan}
  {results : Results} {grid : Grid} {rows cols : Expanded}

section

variable {row row' col col' : List Step} (rowBranch : row.map Prod.fst = row'.map Prod.fst)
  (colBranch : col.map Prod.fst = col'.map Prod.fst)
  (rowPath : (ofSteps row).path.keys = (ofSteps row').path.keys)
  (colPath : (ofSteps col).path.keys = (ofSteps col').path.keys)

include rowBranch colBranch rowPath colPath

private theorem readMeasure_eq_of_same_paths (measure : Measure) :
    resolved.readMeasure plan results (.ofSteps row) (.ofSteps col) measure =
      resolved.readMeasure plan results (.ofSteps row') (.ofSteps col') measure := by
  refine readMeasure_congr rowBranch colBranch ?_ measure
  intro field
  rw [get_crossValues_ofSteps, get_crossValues_ofSteps, colBranch]
  split
  · exact Step.key?_values_eq (congrArg _ colBranch) colPath field
  · exact Step.key?_values_eq (congrArg _ rowBranch) rowPath field

private theorem readings_eq_of_same_paths :
    resolved.readings plan results (.ofSteps row) (.ofSteps col) =
      resolved.readings plan results (.ofSteps row') (.ofSteps col') := by
  have measures : resolved.table.cellMeasures (ofSteps row).branch (ofSteps col).branch =
      resolved.table.cellMeasures (ofSteps row').branch (ofSteps col').branch := by
    rw [ofSteps, ofSteps, ofSteps, ofSteps, rowBranch, colBranch]
  unfold readings
  simp only [measures, readMeasure_eq_of_same_paths rowBranch colBranch rowPath colPath]

end

private theorem readings_eq_ok_iff {row col : Leaf} {values : List CellValue} :
    resolved.readings plan results row col =
        .ok (values.map fun value => (value.measure, value.raw)) ↔
      CellValue.Lists (resolved.readMeasure plan results row col)
        (resolved.table.cellMeasures row.branch col.branch) values := by
  rw [readings, mapM_eq_ok, List.forall₂_map_right_iff]
  apply iff_of_eq
  congr 1
  funext measure value
  rw [eq_iff_iff, bind_eq_ok]
  constructor
  · rintro ⟨raw, read, paired⟩
    obtain ⟨named, rfl⟩ := Prod.mk.inj (pure_eq_ok.mp paired)
    exact ⟨named.symm, read⟩
  · rintro ⟨named, read⟩
    exact ⟨value.raw, read, by rw [named]; rfl⟩

private theorem map_fst_readings {row col : Leaf} {own : List (String × Value)}
    (read : resolved.readings plan results row col = .ok own) :
    own.map Prod.fst = (resolved.table.cellMeasures row.branch col.branch).map Measure.name := by
  have named := mapM_eq_ok.mp read
  rw [eq_comm, ← List.forall₂_eq_eq_eq, List.forall₂_map_left_iff, List.forall₂_map_right_iff]
  refine named.imp ?_
  intro measure entry returned
  obtain ⟨raw, _, paired⟩ := bind_eq_ok.mp returned
  rw [← pure_eq_ok.mp paired]

/-- A cell lists the measures of its own crossing with their readings exactly where the last leaves
with its paths read the same. That is so whenever no other branch of either axis runs through the same
fields. -/
theorem cell_shows_own_reading_iff {includeNulls : Value} {statement : Statement}
    (compiled : Table.compile schema includeNulls statement = .ok resolved.table)
    (planned : resolved.plan = .ok plan)
    (assembled : resolved.assemble settings plan results = .ok grid)
    (expandedRows : (resolved.expansion plan results settings .rows).expandAxis
      resolved.table.rows = .ok rows)
    (expandedCols : (resolved.expansion plan results settings .cols).expandAxis
      resolved.table.cols = .ok cols)
    {row col : Leaf} (inRows : row ∈ rows.2) (inCols : col ∈ cols.2) :
    ∃ own lastRow lastCol,
      resolved.readings plan results row col = .ok own ∧
      own.map Prod.fst = (resolved.table.cellMeasures row.branch col.branch).map Measure.name ∧
      Leaf.lastAt rows.2 row.path = some lastRow ∧ Leaf.lastAt cols.2 col.path = some lastCol ∧
      ((grid.valuesAt row.path col.path).map (fun value => (value.measure, value.raw)) = own ↔
        resolved.readings plan results lastRow lastCol = .ok own) ∧
      ((∀ branch ∈ resolved.table.rows.branches,
          branchShape branch = branchShape row.branch → branch = row.branch) →
        (∀ branch ∈ resolved.table.cols.branches,
          branchShape branch = branchShape col.branch → branch = col.branch) →
        (grid.valuesAt row.path col.path).map (fun value => (value.measure, value.raw)) = own) := by
  have wellFormed := Table.wellFormed_of_compile compiled
  obtain ⟨⟨values, fills⟩, lastRow, lastCol, atRow, atCol, fillsLast⟩ :=
    fills_last assembled expandedRows expandedCols inRows inCols
  obtain ⟨rowSteps, alongRow, _, rfl⟩ := Expansion.exists_steps expandedRows inRows
  obtain ⟨colSteps, alongCol, _, rfl⟩ := Expansion.exists_steps expandedCols inCols
  obtain ⟨lastRowSteps, alongLastRow, _, rfl⟩ :=
    Expansion.exists_steps expandedRows (Leaf.mem_of_lastAt atRow)
  obtain ⟨lastColSteps, alongLastCol, _, rfl⟩ :=
    Expansion.exists_steps expandedCols (Leaf.mem_of_lastAt atCol)
  have own := readings_eq_ok_iff.mpr (reads_of_fills wellFormed planned alongRow alongCol fills)
  have last := readings_eq_ok_iff.mpr
    (reads_of_fills wellFormed planned alongLastRow alongLastCol fillsLast)
  refine ⟨_, _, _, own, map_fst_readings own, atRow, atCol, ?_, ?_⟩
  · rw [last, Except.ok.injEq]
  · intro onlyRow onlyCol
    -- The last leaves have the same paths, hence run through the same fields, hence end the same
    -- branches.
    have rowPath := Leaf.keys_of_lastAt atRow fillsLast.1
    have colPath := Leaf.keys_of_lastAt atCol fillsLast.2.1
    have rowBranch := onlyRow _ alongLastRow (Leaf.branchShape_eq_of_keys_eq rowPath)
    have colBranch := onlyCol _ alongLastCol (Leaf.branchShape_eq_of_keys_eq colPath)
    rw [readings_eq_of_same_paths rowBranch colBranch rowPath colPath, own, Except.ok.injEq] at last
    exact last.symm

/-- Jobs with their pay beside a total with the ages: the two sections run through different fields, so
the cell of a job keeps the sum that it reads. -/
theorem cell_shows_own_reading_beside_total :
    let schema := Schema.ofNames ["job"] ["pay", "age"]
    let statement : Statement :=
      { rows := [[.column "job", .measure "pay" ["sum"]], [.overall, .measure "age" ["mean"]]] }
    let source := Row.table ["job", "pay", "age"] [["cook", 5, 30], ["cook", 6, 40]]
    ∃ t : Tabulation schema {} statement source, ∃ row ∈ t.rows.2, ∃ col ∈ t.cols.2,
      row.path.label = "job=cook" ∧ ∃ own, t.resolved.readings t.plan t.results row col = .ok own ∧
        (t.grid.valuesAt row.path col.path).map (fun value => (value.measure, value.raw)) = own ∧
        own.map (fun entry => (entry.1, entry.2.plain)) = [("sum_pay", "11")] := by
  intro schema statement source
  obtain ⟨t, rowShapes, colShapes, row, inRows, col, inCols, label, shown⟩ :
      ∃ t : Tabulation schema {} statement source,
        (t.resolved.table.rows.branches.map branchShape).Nodup ∧
        (t.resolved.table.cols.branches.map branchShape).Nodup ∧
        ∃ row ∈ t.rows.2, ∃ col ∈ t.cols.2, row.path.label = "job=cook" ∧
          (t.grid.valuesAt row.path col.path).map
            (fun value => (value.measure, value.raw.plain)) = [("sum_pay", "11")] :=
    Tabulation.exists_of_run (by decide +kernel)
  obtain ⟨own, _, _, read, _, _, _, _, keeps⟩ := cell_shows_own_reading_iff
    (t.resolved_table ▸ t.compiled) t.planned t.assembled t.expandedRows t.expandedCols inRows inCols
  have alongRow := Expansion.branch_mem t.expandedRows inRows
  have alongCol := Expansion.branch_mem t.expandedCols inCols
  have kept := keeps (fun _ along => List.inj_on_of_nodup_map rowShapes along alongRow)
    (fun _ along => List.inj_on_of_nodup_map colShapes along alongCol)
  refine ⟨t, row, inRows, col, inCols, label, own, read, kept, ?_⟩
  rw [← kept, List.map_map]
  exact shown

/-- Two sections over the same dimension with different measures: the leaves of the first should show
the pay and show the age, which the leaves of the second left there. -/
theorem same_dimension_overwrites :
    let schema := Schema.ofNames ["job"] ["pay", "age"]
    let statement : Statement := { rows := [[.column "job", .measure "pay" ["sum"]],
      [.column "job", .measure "age" ["mean"]]] }
    let source := Row.table ["job", "pay", "age"] [["cook", 5, 30], ["cook", 6, 40]]
    (Tabulation.run schema {} statement source).toOption.map (fun t =>
      t.rows.2.map fun row => t.cols.2.map fun col =>
        ((t.resolved.table.cellMeasures row.branch col.branch).map Measure.name,
          (t.grid.valuesAt row.path col.path).map fun value => (value.measure, value.raw.plain))) =
      some [[(["sum_pay"], [("mean_age", "35")])], [(["mean_age"], [("mean_age", "35")])]] := by
  decide +kernel

end ResolvedTable

end Crosstab
