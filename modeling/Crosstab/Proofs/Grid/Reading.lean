import Crosstab.Proofs.Grid.Cells
import Crosstab.Proofs.Plan
import Mathlib.Data.List.Find

/-!
# What cells read

The values of a cell, told without positions: each measure reads its column in the query that was
requested for the crossing.
-/
namespace Crosstab

open List Assembly Outcome

def Leaf.crossValues (row col : Leaf) : Row :=
  col.values.foldl (fun values entry => values.set entry.1 entry.2) row.values

/-- The number of a measure in a row, or null if there is no row. -/
def Measure.shownIn (measure : Measure) (row : Option Row) : Value :=
  match row with
  | some row => shownNumber (row.get measure.base.column)
  | none => .null

/-- Values that list measures, in order, each with its value. -/
def CellValue.Lists (valueOf : Measure → Outcome Value) (measures : List Measure)
    (values : List CellValue) : Prop :=
  List.Forall₂ (fun measure value => value.measure = measure.name ∧
    valueOf measure = .ok value.raw) measures values

namespace ResolvedTable

/-- The number of a measure in the row of a requested query that has the given values. -/
def readColumn (plan : QueryPlan) (results : Results) (measure : Measure) (values : Row)
    (request : QueryRequest) : Outcome Value := do
  return measure.shownIn (← findRow plan results request.key values)

/-- The raw value of a measure where two leaves cross. -/
def readMeasure (resolved : ResolvedTable) (plan : QueryPlan) (results : Results) (row col : Leaf)
    (measure : Measure) : Outcome Value := do
  let read := readColumn plan results measure (row.crossValues col)
  let raw ← read (resolved.cellRequest row.branch col.branch)
  match resolved.denominatorRequest row.branch col.branch measure with
  | none => return raw
  | some request => if raw.isNull then return raw else share raw (← read request)

/-- A measure where two leaves cross, with its format and its description. -/
def showMeasure (resolved : ResolvedTable) (settings : Settings) (plan : QueryPlan)
    (results : Results) (row col : Leaf) (measure : Measure) : Outcome CellValue := do
  let raw ← resolved.readMeasure plan results row col measure
  return {
    measure := measure.name
    raw := raw
    formatted := ← formatValue raw (measure.format.elim .null Value.text) settings.percentDecimals
    description := describeMeasure
      (describedPairs settings row.path ++ describedPairs settings col.path) measure.displayLabel }

def readings (resolved : ResolvedTable) (plan : QueryPlan) (results : Results) (row col : Leaf) :
    Outcome (List (String × Value)) :=
  (resolved.table.cellMeasures row.branch col.branch).mapM fun measure => do
    return (measure.name, ← resolved.readMeasure plan results row col measure)

end ResolvedTable

variable {resolved : ResolvedTable} {plan : QueryPlan} {results : Results}
  {row col row' col' : Leaf} {measure : Measure} {values others : Row}

/-- A measure reads the same where its number and its denominator do. -/
theorem ResolvedTable.readMeasure_eq_of_columns {resolved' : ResolvedTable} {plan' : QueryPlan}
    {results' : Results} {measure' : Measure}
    (own : readColumn plan' results' measure' (row'.crossValues col')
        (resolved'.cellRequest row'.branch col'.branch) =
      readColumn plan results measure (row.crossValues col)
        (resolved.cellRequest row.branch col.branch))
    (whole : Option.Rel (fun request request' =>
        readColumn plan' results' measure' (row'.crossValues col') request' =
          readColumn plan results measure (row.crossValues col) request)
      (resolved.denominatorRequest row.branch col.branch measure)
      (resolved'.denominatorRequest row'.branch col'.branch measure')) :
    resolved'.readMeasure plan' results' row' col' measure' =
      resolved.readMeasure plan results row col measure := by
  unfold readMeasure
  simp only [own]
  obtain ⟨undivided, undivided'⟩ | ⟨request, request', divided, divided', same⟩ := cases_of_rel whole
  · rw [undivided, undivided']
  · rw [divided, divided']
    simp only [same]

/-! ### Values up to sameness -/

theorem findRow_congr {key : String}
    (alike : ∀ field, (values.get field).key? = (others.get field).key?) :
    findRow plan results key values = findRow plan results key others := by
  unfold findRow
  split
  next query rows _ _ =>
    have wanted : (query.fields.map values.get).map Value.key? =
        (query.fields.map others.get).map Value.key? := by
      rw [map_map, map_map]
      exact map_congr_left fun field _ => alike field
    simp only [Value.all_hashable_eq_of_keys_eq wanted]
    split
    next usable =>
      rw [Bool.and_eq_true] at usable
      congr 1
      apply find?_congr
      intro row member
      have usableRow := all_eq_true.mp usable.1 row (mem_reverse.mp member)
      rw [Bool.eq_iff_iff, Value.sameKeys_iff usableRow, Value.sameKeys_iff usableRow, wanted]
    · rfl
  · rfl

theorem ResolvedTable.readColumn_congr
    (alike : ∀ field, (values.get field).key? = (others.get field).key?) (request : QueryRequest) :
    readColumn plan results measure values request = readColumn plan results measure others request := by
  rw [readColumn, readColumn, findRow_congr alike]

theorem ResolvedTable.readMeasure_congr (rowBranch : row.branch = row'.branch)
    (colBranch : col.branch = col'.branch)
    (alike : ∀ field, ((row.crossValues col).get field).key? =
      ((row'.crossValues col').get field).key?) (measure : Measure) :
    resolved.readMeasure plan results row col measure =
      resolved.readMeasure plan results row' col' measure := by
  unfold readMeasure
  rw [rowBranch, colBranch]
  simp only [readColumn_congr alike]

/-! ### Measures by name -/

namespace Table

variable {schema : Schema} {table : Table}

theorem WellFormed.measure?_name (wellFormed : table.WellFormed schema) {measure : Measure}
    (member : measure ∈ table.measures) : table.measure? measure.name = some measure :=
  find?_of_nodup_map wellFormed.names member

private theorem WellFormed.filterMap_measure? (wellFormed : table.WellFormed schema)
    (rowBranch colBranch : List Node) :
    ((table.cellMeasures rowBranch colBranch).map Measure.name).filterMap table.measure? =
      table.cellMeasures rowBranch colBranch := by
  rw [filterMap_map]
  have found : ∀ measure ∈ table.cellMeasures rowBranch colBranch,
      (table.measure? ∘ Measure.name) measure = some measure := fun measure member =>
    wellFormed.measure?_name (mem_measures_of_mem_cellMeasures member)
  rw [filterMap_congr found, filterMap_some]

end Table

private theorem lookup_filterMap_name {measures : List Measure} (entry : Measure → Option String)
    (member : measure ∈ measures)
    (named : ∀ other ∈ measures, other.name = measure.name → other = measure) :
    (measures.filterMap fun measure =>
      (entry measure).map fun key => (measure.name, key)).lookup measure.name = entry measure := by
  induction measures with
  | nil => cases member
  | cons first rest ih =>
    have later := fun other member => named other (mem_cons_of_mem first member)
    by_cases own : first = measure
    · subst own
      cases entered : entry first with
      | some key => simp [entered]
      | none =>
        rw [filterMap_cons, entered]
        simp only [Option.map_none]
        -- A measure can be listed twice, with the same entry each time.
        by_cases again : first ∈ rest
        · rw [ih again later, entered]
        · rw [lookup_eq_none_iff]
          intro found among
          obtain ⟨other, there, made⟩ := mem_filterMap.mp among
          obtain ⟨key, _, rfl⟩ := Option.map_eq_some_iff.mp made
          have apart : first.name ≠ other.name := fun same =>
            again (later other there same.symm ▸ there)
          simpa using apart
    · have apart : measure.name ≠ first.name := fun same =>
        own (named first mem_cons_self same.symm)
      have within : measure ∈ rest := (mem_cons.mp member).resolve_left (Ne.symm own)
      rw [filterMap_cons]
      cases entry first with
      | none => exact ih within later
      | some key =>
        simp only [Option.map_some, lookup_cons, beq_eq_false_iff_ne.mpr apart]
        exact ih within later

/-! ### Queries by position -/

namespace Assembly

theorem rawValue_eq (assembly : Assembly) (source : CellSource) (measure : Measure) (values : Row)
    (row : Option Row) :
    assembly.rawValue source measure values row =
      if measure.across.isNone || (measure.shownIn row).isNull then .ok (measure.shownIn row)
      else
        (match source.denominators.lookup measure.name with
        | none => .error (.missingKey measure.name)
        | some key => do
          share (measure.shownIn row)
            (measure.shownIn (← findRow assembly.plan assembly.results key values))) := rfl

theorem getElem?_branchIndex {axis : Axis} (numbered : axis.forest.IsNumbered) {branch : List Node}
    (member : branch ∈ axis.branches) : axis.branches[branchIndex axis branch]? = some branch := by
  have inside : branchIndex axis branch < axis.branches.length :=
    findIdx_lt_length_of_exists ⟨branch, member, beq_self_eq_true _⟩
  -- The position is that of the first branch with the same numbers, which is the branch itself.
  have ids := findIdx_getElem (w := inside)
  rw [getElem?_eq_getElem inside]
  congr 1
  exact Axis.branch_eq_of_ids_eq numbered (getElem_mem inside) member (beq_iff_eq.mp ids)

end Assembly

namespace ResolvedTable

variable {resolved : ResolvedTable} {plan : QueryPlan}

variable {rowBranch colBranch : List Node} {measure : Measure} {row col : Leaf}
  {values : List CellValue}

/-- The source of a crossing is found by the positions of its branches. -/
theorem cell?_eq (planned : resolved.plan = .ok plan) {row col : Nat}
    (atRow : resolved.table.rows.branches[row]? = some rowBranch)
    (atCol : resolved.table.cols.branches[col]? = some colBranch) :
    plan.cell? row col = some (resolved.cellSource row col rowBranch colBranch) := by
  obtain ⟨_, _, _, _, cells⟩ := plan_eq_ok planned
  unfold QueryPlan.cell?
  rw [cells, find?_map]
  cases found : (crossings resolved.table).find? ((fun cell : CellSource =>
      cell.row == row && cell.col == col) ∘ fun crossing =>
        resolved.cellSource crossing.1.1 crossing.2.1 crossing.1.2 crossing.2.2) with
  | none =>
    rw [find?_eq_none] at found
    have crossed := found ((row, rowBranch), (col, colBranch)) (mem_crossings.mpr ⟨atRow, atCol⟩)
    simp [cellSource] at crossed
  -- Positions determine branches, so whatever crossing is found first is the one asked for.
  | some crossing =>
    obtain ⟨⟨i, first⟩, ⟨j, second⟩⟩ := crossing
    have here := find?_some found
    simp only [Function.comp_apply, cellSource, Bool.and_eq_true, beq_iff_eq] at here
    obtain ⟨rfl, rfl⟩ := here
    obtain ⟨firstAt, secondAt⟩ := mem_crossings.mp (mem_of_find?_eq_some found)
    rw [firstAt, Option.some.injEq] at atRow
    rw [secondAt, Option.some.injEq] at atCol
    rw [atRow, atCol]
    rfl

variable {schema : Schema} {results : Results} {settings : Settings}

variable (wellFormed : resolved.table.WellFormed schema)

include wellFormed

/-- The denominator of a share is found by the name of its measure. -/
theorem lookup_denominators (row col : Nat)
    (shown : measure ∈ resolved.table.cellMeasures rowBranch colBranch) :
    (resolved.cellSource row col rowBranch colBranch).denominators.lookup measure.name =
      (resolved.denominatorRequest rowBranch colBranch measure).map QueryRequest.key := by
  have named : ∀ other ∈ resolved.table.cellMeasures rowBranch colBranch,
      other.name = measure.name → other = measure := fun other member same =>
    inj_on_of_nodup_map wellFormed.names (Table.mem_measures_of_mem_cellMeasures member)
      (Table.mem_measures_of_mem_cellMeasures shown) same
  rw [← lookup_filterMap_name (fun measure =>
    (resolved.denominatorRequest rowBranch colBranch measure).map QueryRequest.key) shown named]
  simp only [cellSource, Option.map_map, Function.comp_def]

/-- Once the row of a cell is found, the assembly computes what the measure reads. -/
theorem rawValue_eq_readMeasure (i j : Nat) {found : Option Row}
    (looked : findRow plan results (resolved.cellRequest row.branch col.branch).key
      (row.crossValues col) = .ok found)
    (shown : measure ∈ resolved.table.cellMeasures row.branch col.branch) :
    rawValue ⟨resolved.table, plan, results, settings⟩
        (resolved.cellSource i j row.branch col.branch) measure (row.crossValues col) found =
      resolved.readMeasure plan results row col measure := by
  have denominator := lookup_denominators wellFormed i j shown
  have own : readColumn plan results measure (row.crossValues col)
      (resolved.cellRequest row.branch col.branch) = .ok (measure.shownIn found) := by
    rw [readColumn, looked]
    rfl
  rw [rawValue_eq, readMeasure, own, denominator]
  cases across : measure.across with
  | none =>
    have undivided : resolved.denominatorRequest row.branch col.branch measure = none := by
      rw [denominatorRequest, across]
      rfl
    rw [undivided]
    rfl
  | some side =>
    obtain ⟨request, divided⟩ :
        ∃ request, resolved.denominatorRequest row.branch col.branch measure = some request := by
      rw [denominatorRequest, across]
      exact ⟨_, rfl⟩
    rw [divided]
    -- A share of nothing is nothing, and its denominator is not looked up.
    by_cases null : (measure.shownIn found).isNull
    · simp [null]
    · simp [null, readColumn]

/-- The values of a crossing are what its measures show, once its row can be looked for. -/
theorem cellValues_eq_ok_iff {i j : Nat} :
    (resolved.assembly settings plan results).cellValues
        (resolved.cellSource i j row.branch col.branch) row col = .ok values ↔
      (∃ found, findRow plan results (resolved.cellRequest row.branch col.branch).key
        (row.crossValues col) = .ok found) ∧
      Forall₂ (fun measure value =>
          resolved.showMeasure settings plan results row col measure = .ok value)
        (resolved.table.cellMeasures row.branch col.branch) values := by
  have named : (resolved.cellSource i j row.branch col.branch).measures.filterMap
      (resolved.assembly settings plan results).table.measure? =
        resolved.table.cellMeasures row.branch col.branch :=
    wellFormed.filterMap_measure? row.branch col.branch
  have each {found : Option Row} (looked : findRow plan results
      (resolved.cellRequest row.branch col.branch).key (row.crossValues col) = .ok found) :
      ∀ measure ∈ resolved.table.cellMeasures row.branch col.branch,
        (resolved.assembly settings plan results).cellValue
            (resolved.cellSource i j row.branch col.branch)
            (describedPairs settings row.path ++ describedPairs settings col.path)
            (row.crossValues col) found measure =
          resolved.showMeasure settings plan results row col measure := by
    intro measure shown
    unfold cellValue showMeasure
    rw [← rawValue_eq_readMeasure wellFormed i j looked shown]
    rfl
  unfold cellValues
  rw [named, bind_eq_ok]
  constructor
  · rintro ⟨found, looked, read⟩
    have listed := (forall₂_and_left _ _).mpr ⟨each looked, mapM_eq_ok.mp read⟩
    exact ⟨⟨found, looked⟩, listed.imp fun _ _ both => both.1.symm.trans both.2⟩
  · rintro ⟨⟨found, looked⟩, shown⟩
    have listed := (forall₂_and_left _ _).mpr ⟨each looked, shown⟩
    exact ⟨found, looked, mapM_eq_ok.mpr (listed.imp fun _ _ both => both.1.trans both.2)⟩

section

variable (planned : resolved.plan = .ok plan) (alongRow : row.branch ∈ resolved.table.rows.branches)
  (alongCol : col.branch ∈ resolved.table.cols.branches)
include planned alongRow alongCol

theorem fills_iff :
    (resolved.assembly settings plan results).Fills row col values ↔
      row.path.hashable ∧ col.path.hashable ∧
      (∃ found, findRow plan results (resolved.cellRequest row.branch col.branch).key
        (row.crossValues col) = .ok found) ∧
      Forall₂ (fun measure value =>
          resolved.showMeasure settings plan results row col measure = .ok value)
        (resolved.table.cellMeasures row.branch col.branch) values := by
  have atRow := getElem?_branchIndex (wellFormed.isNumbered .rows) alongRow
  have atCol := getElem?_branchIndex (wellFormed.isNumbered .cols) alongCol
  have known := cell?_eq planned atRow atCol
  refine and_congr_right fun _ => and_congr_right fun _ => ?_
  constructor
  · rintro ⟨source, found, read⟩
    cases found.symm.trans known
    exact (cellValues_eq_ok_iff wellFormed).mp read
  · intro shown
    exact ⟨_, known, (cellValues_eq_ok_iff wellFormed).mpr shown⟩

/-- What fills a crossing lists what its measures read. -/
theorem reads_of_fills (fills : (resolved.assembly settings plan results).Fills row col values) :
    CellValue.Lists (resolved.readMeasure plan results row col)
      (resolved.table.cellMeasures row.branch col.branch) values := by
  obtain ⟨_, _, _, shown⟩ := (fills_iff wellFormed planned alongRow alongCol).mp fills
  refine shown.imp ?_
  intro measure value shown
  obtain ⟨raw, computed, shown⟩ := bind_eq_ok.mp shown
  obtain ⟨formatted, _, shown⟩ := bind_eq_ok.mp shown
  cases shown
  exact ⟨rfl, computed⟩

end

end ResolvedTable

end Crosstab
