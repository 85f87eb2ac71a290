import Crosstab.Proofs.Grid.DirectValue
import Crosstab.Proofs.Grid.Members
import Crosstab.Proofs.Grid.Overwriting

/-!
# Cells as aggregates of the source

The direct value of a cell is an aggregate of the source, unless keys or columns coincide or later
leaves with the same paths take its place.
-/
namespace Crosstab

open List Leaf ResolvedTable Step Table Outcome

/-! ### Requests that are answered as asked -/

namespace Tabulation

variable {schema : Schema} {settings : Settings} {statement : Statement} {source : List Row}
  (t : Tabulation schema settings statement source)

/-- The query with the key of a request groups by the fields of the request, selects the rows that it
asks for, and has distinct columns. -/
def Faithful (request : QueryRequest) : Prop :=
  ∀ query ∈ t.plan.mainQueries, query.key = request.key →
    query.fields = sortedTexts request.fields ∧
      (∀ row ∈ source, (Filter.passes query.filter row).isTrue =
        (Filter.passes request.filter row).isTrue) ∧
      query.columns.Nodup

instance (request : QueryRequest) : Decidable (t.Faithful request) :=
  inferInstanceAs (Decidable (∀ query ∈ t.plan.mainQueries, query.key = request.key → _))

variable {t}

/-- What is read for a faithful request is the aggregate over the rows with the members whose values
are looked up. -/
theorem directAggregate_of_readColumn {request : QueryRequest} {narrow : List Filter}
    {pairs : List (String × Value)} {values : Row} {measure : Measure} {value : Value}
    (requested : request ∈ t.resolved.requests) (faithful : t.Faithful request)
    (filter : request.filter = t.table.queryFilter narrow)
    (fields : request.fields = pairs.map Prod.fst) (asked : measure.base ∈ request.aggregates)
    (numbers : ∀ row ∈ source, ∀ pair ∈ pairs, (row.get pair.1).isNan = false)
    (usable : ∀ pair ∈ pairs, pair.2.hashable) (held : ∀ pair ∈ pairs, values.get pair.1 = pair.2)
    (narrowed : ∀ row : Row, (∀ pair ∈ pairs, (row.get pair.1).key? = pair.2.key?) →
      ∀ filter ∈ narrow, Filter.holds row filter = .ok true)
    (read : readColumn t.plan t.results measure values request = .ok value) :
    t.table.directAggregate source measure pairs = .ok value := by
  obtain ⟨query, member, key⟩ := t.answers.exists_query requested
  obtain ⟨grouped, selects, columns⟩ := faithful query member key
  obtain ⟨known, records, looked, answered⟩ := t.find_answer member
  obtain ⟨matched, _, passed, _, _⟩ := Source.answer_eq_ok answered
  have rows : Source.rowsAt query.fields (query.fields.map values.get) matched =
      t.table.rowsWith source pairs := by
    refine rowsAt_eq_rowsWith passed ?_ ?_ numbers usable held narrowed
    · rw [← filter]
      exact selects
    · intro field
      rw [grouped, mem_sortedTexts, fields]
  have total : query.fields = [] ↔ pairs = [] := by
    rw [grouped, sortedTexts_eq_nil, fields, map_eq_nil_iff]
  have within : measure.base ∈ query.aggregates :=
    (t.answers.aggregates query member _).mpr ⟨request, requested, key.symm, asked⟩
  obtain ⟨found, searched, read⟩ := bind_eq_ok.mp read
  have shown := pure_eq_ok.mp read
  unfold findRow at searched
  rw [← key, known, looked] at searched
  simp only at searched
  split at searched
  · have law := Source.find?_answer answered passed columns (length_map _ :
      (query.fields.map values.get).length = query.fields.length)
    rw [Except.ok.inj searched, rows] at law
    rw [← shown]
    unfold directAggregate
    -- A row is missing only where the query groups and no row of the source has the members.
    cases found with
    | none =>
      obtain ⟨given, none⟩ := law
      have empty : pairs.isEmpty = false := by
        rw [← Bool.not_eq_true, List.isEmpty_iff, ← total]
        exact given
      simp [empty, none, Measure.shownIn]
    | some record =>
      obtain ⟨inhabited, aggregated⟩ := law
      have present : (!pairs.isEmpty && (t.table.rowsWith source pairs).isEmpty) = false := by
        rcases inhabited with ungrouped | some
        · simp [total.mp ungrouped]
        · simp [some]
      simp only [present, Bool.false_eq_true, ↓reduceIte]
      rw [aggregated _ within]
      rfl
  · cases searched

/-! ### What a cell should list -/

end Tabulation

/-- Two lists of measures with the same names and the same values. -/
def Measure.Agree (valueOf valueOf' : Measure → Outcome Value) (measures measures' : List Measure) :
    Prop :=
  List.Forall₂ (fun measure measure' => measure.name = measure'.name ∧
    valueOf measure = valueOf' measure') measures measures'

private theorem CellValue.lists_iff {valueOf valueOf' : Measure → Outcome Value}
    {measures' : List Measure}
    {values : List CellValue} (lists : Lists valueOf' measures' values) (measures : List Measure) :
    Lists valueOf measures values ↔ Measure.Agree valueOf valueOf' measures measures' := by
  unfold Lists Measure.Agree at *
  induction lists generalizing measures with
  | nil =>
    rw [forall₂_nil_right_iff, forall₂_nil_right_iff]
  | cons head _ ih =>
    rw [forall₂_cons_right_iff, forall₂_cons_right_iff]
    refine exists_congr fun own => exists_congr fun rest => ?_
    rw [ih, head.1, head.2, eq_comm (b := own.name)]

namespace Tabulation

variable {schema : Schema} {settings : Settings} {statement : Statement} {source : List Row}
  {t : Tabulation schema settings statement source}

variable (t) in
/-- Values that list the measures where two leaves cross with their direct values. -/
def ListsDirectValues (row col : Leaf) (values : List CellValue) : Prop :=
  CellValue.Lists (t.table.directValue source row col)
    (t.table.cellMeasures row.branch col.branch) values

/-! ### Leaves -/

/-- Steps down one axis of the table, to a leaf whose path can serve as a key. -/
structure Reaches (t : Tabulation schema settings statement source) (side : Side)
    (steps : List Step) : Prop where
  along : steps.map Prod.fst ∈ (t.table.axis side).branches
  climbed : (t.resolved.expansion t.plan t.results settings side).Climbs steps
  usable : Path.hashable (steps.map Step.segment) = true

namespace Reaches

variable {side : Side} {steps : List Step} (reaches : t.Reaches side steps)
include reaches

theorem usable_pairs : ∀ pair ∈ pairs steps, pair.2.hashable := fun _ member =>
  hashable_of_mem_pairs reaches.usable member

theorem numbers
    (numbers : ∀ row ∈ source, ∀ field ∈ t.table.dimensionFields, (row.get field).isNan = false) :
    ∀ row ∈ source, ∀ pair ∈ pairs steps, (row.get pair.1).isNan = false := by
  intro row member pair paired
  apply numbers row member
  apply mem_dimensionFields reaches.along
  rw [← map_fst_pairs]
  exact mem_map_of_mem paired

theorem unique_fields : (fieldsOf (steps.map Prod.fst)).Nodup :=
  nodup_fieldsOf_branch (discover_eq_ok t.discovered).1 reaches.along

theorem narrowed {row : Row} (agrees : ∀ pair ∈ pairs steps, (row.get pair.1).key? = pair.2.key?) :
    ∀ filter ∈ t.resolved.memberFilters side (steps.map Prod.fst),
      Filter.holds row filter = .ok true :=
  memberFilters_hold (wellFormed_of_compile t.compiled) t.fixed reaches.along
    reaches.climbed reaches.usable agrees

end Reaches

variable {row col : List Step}

theorem get_crossValues_of_row (reachesRow : t.Reaches .rows row) (reachesCol : t.Reaches .cols col) :
    ∀ pair ∈ pairs row, ((Leaf.ofSteps row).crossValues (.ofSteps col)).get pair.1 = pair.2 := by
  intro pair member
  have inRow : pair.1 ∈ fieldsOf (row.map Prod.fst) := by
    rw [← map_fst_pairs]
    exact mem_map_of_mem member
  have apart := not_mem_cols_of_mem_rows (discover_eq_ok t.discovered).1
    reachesRow.along reachesCol.along inRow
  rw [get_crossValues_ofSteps, if_neg apart]
  exact get_values_of_mem_pairs reachesRow.unique_fields member

theorem get_crossValues_of_col (reachesCol : t.Reaches .cols col) :
    ∀ pair ∈ pairs col, ((Leaf.ofSteps row).crossValues (.ofSteps col)).get pair.1 = pair.2 := by
  intro pair member
  have inCol : pair.1 ∈ fieldsOf (col.map Prod.fst) := by
    rw [← map_fst_pairs]
    exact mem_map_of_mem member
  rw [get_crossValues_ofSteps, if_pos inCol]
  exact get_values_of_mem_pairs reachesCol.unique_fields member

section Crossing

variable {measure : Measure} {value : Value}
  (numbers : ∀ row ∈ source, ∀ field ∈ t.table.dimensionFields, (row.get field).isNan = false)
  (reachesRow : t.Reaches .rows row) (reachesCol : t.Reaches .cols col)
  (faithful : ∀ request ∈ t.resolved.crossingRequests (row.map Prod.fst) (col.map Prod.fst),
    t.Faithful request)
  (shown : measure ∈ t.resolved.table.cellMeasures (row.map Prod.fst) (col.map Prod.fst))

include reachesRow reachesCol in
theorem mem_requests_of_crossing {request : QueryRequest}
    (member : request ∈ t.resolved.crossingRequests (row.map Prod.fst) (col.map Prod.fst)) :
    request ∈ t.resolved.requests := by
  rw [mem_requests, t.resolved_table]
  exact ⟨_, reachesRow.along, _, reachesCol.along, member⟩

include numbers reachesRow reachesCol faithful shown in
/-- The number of a crossing is the aggregate over the rows with the members of both leaves. -/
theorem directAggregate_of_read_cell
    (read : readColumn t.plan t.results measure
      ((Leaf.ofSteps row).crossValues (.ofSteps col))
      (t.resolved.cellRequest (row.map Prod.fst) (col.map Prod.fst)) = .ok value) :
    t.table.directAggregate source measure (pairs row ++ pairs col) = .ok value := by
  have own : t.resolved.cellRequest (row.map Prod.fst) (col.map Prod.fst) ∈
      t.resolved.crossingRequests (row.map Prod.fst) (col.map Prod.fst) := mem_cons_self
  refine directAggregate_of_readColumn (mem_requests_of_crossing reachesRow reachesCol own)
    (faithful _ own) (by rw [cellRequest, t.resolved_table])
    (by rw [cellRequest, map_append, map_fst_pairs, map_fst_pairs])
    (mem_map_of_mem shown) ?_ ?_ ?_ ?_ read
  · intro entry member
    exact forall_mem_append.mpr
      ⟨reachesRow.numbers numbers entry member, reachesCol.numbers numbers entry member⟩
  · exact forall_mem_append.mpr ⟨reachesRow.usable_pairs, reachesCol.usable_pairs⟩
  · exact forall_mem_append.mpr
      ⟨get_crossValues_of_row reachesRow reachesCol, get_crossValues_of_col reachesCol⟩
  · intro entry agrees
    obtain ⟨ofRow, ofCol⟩ := forall_mem_append.mp agrees
    exact forall_mem_append.mpr ⟨reachesRow.narrowed ofRow, reachesCol.narrowed ofCol⟩

include numbers reachesRow reachesCol faithful shown in
/-- The denominator of a share is the aggregate over the rows with the members of one leaf. -/
theorem directAggregate_of_read_denominator
    {side : Side} (across : measure.across = some side) {request : QueryRequest}
    (denominator : t.resolved.denominatorRequest (row.map Prod.fst) (col.map Prod.fst) measure =
      some request)
    (read : readColumn t.plan t.results measure
      ((Leaf.ofSteps row).crossValues (.ofSteps col)) request = .ok value) :
    t.table.directAggregate source measure (match side with
      | .rows => pairs col
      | .cols => pairs row) = .ok value := by
  have own : request ∈ t.resolved.crossingRequests (row.map Prod.fst) (col.map Prod.fst) :=
    mem_cons_of_mem _ (mem_filterMap.mpr ⟨measure, shown, denominator⟩)
  have requested := mem_requests_of_crossing reachesRow reachesCol own
  have answered := faithful _ own
  rw [denominatorRequest, across] at denominator
  cases side with
  | rows =>
    cases denominator
    exact directAggregate_of_readColumn requested answered (by rw [t.resolved_table])
      (by rw [map_fst_pairs]) (mem_singleton.mpr rfl) (reachesCol.numbers numbers)
      reachesCol.usable_pairs (get_crossValues_of_col reachesCol)
      (fun _ agrees => reachesCol.narrowed agrees) read
  | cols =>
    cases denominator
    exact directAggregate_of_readColumn requested answered (by rw [t.resolved_table])
      (by rw [map_fst_pairs]) (mem_singleton.mpr rfl) (reachesRow.numbers numbers)
      reachesRow.usable_pairs (get_crossValues_of_row reachesRow reachesCol)
      (fun _ agrees => reachesRow.narrowed agrees) read

include numbers reachesRow reachesCol faithful shown in
private theorem directValue_of_readMeasure
    (read : t.resolved.readMeasure t.plan t.results (.ofSteps row) (.ofSteps col) measure =
      .ok value) :
    t.table.directValue source (.ofSteps row) (.ofSteps col) measure = .ok value := by
  obtain ⟨part, readPart, read⟩ := bind_eq_ok.mp read
  have direct := directAggregate_of_read_cell numbers reachesRow reachesCol faithful shown readPart
  unfold directValue
  rw [pairs_ofSteps, pairs_ofSteps, direct, ok_bind]
  cases across : measure.across with
  | none =>
    have undivided : t.resolved.denominatorRequest (Leaf.ofSteps row).branch
        (Leaf.ofSteps col).branch measure = none := by
      rw [denominatorRequest, across]
      rfl
    rw [undivided] at read
    exact read
  | some side =>
    obtain ⟨request, divided⟩ : ∃ request, t.resolved.denominatorRequest (Leaf.ofSteps row).branch
        (Leaf.ofSteps col).branch measure = some request := by
      rw [denominatorRequest, across]
      exact ⟨_, rfl⟩
    rw [divided] at read
    simp only at read ⊢
    by_cases null : part.isNull
    · rw [if_pos null] at read ⊢
      have none : part = .null := by
        cases part with
        | null => rfl
        | _ => cases null
      rw [← read, none]
    · rw [if_neg null] at read ⊢
      obtain ⟨whole, readWhole, read⟩ := bind_eq_ok.mp read
      have directWhole := directAggregate_of_read_denominator numbers reachesRow reachesCol faithful
        shown across divided readWhole
      cases side with
      | rows =>
        rw [pairs_ofSteps, directWhole]
        exact read
      | cols =>
        rw [pairs_ofSteps, directWhole]
        exact read

include reachesRow reachesCol in
theorem lists_of_fills {values : List CellValue}
    (fills : (t.resolved.assembly settings t.plan t.results).Fills (.ofSteps row) (.ofSteps col)
      values) :
    CellValue.Lists (t.resolved.readMeasure t.plan t.results (.ofSteps row) (.ofSteps col))
      (t.table.cellMeasures (row.map Prod.fst) (col.map Prod.fst)) values := by
  have reads := reads_of_fills t.wellFormed t.planned
    (t.resolved_table ▸ reachesRow.along) (t.resolved_table ▸ reachesCol.along) fills
  rw [t.resolved_table] at reads
  exact reads

include numbers reachesRow reachesCol faithful in
/-- The values that a crossing fills into its cell are its direct values. -/
theorem listsDirectValues_of_fills {values : List CellValue}
    (fills : (t.resolved.assembly settings t.plan t.results).Fills (.ofSteps row) (.ofSteps col)
      values) :
    t.ListsDirectValues (.ofSteps row) (.ofSteps col) values := by
  have reads := lists_of_fills reachesRow reachesCol fills
  have among := (forall₂_and_left _ _).mpr ⟨fun _ member => member, reads⟩
  refine among.imp ?_
  rintro measure value ⟨shown, named, read⟩
  rw [← t.resolved_table] at shown
  exact ⟨named, directValue_of_readMeasure numbers reachesRow reachesCol faithful shown read⟩

end Crossing

private theorem exists_reaches {side : Side} {expanded : Expanded}
    (returned : (t.resolved.expansion t.plan t.results settings side).expandAxis
      (t.resolved.table.axis side) = .ok expanded) {leaf : Leaf} (member : leaf ∈ expanded.2)
    (usable : leaf.path.hashable) : ∃ steps, leaf = .ofSteps steps ∧ t.Reaches side steps := by
  obtain ⟨steps, along, climbed, rfl⟩ := Expansion.exists_steps returned member
  rw [t.resolved_table] at along
  exact ⟨steps, rfl, along, climbed, usable⟩

/-- Crossings with the same paths through the same fields have the same direct values. -/
theorem directValue_eq_of_same_paths {row' col' : List Step}
    (numbers : ∀ row ∈ source, ∀ field ∈ t.table.dimensionFields, (row.get field).isNan = false)
    (reachesRow : t.Reaches .rows row) (reachesCol : t.Reaches .cols col)
    (rowFields : (Leaf.ofSteps row).branch.map Node.field? =
      (Leaf.ofSteps row').branch.map Node.field?)
    (colFields : (Leaf.ofSteps col).branch.map Node.field? =
      (Leaf.ofSteps col').branch.map Node.field?)
    (rowPath : (Leaf.ofSteps row).path.keys = (Leaf.ofSteps row').path.keys)
    (colPath : (Leaf.ofSteps col).path.keys = (Leaf.ofSteps col').path.keys) (measure : Measure) :
    t.table.directValue source (.ofSteps row) (.ofSteps col) measure =
      t.table.directValue source (.ofSteps row') (.ofSteps col') measure := by
  refine directValue_congr ?_ ?_ ?_ ?_ measure
  · rw [pairs_ofSteps, pairs_ofSteps]
    exact keys_pairs_eq rowFields rowPath
  · rw [pairs_ofSteps, pairs_ofSteps]
    exact keys_pairs_eq colFields colPath
  · rw [pairs_ofSteps, pairs_ofSteps]
    intro entry member
    exact forall_mem_append.mpr
      ⟨reachesRow.numbers numbers entry member, reachesCol.numbers numbers entry member⟩
  · rw [pairs_ofSteps, pairs_ofSteps]
    exact forall_mem_append.mpr ⟨reachesRow.usable_pairs, reachesCol.usable_pairs⟩

/-- A cell lists the measures where its leaves cross with their direct values exactly where these are
the measures of the last leaves with its paths and what these read. Provided that the requests of
their crossing are answered as asked, that is where the last leaves have the same direct values, and it
is so whenever they stand for the same fields and measures. -/
theorem cell_lists_direct_values_iff
    (numbers : ∀ row ∈ source, ∀ field ∈ t.table.dimensionFields, (row.get field).isNan = false)
    {row col : Leaf} (inRows : row ∈ t.rows.2) (inCols : col ∈ t.cols.2) :
    ∃ lastRow lastCol,
      Leaf.lastAt t.rows.2 row.path = some lastRow ∧ Leaf.lastAt t.cols.2 col.path = some lastCol ∧
      (t.ListsDirectValues row col (t.grid.valuesAt row.path col.path) ↔
        Measure.Agree (t.table.directValue source row col)
          (t.resolved.readMeasure t.plan t.results lastRow lastCol)
          (t.table.cellMeasures row.branch col.branch)
          (t.table.cellMeasures lastRow.branch lastCol.branch)) ∧
      ((∀ request ∈ t.resolved.crossingRequests lastRow.branch lastCol.branch,
          t.Faithful request) →
        (t.ListsDirectValues row col (t.grid.valuesAt row.path col.path) ↔
          Measure.Agree (t.table.directValue source row col)
            (t.table.directValue source lastRow lastCol)
            (t.table.cellMeasures row.branch col.branch)
            (t.table.cellMeasures lastRow.branch lastCol.branch)) ∧
        (row.branch.map Node.field? = lastRow.branch.map Node.field? →
          col.branch.map Node.field? = lastCol.branch.map Node.field? →
          t.table.cellMeasures row.branch col.branch =
            t.table.cellMeasures lastRow.branch lastCol.branch →
          t.ListsDirectValues row col (t.grid.valuesAt row.path col.path))) := by
  obtain ⟨⟨_, fills⟩, lastRow, lastCol, atRow, atCol, fillsLast⟩ :=
    ResolvedTable.fills_last t.assembled t.expandedRows t.expandedCols inRows inCols
  have rowPath := Leaf.keys_of_lastAt atRow fillsLast.1
  have colPath := Leaf.keys_of_lastAt atCol fillsLast.2.1
  obtain ⟨rowSteps, rfl, reachesRow⟩ := exists_reaches t.expandedRows inRows fills.1
  obtain ⟨colSteps, rfl, reachesCol⟩ := exists_reaches t.expandedCols inCols fills.2.1
  obtain ⟨lastRowSteps, rfl, reachesLastRow⟩ :=
    exists_reaches t.expandedRows (Leaf.mem_of_lastAt atRow) fillsLast.1
  obtain ⟨lastColSteps, rfl, reachesLastCol⟩ :=
    exists_reaches t.expandedCols (Leaf.mem_of_lastAt atCol) fillsLast.2.1
  have reads := lists_of_fills reachesLastRow reachesLastCol fillsLast
  refine ⟨_, _, atRow, atCol, CellValue.lists_iff reads _, fun faithful => ?_⟩
  have lists := listsDirectValues_of_fills numbers reachesLastRow reachesLastCol faithful fillsLast
  refine ⟨CellValue.lists_iff lists _, fun rowFields colFields measures => ?_⟩
  refine (CellValue.lists_iff lists _).mpr ?_
  unfold Measure.Agree
  rw [← measures, List.forall₂_same]
  intro measure _
  -- The last leaves have the same paths and go through the same fields, so they have the same
  -- members.
  exact ⟨rfl, directValue_eq_of_same_paths numbers reachesRow reachesCol rowFields colFields
    rowPath.symm colPath.symm measure⟩

/-- Shares of pay by town for the job with the highest pay, beside a total, where a row without a job
does not count: the cook has earned a quarter in York. -/
theorem share_of_top_job_is_direct :
    let schema := Schema.ofNames ["job", "town"] ["pay"]
    let statement : Statement :=
      { rows := [[.leading (-1) "job" "pay" "sum"], [.overall]]
        cols := some [[.column "town", .share "pay" ["sum"] "COLS"]] }
    let source := Row.table ["job", "town", "pay"] [["cook", "York", 5], ["cook", "Bath", 15],
      ["clerk", "York", 12], [.null, "York", 100]]
    ∃ t : Tabulation schema {} statement source, ∃ row ∈ t.rows.2, ∃ col ∈ t.cols.2,
      row.path.label = "job=cook" ∧ col.path.label = "town=York" ∧
      t.ListsDirectValues row col (t.grid.valuesAt row.path col.path) ∧
      (t.grid.valuesAt row.path col.path).map (fun value => (value.measure, value.raw.plain)) =
        [("sum_pay_pct_cols", "0.25")] := by
  intro schema statement source
  obtain ⟨t, numbers, row, inRows, col, inCols, rowLabel, colLabel, shown, settled⟩ :
      ∃ t : Tabulation schema {} statement source,
        (∀ row ∈ source, ∀ field ∈ t.table.dimensionFields, (row.get field).isNan = false) ∧
        ∃ row ∈ t.rows.2, ∃ col ∈ t.cols.2,
          row.path.label = "job=cook" ∧ col.path.label = "town=York" ∧
          (t.grid.valuesAt row.path col.path).map
            (fun value => (value.measure, value.raw.plain)) = [("sum_pay_pct_cols", "0.25")] ∧
          ∀ lastRow ∈ Leaf.lastAt t.rows.2 row.path, ∀ lastCol ∈ Leaf.lastAt t.cols.2 col.path,
            row.branch.map Node.id = lastRow.branch.map Node.id ∧
            col.branch.map Node.id = lastCol.branch.map Node.id ∧
            ∀ request ∈ t.resolved.crossingRequests lastRow.branch lastCol.branch,
              t.Faithful request :=
    exists_of_run (by decide +kernel)
  obtain ⟨lastRow, lastCol, atRow, atCol, _, lists⟩ :=
    cell_lists_direct_values_iff numbers inRows inCols
  obtain ⟨rowIds, colIds, faithful⟩ := settled lastRow atRow lastCol atCol
  have rowBranch : row.branch = lastRow.branch :=
    Axis.branch_eq_of_ids_eq (t.wellFormed.isNumbered .rows)
      (Expansion.branch_mem t.expandedRows inRows)
      (Expansion.branch_mem t.expandedRows (Leaf.mem_of_lastAt atRow)) rowIds
  have colBranch : col.branch = lastCol.branch :=
    Axis.branch_eq_of_ids_eq (t.wellFormed.isNumbered .cols)
      (Expansion.branch_mem t.expandedCols inCols)
      (Expansion.branch_mem t.expandedCols (Leaf.mem_of_lastAt atCol)) colIds
  refine ⟨t, row, inRows, col, inCols, rowLabel, colLabel, ?_, shown⟩
  exact (lists faithful).2 (by rw [rowBranch]) (by rw [colBranch]) (by rw [rowBranch, colBranch])

/-- What the cells list, each beside its label and the direct values of its measures. -/
def compared (t : Tabulation schema settings statement source) :
    List (String × List (String × String) × List (String × String)) :=
  t.rows.2.flatMap fun row => t.cols.2.map fun col =>
    (row.path.label,
      (t.grid.valuesAt row.path col.path).map fun value => (value.measure, value.raw.plain),
      (t.table.cellMeasures row.branch col.branch).map fun measure =>
        (measure.name, match t.table.directValue source row col measure with
          | .ok value => value.plain
          | .error error => error.message))

/-- Cells that do not list the direct values. Two sections over one dimension share their cells. A
dimension named like the column of the counts shows the counts as its members. A dimension whose name
joins two others with a bar shares their query. A dimension named like a total, with a null member,
takes the cell of the total. -/
theorem cells_differ_from_direct_values :
    (Tabulation.run (.ofNames ["job"] ["pay", "age"]) {}
      { rows := [[.column "job", .measure "pay" ["sum"]], [.column "job", .measure "age" ["mean"]]] }
      [[("job", "cook"), ("pay", 5), ("age", 30)]]).toOption.map compared =
        some [("job=cook", [("mean_age", "30")], [("sum_pay", "5")]),
          ("job=cook", [("mean_age", "30")], [("mean_age", "30")])] ∧
    (Tabulation.run (.ofNames ["count"] []) {} { rows := [[.column "count"]] }
      [[("count", "a")], [("count", "a")]]).toOption.map compared =
        some [("count=2", [("count", "2")], [("count", "None")])] ∧
    (Tabulation.run (.ofNames ["a|b", "a", "b"] []) {}
      ⟨[[.column "a|b"], [.column "a", .column "b"]], none, none, .bool true⟩
      (Row.table ["a|b", "a", "b"] [[.null, "y", "z"], ["x", .null, .null],
        ["x", .null, .null]])).toOption.map compared =
        some [("a|b=x", [("count", "2")], [("count", "2")]),
          ("a|b=None", [("count", "1")], [("count", "1")]),
          ("a=None / b=None", [("count", "1")], [("count", "2")])] ∧
    (Tabulation.run (.ofNames ["*"] []) {} ⟨[[.overall], [.column "*"]], none, none, .bool true⟩
      [[("*", .null)], [("*", "a")]]).toOption.map compared =
        some [("ALL", [("count", "1")], [("count", "2")]),
          ("ALL", [("count", "1")], [("count", "1")]),
          ("ALL", [("count", "1")], [("count", "1")])] := by
  refine ⟨?_, ?_, ?_, ?_⟩ <;> decide +kernel

end Tabulation

end Crosstab
