import Crosstab.Proofs.Plan
import Mathlib.Data.List.ProdSigma

/-!
# What a plan covers

A plan is complete and holds nothing that is not needed: one cell for each crossing, and the
groupings that the cells read, each once.
-/
namespace Crosstab

open List GroupingQuery

/-- The keys of all queries that a cell reads: its own, then those of its denominators. -/
def CellSource.keys (cell : CellSource) : List String := cell.key :: cell.denominators.map Prod.snd

namespace ResolvedTable

variable {resolved : ResolvedTable} {plan : QueryPlan} {rowBranch colBranch : List Node}

section

variable (resolved)

/-- The key of the grouping that a share reads its denominator from: that of the side which is kept
when it is taken across the other. -/
def keptKey (rowBranch colBranch : List Node) : Side → String
  | .cols => keyFor (fieldsOf rowBranch) (Filter.conjoin resolved.table.filter
      (resolved.table.guards ++ resolved.memberFilters .rows rowBranch))
  | .rows => keyFor (fieldsOf colBranch) (Filter.conjoin resolved.table.filter
      (resolved.table.guards ++ resolved.memberFilters .cols colBranch))

/-- What the cell of a crossing has to read. -/
structure ReadsCrossing (rowBranch colBranch : List Node) (cell : CellSource) : Prop where
  measures : cell.measures = (resolved.table.cellMeasures rowBranch colBranch).map Measure.name
  /-- The grouping is by the fields of both branches, listed in any way. -/
  key : ∀ fields : List String,
    (∀ field, field ∈ fields ↔ field ∈ fieldsOf rowBranch ∨ field ∈ fieldsOf colBranch) →
      cell.key = keyFor fields (Filter.conjoin resolved.table.filter
        (resolved.table.guards ++
          (resolved.memberFilters .rows rowBranch ++ resolved.memberFilters .cols colBranch)))
  /-- Just the shares have denominators. -/
  denominators : cell.denominators =
    (resolved.table.cellMeasures rowBranch colBranch).filterMap fun measure =>
      measure.across.map fun side => (measure.name, resolved.keptKey rowBranch colBranch side)

/-- A plan that reads all that its cells need and nothing else. -/
structure Covers (plan : QueryPlan) : Prop where
  /-- One cell for each row branch and each column branch. -/
  positions : plan.cells.map (fun cell => (cell.row, cell.col)) =
    List.range resolved.table.rows.branches.length ×ˢ
      List.range resolved.table.cols.branches.length
  cells : ∀ cell ∈ plan.cells, ∃ rowBranch colBranch,
    resolved.table.rows.branches[cell.row]? = some rowBranch ∧
      resolved.table.cols.branches[cell.col]? = some colBranch ∧
      resolved.ReadsCrossing rowBranch colBranch cell
  /-- The queries come in the order in which the cells first ask for them. -/
  order : plan.mainQueries.map key = (plan.cells.flatMap CellSource.keys).eraseDups
  answered : ∀ cell ∈ plan.cells, ∀ key ∈ cell.keys,
    ∃! query, query ∈ plan.mainQueries ∧ query.key = key
  needed : ∀ query ∈ plan.mainQueries, ∃ cell ∈ plan.cells, query.key ∈ cell.keys
  /-- A query aggregates the bases of the measures that read it, in a cell or as a denominator. -/
  aggregates : ∀ query ∈ plan.mainQueries, ∀ ref, ref ∈ query.aggregates ↔
    ∃ cell ∈ plan.cells, ∃ rowBranch colBranch,
      resolved.table.rows.branches[cell.row]? = some rowBranch ∧
        resolved.table.cols.branches[cell.col]? = some colBranch ∧
        ∃ measure ∈ resolved.table.cellMeasures rowBranch colBranch, measure.base = ref ∧
          (query.key = cell.key ∨ ∃ side, measure.across = some side ∧
            query.key = resolved.keptKey rowBranch colBranch side)
  /-- Nothing is aggregated twice. -/
  unique : ∀ query ∈ plan.mainQueries, query.aggregates.Nodup

/-! ### Cells -/

private theorem key_denominatorRequest (rowBranch colBranch : List Node) (measure : Measure) :
    (resolved.denominatorRequest rowBranch colBranch measure).map QueryRequest.key =
      measure.across.map (resolved.keptKey rowBranch colBranch) := by
  unfold denominatorRequest
  rw [Option.map_map]
  apply Option.map_congr
  intro side _
  cases side <;> rfl

end

private theorem cellSource_reads (row col : Nat) (rowBranch colBranch : List Node) :
    resolved.ReadsCrossing rowBranch colBranch (resolved.cellSource row col rowBranch colBranch) where
  measures := rfl
  key fields listed := by
    show (resolved.cellRequest rowBranch colBranch).key = _
    have same : sortedTexts (fieldsOf rowBranch ++ fieldsOf colBranch) = sortedTexts fields :=
      sortedTexts_congr fun field => by rw [mem_append, listed]
    show "|".intercalate (sortedTexts (fieldsOf rowBranch ++ fieldsOf colBranch)) ++ _ ++ _ = _
    rw [same]
    rfl
  denominators := by
    apply filterMap_congr
    intro measure _
    have keyed := congrArg (Option.map fun key => (measure.name, key))
      (key_denominatorRequest resolved rowBranch colBranch measure)
    rwa [Option.map_map, Option.map_map] at keyed

private theorem keys_crossingRequests (row col : Nat) (rowBranch colBranch : List Node) :
    (resolved.crossingRequests rowBranch colBranch).map QueryRequest.key =
      (resolved.cellSource row col rowBranch colBranch).keys := by
  unfold crossingRequests CellSource.keys
  rw [map_cons]
  refine congrArg _ ?_
  rw [cellSource, map_filterMap, map_filterMap]
  apply filterMap_congr
  intro measure _
  rw [Option.map_map]
  rfl

private theorem positions_crossings (table : Table) :
    (crossings table).map (fun crossing => (crossing.1.1, crossing.2.1)) =
      range table.rows.branches.length ×ˢ range table.cols.branches.length := by
  have columns : table.cols.branches.zipIdx.map Prod.snd = range table.cols.branches.length := by
    rw [zipIdx_map_snd, range_eq_range']
  have rows : table.rows.branches.zipIdx.map Prod.snd = range table.rows.branches.length := by
    rw [zipIdx_map_snd, range_eq_range']
  unfold crossings
  show _ = flatMap _ _
  rw [← rows, ← columns, map_flatMap, flatMap_map]
  apply flatMap_congr
  intro entry _
  rw [map_map, map_map]
  rfl

/-! ### Queries -/

/-- The requests of all crossings go by the keys that the cells read. -/
theorem keys_requests (planned : resolved.plan = .ok plan) :
    resolved.requests.map QueryRequest.key = plan.cells.flatMap CellSource.keys := by
  obtain ⟨_, _, _, _, cells⟩ := plan_eq_ok planned
  rw [cells, requests, map_flatMap, flatMap_map]
  apply flatMap_congr
  intro crossing _
  exact keys_crossingRequests _ _ _ _

/-- What a crossing asks for under a key: the bases of the measures that read the key. -/
theorem asked_in_crossing {ref : MeasureRef} {key : String} :
    (∃ request ∈ resolved.crossingRequests rowBranch colBranch,
        request.key = key ∧ ref ∈ request.aggregates) ↔
      ∃ measure ∈ resolved.table.cellMeasures rowBranch colBranch, measure.base = ref ∧
        (key = (resolved.cellRequest rowBranch colBranch).key ∨
          ∃ side, measure.across = some side ∧
            key = resolved.keptKey rowBranch colBranch side) := by
  constructor
  · rintro ⟨request, member, rfl, asked⟩
    rcases mem_cons.mp member with rfl | share
    · obtain ⟨measure, shown, base⟩ := mem_map.mp asked
      exact ⟨measure, shown, base, .inl rfl⟩
    · obtain ⟨measure, shown, requested⟩ := mem_filterMap.mp share
      obtain ⟨side, across, rfl⟩ := Option.map_eq_some_iff.mp requested
      refine ⟨measure, shown, ?_, .inr ⟨side, across, ?_⟩⟩
      · cases side <;> exact (mem_singleton.mp asked).symm
      · cases side <;> rfl
  · rintro ⟨measure, shown, rfl, rfl | ⟨side, across, rfl⟩⟩
    · exact ⟨_, mem_cons_self, rfl, mem_map_of_mem shown⟩
    · have requested : ∃ request, resolved.denominatorRequest rowBranch colBranch measure =
          some request ∧ request.key = resolved.keptKey rowBranch colBranch side ∧
            measure.base ∈ request.aggregates := by
        unfold denominatorRequest
        rw [across]
        cases side <;> exact ⟨_, rfl, rfl, mem_singleton_self _⟩
      obtain ⟨request, requested, key, asked⟩ := requested
      exact ⟨request, mem_cons_of_mem _ (mem_filterMap.mpr ⟨measure, shown, requested⟩), key, asked⟩

theorem mem_cells (planned : resolved.plan = .ok plan) {cell : CellSource} :
    cell ∈ plan.cells ↔ ∃ row col rowBranch colBranch,
      resolved.table.rows.branches[row]? = some rowBranch ∧
        resolved.table.cols.branches[col]? = some colBranch ∧
        resolved.cellSource row col rowBranch colBranch = cell := by
  obtain ⟨_, _, _, _, cells⟩ := plan_eq_ok planned
  rw [cells, mem_map]
  constructor
  · rintro ⟨⟨⟨row, rowBranch⟩, ⟨col, colBranch⟩⟩, member, rfl⟩
    obtain ⟨atRow, atCol⟩ := mem_crossings.mp member
    exact ⟨row, col, rowBranch, colBranch, atRow, atCol, rfl⟩
  · rintro ⟨row, col, rowBranch, colBranch, atRow, atCol, rfl⟩
    exact ⟨((row, rowBranch), (col, colBranch)), mem_crossings.mpr ⟨atRow, atCol⟩, rfl⟩

private theorem mem_aggregates (planned : resolved.plan = .ok plan) {query : GroupingQuery}
    (member : query ∈ plan.mainQueries) {ref : MeasureRef} : ref ∈ query.aggregates ↔
      ∃ cell ∈ plan.cells, ∃ rowBranch colBranch,
        resolved.table.rows.branches[cell.row]? = some rowBranch ∧
          resolved.table.cols.branches[cell.col]? = some colBranch ∧
          ∃ measure ∈ resolved.table.cellMeasures rowBranch colBranch, measure.base = ref ∧
            (query.key = cell.key ∨ ∃ side, measure.across = some side ∧
              query.key = resolved.keptKey rowBranch colBranch side) := by
  obtain ⟨_, _, _, answers, _⟩ := plan_eq_ok planned
  rw [answers.aggregates query member]
  constructor
  · rintro ⟨request, asked, same, within⟩
    obtain ⟨rowBranch, inRows, colBranch, inCols, asked⟩ := mem_requests.mp asked
    obtain ⟨row, atRow⟩ := mem_iff_getElem?.mp inRows
    obtain ⟨col, atCol⟩ := mem_iff_getElem?.mp inCols
    exact ⟨_, (mem_cells planned).mpr ⟨row, col, _, _, atRow, atCol, rfl⟩, rowBranch, colBranch,
      atRow, atCol, asked_in_crossing.mp ⟨request, asked, same, within⟩⟩
  · rintro ⟨cell, listed, rowBranch, colBranch, atRow, atCol, read⟩
    obtain ⟨row, col, _, _, atRow', atCol', rfl⟩ := (mem_cells planned).mp listed
    -- A position has one branch, so the cell is that of this crossing.
    cases atRow.symm.trans atRow'
    cases atCol.symm.trans atCol'
    obtain ⟨request, asked, same, within⟩ := asked_in_crossing.mpr read
    exact ⟨request, mem_requests.mpr ⟨rowBranch, mem_of_getElem? atRow, colBranch,
      mem_of_getElem? atCol, asked⟩, same, within⟩

/-! ### The plan -/

/-- A plan is complete and minimal. -/
theorem plan_covers (planned : resolved.plan = .ok plan) : resolved.Covers plan := by
  obtain ⟨_, _, _, answers, cells⟩ := plan_eq_ok planned
  have keys : plan.mainQueries.map GroupingQuery.key =
      (plan.cells.flatMap CellSource.keys).eraseDups := by
    rw [answers.keys, keys_requests planned]
  refine ⟨?_, ?_, keys, ?_, ?_, fun query member ref => mem_aggregates planned member,
    answers.unique⟩
  · rw [cells, List.map_map]
    exact positions_crossings resolved.table
  · intro cell member
    obtain ⟨row, col, rowBranch, colBranch, atRow, atCol, rfl⟩ := (mem_cells planned).mp member
    exact ⟨rowBranch, colBranch, atRow, atCol, cellSource_reads row col rowBranch colBranch⟩
  · intro cell member key read
    have there : key ∈ plan.mainQueries.map GroupingQuery.key := by
      rw [keys, List.mem_eraseDups]
      exact List.mem_flatMap.mpr ⟨cell, member, read⟩
    obtain ⟨query, within, rfl⟩ := List.mem_map.mp there
    refine ⟨query, ⟨within, rfl⟩, ?_⟩
    rintro other ⟨also, same⟩
    exact List.inj_on_of_nodup_map answers.nodup_keys also within same
  · intro query member
    have there := List.mem_map_of_mem (f := GroupingQuery.key) member
    rw [keys, List.mem_eraseDups] at there
    exact List.mem_flatMap.mp there

/-- The grouping by job is asked for as the denominator of a share, and then again by the total of
the columns, which adds a mean to it. -/
theorem plan_covers_shares_of_top_job :
    let schema := Schema.ofNames ["job", "town"] ["pay"]
    let statement : Statement :=
      { rows := [[.leading (-1) "job" "pay" "sum"], [.overall]]
        cols := some [[.column "town", .share "pay" ["sum"] "COLS"],
          [.overall, .measure "pay" ["mean"]]] }
    let found : Results := [("job#and(job is-not-null, town is-not-null)",
      Row.table ["job", "sum_pay"] [["cook", 3], ["clerk", 2]])]
    let queries := [("job|town#and(job is-not-null, town is-not-null, job in ('cook'))", ["sum_pay"]),
      ("job#and(job is-not-null, town is-not-null, job in ('cook'))", ["sum_pay", "mean_pay"]),
      ("town#and(job is-not-null, town is-not-null)", ["sum_pay"]),
      ("#and(job is-not-null, town is-not-null)", ["sum_pay", "mean_pay"])]
    ∃ table discovery resolved plan,
      Table.compile schema .null statement = .ok table ∧
      table.discover = .ok discovery ∧ table.resolve discovery found = .ok resolved ∧
      resolved.plan = .ok plan ∧
      (plan.mainQueries.map fun query => (query.key, query.aggregates.map MeasureRef.column)) =
        queries ∧
      resolved.Covers plan := by
  intro schema statement found queries
  obtain ⟨table, compiled, discovery, discovered, resolved, fixed, plan, planned, asked⟩ :
      ∃ table, Table.compile schema .null statement = .ok table ∧
        ∃ discovery, table.discover = .ok discovery ∧
        ∃ resolved, table.resolve discovery found = .ok resolved ∧
        ∃ plan, resolved.plan = .ok plan ∧
          (plan.mainQueries.map fun query =>
            (query.key, query.aggregates.map MeasureRef.column)) = queries := by
    decide +kernel
  exact ⟨table, discovery, resolved, plan, compiled, discovered, fixed, planned, asked,
    plan_covers planned⟩

end ResolvedTable

end Crosstab
