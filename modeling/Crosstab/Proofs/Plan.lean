import Crosstab.Proofs.Query.Merging
import Crosstab.Proofs.Table

/-!
# Plans

What the success of the stages up to the plan says about them. All queries ask only for measures of
the table.
-/
namespace Crosstab

open List Outcome

/-! ### Discovery -/

namespace Table

variable {table : Table} {discovery : DiscoveryPlan}

theorem discover_eq_ok (discovered : table.discover = .ok discovery) :
    table.validate = .ok () ∧
      Answers (table.pendingVisits.map fun entry => table.rankingRequest entry.2)
        discovery.queries ∧
      discovery.nodeKeys = table.pendingVisits.map fun entry =>
        ((entry.1, entry.2.node.id), (table.rankingRequest entry.2).key) := by
  obtain ⟨⟨⟩, valid, discovered⟩ := bind_eq_ok.mp discovered
  cases discovered
  exact ⟨valid, mergeRequests_answers _ _, rfl⟩

theorem resolve_eq_ok {found : Results} {resolved : ResolvedTable}
    (fixed : table.resolve discovery found = .ok resolved) :
    resolved.table = table ∧ resolved.discoveryQueries = discovery.queries ∧
      ∀ side, (table.axis side).pendingVisits.mapM (resolveNode side discovery found) =
        .ok (resolved.selections side) := by
  obtain ⟨rowMembers, fixedRows, fixed⟩ := bind_eq_ok.mp fixed
  obtain ⟨colMembers, fixedCols, fixed⟩ := bind_eq_ok.mp fixed
  cases fixed
  refine ⟨rfl, rfl, ?_⟩
  intro side
  cases side with
  | rows => exact fixedRows
  | cols => exact fixedCols

theorem mem_pendingVisits {side : Side} {visit : Visit Node} :
    (side, visit) ∈ table.pendingVisits ↔ visit ∈ (table.axis side).pendingVisits := by
  unfold pendingVisits
  simp only [mem_flatMap, mem_map, Prod.mk.injEq]
  constructor
  · rintro ⟨other, _, entry, member, rfl, rfl⟩
    exact member
  · intro member
    exact ⟨side, by cases side <;> decide, visit, member, rfl, rfl⟩

end Table

variable {axis : Axis} {visit : Visit Node}

theorem Axis.node_mem_walk (visited : visit ∈ axis.visits) : visit.node ∈ axis.forest.walk := by
  rw [← Forest.map_node_visits axis.forest []]
  exact mem_map_of_mem visited

theorem Axis.node_mem_walk_of_pending (member : visit ∈ axis.pendingVisits) :
    visit.node ∈ axis.forest.walk :=
  node_mem_walk (mem_filter.mp member).1

/-! ### Valid tables -/

namespace Table

variable {table : Table}

theorem validate_eq_ok (valid : table.validate = .ok ()) :
    (∀ side, table.repeatedBranch? side = none) ∧ table.sharedFields = [] ∧
      ∀ entry ∈ table.pendingVisits, table.forcedNull? entry.2.node = none := by
  unfold validate at valid
  split at valid
  · cases valid
  next sound =>
    unfold defect? at sound
    simp only [Option.orElse_eq_orElse, Option.orElse_eq_or, Option.or_eq_none_iff,
      findSome?_eq_none_iff, Option.map_eq_none_iff] at sound
    obtain ⟨unrepeated, apart, ranked⟩ := sound
    refine ⟨fun side => unrepeated side (by cases side <;> decide), ?_, ranked⟩
    split at apart
    next none => exact isEmpty_iff.mp none
    · cases apart

theorem validate_of_sound (unrepeated : ∀ side, table.repeatedBranch? side = none)
    (apart : table.sharedFields = [])
    (ranked : ∀ entry ∈ table.pendingVisits, table.forcedNull? entry.2.node = none) :
    table.validate = .ok () := by
  have sound : table.defect? = none := by
    simp only [defect?, Option.orElse_eq_orElse, Option.orElse_eq_or, Option.or_eq_none_iff,
      findSome?_eq_none_iff, Option.map_eq_none_iff, apart]
    exact ⟨fun side _ => unrepeated side, rfl, ranked⟩
  unfold validate
  rw [sound]

theorem repeatedBranch?_of_map {table' : Table} {side side' : Side} {f : Node → Node}
    (fields : ∀ nodes, fieldsOf (nodes.map f) = fieldsOf nodes)
    (branches : (table'.axis side').branches = (table.axis side).branches.map (map f)) :
    table'.repeatedBranch? side' = table.repeatedBranch? side := by
  have same : fieldsOf ∘ map f = fieldsOf := funext fields
  rw [repeatedBranch?, branches, map_map, same, repeatedBranch?]

variable {side : Side} {branch : List Node} {field : String}

theorem nodup_fieldsOf_branch (valid : table.validate = .ok ())
    (member : branch ∈ (table.axis side).branches) : (fieldsOf branch).Nodup := by
  have once := (validate_eq_ok valid).1 side
  unfold repeatedBranch? at once
  rw [find?_eq_none] at once
  have unrepeated := once _ (mem_map_of_mem member)
  simp only [hasRepeat, bne_iff_ne, ne_eq, not_not] at unrepeated
  exact nodup_of_length_eraseDups_eq unrepeated

theorem mem_fields_of_mem_branch {axis : Axis} (member : branch ∈ axis.branches)
    (along : field ∈ fieldsOf branch) : field ∈ axis.fields := by
  obtain ⟨node, inside, named⟩ := mem_filterMap.mp along
  rw [Axis.fields, mem_eraseDups]
  exact mem_filterMap.mpr ⟨node, Axis.mem_walk_of_mem_branch member inside, named⟩

theorem not_mem_cols_of_mem_rows (valid : table.validate = .ok ()) {rowBranch colBranch : List Node}
    (inRows : rowBranch ∈ table.rows.branches) (inCols : colBranch ∈ table.cols.branches)
    (member : field ∈ fieldsOf rowBranch) : field ∉ fieldsOf colBranch := by
  intro shared
  have apart := (validate_eq_ok valid).2.1
  rw [sharedFields, sortedTexts_eq_nil, filter_eq_nil_iff] at apart
  apply apart field (mem_fields_of_mem_branch inRows member)
  simpa using mem_fields_of_mem_branch inCols shared

/-- The fields of every branch are among the dimensions of the table. -/
theorem mem_dimensionFields (member : branch ∈ (table.axis side).branches)
    (along : field ∈ fieldsOf branch) : field ∈ table.dimensionFields := by
  have known := mem_fields_of_mem_branch member along
  unfold dimensionFields
  rw [mem_append, mem_filter]
  cases side with
  | rows => exact .inl known
  | cols =>
    -- The fields of the columns are listed behind those of the rows, without those that are there
    -- already.
    by_cases shared : field ∈ table.rows.fields
    · exact .inl shared
    · exact .inr ⟨known, by simpa using shared⟩

end Table

/-! ### Main queries -/

namespace ResolvedTable

variable {resolved : ResolvedTable} {plan : QueryPlan}

def requests (resolved : ResolvedTable) : List QueryRequest :=
  (crossings resolved.table).flatMap fun crossing =>
    resolved.crossingRequests crossing.1.2 crossing.2.2

variable {rowBranch colBranch : List Node} {request : QueryRequest}

theorem mem_crossings {table : Table} {row col : Nat} :
    ((row, rowBranch), (col, colBranch)) ∈ crossings table ↔
      table.rows.branches[row]? = some rowBranch ∧ table.cols.branches[col]? = some colBranch := by
  unfold crossings
  simp only [mem_flatMap, mem_map, Prod.exists, Prod.mk.injEq, mem_zipIdx_iff_getElem?]
  constructor
  · rintro ⟨_, _, atRow, _, _, atCol, ⟨rfl, rfl⟩, rfl, rfl⟩
    exact ⟨atRow, atCol⟩
  · rintro ⟨atRow, atCol⟩
    exact ⟨_, _, atRow, _, _, atCol, ⟨rfl, rfl⟩, rfl, rfl⟩

theorem mem_requests : request ∈ resolved.requests ↔
    ∃ rowBranch ∈ resolved.table.rows.branches, ∃ colBranch ∈ resolved.table.cols.branches,
      request ∈ resolved.crossingRequests rowBranch colBranch := by
  unfold requests
  simp only [mem_flatMap, Prod.exists, mem_crossings]
  constructor
  · rintro ⟨row, rowBranch, col, colBranch, ⟨atRow, atCol⟩, member⟩
    exact ⟨rowBranch, mem_of_getElem? atRow, colBranch, mem_of_getElem? atCol, member⟩
  · rintro ⟨rowBranch, inRows, colBranch, inCols, member⟩
    obtain ⟨row, atRow⟩ := mem_iff_getElem?.mp inRows
    obtain ⟨col, atCol⟩ := mem_iff_getElem?.mp inCols
    exact ⟨row, rowBranch, col, colBranch, ⟨atRow, atCol⟩, member⟩

theorem plan_eq_ok (planned : resolved.plan = .ok plan) :
    resolved.table.validate = .ok () ∧ resolved.checkResolved = .ok () ∧
      plan.discoveryQueries = resolved.discoveryQueries ∧
      Answers resolved.requests plan.mainQueries ∧
      plan.cells = (crossings resolved.table).map fun crossing =>
        resolved.cellSource crossing.1.1 crossing.2.1 crossing.1.2 crossing.2.2 := by
  obtain ⟨⟨⟩, valid, planned⟩ := bind_eq_ok.mp planned
  obtain ⟨⟨⟩, ranked, planned⟩ := bind_eq_ok.mp planned
  cases planned
  exact ⟨valid, ranked, rfl, mergeRequests_answers _ _, rfl⟩

theorem aggregates_of_mem_crossingRequests
    (member : request ∈ resolved.crossingRequests rowBranch colBranch) {ref : MeasureRef}
    (asked : ref ∈ request.aggregates) : ref ∈ resolved.table.measures.map Measure.base := by
  rw [crossingRequests, mem_cons, mem_filterMap] at member
  -- The request of the cell itself, or one for the denominator of a share.
  rcases member with rfl | ⟨measure, shown, denominator⟩
  · obtain ⟨measure, shown, rfl⟩ := mem_map.mp asked
    exact mem_map_of_mem (Table.mem_measures_of_mem_cellMeasures shown)
  · have own : request.aggregates = [measure.base] := by
      unfold denominatorRequest at denominator
      rw [Option.map_eq_some_iff] at denominator
      obtain ⟨side, _, rfl⟩ := denominator
      cases side <;> rfl
    rw [own, mem_singleton] at asked
    rw [asked]
    exact mem_map_of_mem (Table.mem_measures_of_mem_cellMeasures shown)

theorem base_mem_of_denominatorRequest {measure : Measure}
    (divided : resolved.denominatorRequest rowBranch colBranch measure = some request) :
    measure.base ∈ request.aggregates := by
  obtain ⟨side, _, rfl⟩ := Option.map_eq_some_iff.mp divided
  cases side <;> exact mem_singleton_self _

/-- Requests narrow the filter of the table by conditions that keep fixed members. -/
theorem narrow_of_mem_requests (member : request ∈ resolved.requests) :
    ∃ narrow, request.filter = resolved.table.queryFilter narrow ∧ ∀ filter ∈ narrow,
      ∃ side, ∃ branch ∈ (resolved.table.axis side).branches,
        filter ∈ resolved.memberFilters side branch := by
  obtain ⟨rowBranch, inRows, colBranch, inCols, asked⟩ := mem_requests.mp member
  have ofRows : ∀ filter ∈ resolved.memberFilters .rows rowBranch, ∃ side, ∃ branch ∈
      (resolved.table.axis side).branches, filter ∈ resolved.memberFilters side branch :=
    fun _ listed => ⟨.rows, rowBranch, inRows, listed⟩
  have ofCols : ∀ filter ∈ resolved.memberFilters .cols colBranch, ∃ side, ∃ branch ∈
      (resolved.table.axis side).branches, filter ∈ resolved.memberFilters side branch :=
    fun _ listed => ⟨.cols, colBranch, inCols, listed⟩
  -- The crossing itself narrows by both branches, a denominator by the one that is kept.
  rcases mem_cons.mp asked with rfl | asked
  · exact ⟨_, rfl, forall_mem_append.mpr ⟨ofRows, ofCols⟩⟩
  · obtain ⟨measure, _, denominator⟩ := mem_filterMap.mp asked
    obtain ⟨side, _, rfl⟩ := Option.map_eq_some_iff.mp denominator
    cases side with
    | rows => exact ⟨_, rfl, ofCols⟩
    | cols => exact ⟨_, rfl, ofRows⟩

end ResolvedTable

end Crosstab
