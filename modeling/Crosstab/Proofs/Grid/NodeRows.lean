import Crosstab.Proofs.Grid.DirectValue
import Crosstab.Proofs.Ranking
import Crosstab.Proofs.Tabulation

/-!
# Rows of nodes

A dimension looks for members in the answers to all crossings of its node. Each tells its values
together with those above it.
-/
namespace Crosstab

open List ResolvedTable Value

def Side.other : Side → Side
  | .rows => .cols
  | .cols => .rows

namespace ResolvedTable

/-- The request of a crossing, from the branch of one side and that of the other. -/
def crossRequest (resolved : ResolvedTable) : Side → List Node → List Node → QueryRequest
  | .rows, branch, other => resolved.cellRequest branch other
  | .cols, branch, other => resolved.cellRequest other branch

variable {resolved : ResolvedTable} {plan : QueryPlan} {results : Results}

variable {side : Side} {branch other : List Node}

theorem mem_fields_crossRequest {field : String} :
    field ∈ (resolved.crossRequest side branch other).fields ↔
      field ∈ fieldsOf branch ∨ field ∈ fieldsOf other := by
  cases side with
  | rows => simp [crossRequest, cellRequest]
  | cols => simp [crossRequest, cellRequest, or_comm]

theorem crossRequest_mem (inside : branch ∈ (resolved.table.axis side).branches)
    (across : other ∈ (resolved.table.axis side.other).branches) :
    resolved.crossRequest side branch other ∈ resolved.requests := by
  rw [mem_requests]
  cases side with
  | rows => exact ⟨branch, inside, other, across, mem_cons_self⟩
  | cols => exact ⟨other, across, branch, inside, mem_cons_self⟩

private theorem passes_crossRequest_iff {row : Row} :
    (Filter.passes (resolved.crossRequest side branch other).filter row).isTrue ↔
      resolved.table.counts row ∧
      (∀ filter ∈ resolved.memberFilters side branch, Filter.holds row filter = .ok true) ∧
      ∀ filter ∈ resolved.memberFilters side.other other, Filter.holds row filter = .ok true := by
  cases side with
  | rows =>
    rw [crossRequest, cellRequest, Table.passes_queryFilter_iff, forall_mem_append]
    rfl
  | cols =>
    rw [crossRequest, cellRequest, Table.passes_queryFilter_iff, forall_mem_append,
      and_comm (a := ∀ filter ∈ resolved.memberFilters .rows other, _)]
    rfl

/-- A node reads the queries of the crossings that it takes part in. -/
theorem exists_nodeKeys (planned : resolved.plan = .ok plan) (results : Results) (side : Side)
    (id : Nat) : ∃ keys : List String,
      nodeRows resolved.table plan results side id =
        keys.flatMap (fun key => (results.lookup key).getD []) ∧
      ∀ key, key ∈ keys ↔ ∃ branch ∈ (resolved.table.axis side).branches, ∃ other ∈
        (resolved.table.axis side.other).branches,
          id ∈ branch.map Node.id ∧ (resolved.crossRequest side branch other).key = key := by
  obtain ⟨_, _, _, _, cells⟩ := plan_eq_ok planned
  refine ⟨_, rfl, ?_⟩
  intro key
  simp only [mem_eraseDups, mem_map, mem_filter, cells]
  constructor
  · rintro ⟨_, ⟨⟨⟨⟨row, rowBranch⟩, ⟨col, colBranch⟩⟩, crossed, rfl⟩, takes⟩, rfl⟩
    obtain ⟨atRow, atCol⟩ := mem_crossings.mp crossed
    have inRows := mem_of_getElem? atRow
    have inCols := mem_of_getElem? atCol
    -- A cell is of the node if the branch at its position goes through the node.
    cases side with
    | rows =>
      have through : id ∈ rowBranch.map Node.id := by
        simpa [Table.axis, cellSource, atRow, any_eq_true] using takes
      exact ⟨rowBranch, inRows, colBranch, inCols, mem_map.mp through, rfl⟩
    | cols =>
      have through : id ∈ colBranch.map Node.id := by
        simpa [Table.axis, cellSource, atCol, any_eq_true] using takes
      exact ⟨colBranch, inCols, rowBranch, inRows, mem_map.mp through, rfl⟩
  · rintro ⟨branch, inside, other, across, through, rfl⟩
    obtain ⟨i, atBranch⟩ := mem_iff_getElem?.mp inside
    obtain ⟨j, atOther⟩ := mem_iff_getElem?.mp across
    cases side with
    | rows =>
      refine ⟨resolved.cellSource i j branch other, ⟨?_, ?_⟩, rfl⟩
      · exact ⟨((i, branch), (j, other)), mem_crossings.mpr ⟨atBranch, atOther⟩, rfl⟩
      · simpa [cellSource, atBranch, any_eq_true] using through
    | cols =>
      refine ⟨resolved.cellSource j i other branch, ⟨?_, ?_⟩, rfl⟩
      · exact ⟨((j, other), (i, branch)), mem_crossings.mpr ⟨atOther, atBranch⟩, rfl⟩
      · simpa [cellSource, atBranch, any_eq_true] using through

theorem mem_nodeRows (planned : resolved.plan = .ok plan) {id : Nat} {record : Row} :
    record ∈ nodeRows resolved.table plan results side id ↔
      ∃ branch ∈ (resolved.table.axis side).branches, ∃ other ∈
        (resolved.table.axis side.other).branches, ∃ records, id ∈ branch.map Node.id ∧
          results.lookup (resolved.crossRequest side branch other).key = some records ∧
          record ∈ records := by
  obtain ⟨keys, rows, asked⟩ := exists_nodeKeys planned results side id
  rw [rows, mem_flatMap]
  constructor
  · rintro ⟨key, listed, told⟩
    obtain ⟨branch, inside, other, across, through, rfl⟩ := (asked key).mp listed
    cases looked : results.lookup (resolved.crossRequest side branch other).key with
    | none =>
      rw [looked] at told
      cases told
    | some records =>
      rw [looked] at told
      exact ⟨branch, inside, other, across, records, through, looked, told⟩
  · rintro ⟨branch, inside, other, across, records, through, looked, told⟩
    refine ⟨_, (asked _).mpr ⟨branch, inside, other, across, through, rfl⟩, ?_⟩
    rw [looked]
    exact told

end ResolvedTable

namespace Tabulation

variable {schema : Schema} {settings : Settings} {statement : Statement} {source : List Row}
  (t : Tabulation schema settings statement source)
  (faithful : FaithfulKeys t.resolved.requests source)
  (apart : ∀ query ∈ t.plan.mainQueries, ∀ ref ∈ query.aggregates, ref.column ∉ query.fields)

include faithful apart

variable {side : Side} {branch other : List Node}

theorem exists_crossing (inside : branch ∈ (t.table.axis side).branches)
    (across : other ∈ (t.table.axis side.other).branches) :
    ∃ query matched records,
      t.results.lookup (t.resolved.crossRequest side branch other).key = some records ∧
      Source.Records query matched records ∧
      (∀ field, field ∈ query.fields ↔ field ∈ fieldsOf branch ∨ field ∈ fieldsOf other) ∧
      ∀ row, row ∈ matched ↔ row ∈ source ∧ t.table.counts row ∧
        (∀ filter ∈ t.resolved.memberFilters side branch, Filter.holds row filter = .ok true) ∧
        ∀ filter ∈ t.resolved.memberFilters side.other other,
          Filter.holds row filter = .ok true := by
  rw [← t.resolved_table] at inside across ⊢
  have requested := crossRequest_mem inside across
  obtain ⟨query, member, key⟩ := t.answers.exists_query requested
  obtain ⟨fields, selects⟩ := faithful.query_as_asked t.answers member requested key
  obtain ⟨_, records, looked, answered⟩ := t.find_answer member
  obtain ⟨matched, _, passed, _, _⟩ := Source.answer_eq_ok answered
  refine ⟨query, matched, records, key ▸ looked, ?_, ?_, ?_⟩
  · exact Source.records_of_recordsOf ((Source.answer_eq_ok_iff passed).mp answered)
      (fields ▸ nodup_sortedTexts _) (apart query member)
  · intro field
    rw [fields, mem_sortedTexts, mem_fields_crossRequest]
  · intro row
    rw [(Outcome.filterM_eq_ok passed).2, mem_filter]
    refine and_congr_right fun there => ?_
    rw [selects row there, passes_crossRequest_iff]

/-- A record of a node has the values of some row that counts, in all fields down to the node. -/
theorem exists_row_of_mem_nodeRows {visit : Visit Node} {field : String}
    (visited : visit ∈ (t.table.axis side).visits) (named : visit.node.field? = some field)
    {record : Row} (member : record ∈ nodeRows t.resolved.table t.plan t.results side visit.node.id) :
    ∃ row ∈ source, t.table.counts row ∧
      ∀ name ∈ fieldsOf (visit.above ++ [visit.node]), row.get name = record.get name := by
  rw [mem_nodeRows t.planned, t.resolved_table] at member
  obtain ⟨branch, inside, other, across, records, through, looked, told⟩ := member
  obtain ⟨query, matched, records', looked', stands, grouped, selected⟩ :=
    t.exists_crossing faithful apart inside across
  cases looked.symm.trans looked'
  -- A branch through the node starts with all nodes down to it, so all of their fields are grouped.
  have numbered := (Table.wellFormed_of_compile t.compiled).isNumbered side
  obtain ⟨rest, rfl⟩ := Axis.prefix_of_mem_branch numbered visited inside through
  have down {name : String} (among : name ∈ fieldsOf (visit.above ++ [visit.node])) :
      name ∈ query.fields := by
    refine (grouped name).mpr (.inl ?_)
    rw [fieldsOf, filterMap_append]
    exact mem_append_left _ among
  have own : field ∈ fieldsOf (visit.above ++ [visit.node]) := by simp [fieldsOf, named]
  rcases stands.drawn record told with total | ⟨row, there, values⟩
  · exact absurd (down own) (total ▸ not_mem_nil)
  · obtain ⟨listed, counted, _⟩ := (selected row).mp there
    exact ⟨row, listed, counted, fun name among => map_inj_left.mp values name (down among)⟩

/-- A row that counts and has the fixed members of two branches is told by a record of every node
on the one. -/
theorem exists_mem_nodeRows (inside : branch ∈ (t.table.axis side).branches)
    (across : other ∈ (t.table.axis side.other).branches) {row : Row} (listed : row ∈ source)
    (counted : t.table.counts row)
    (fixed : ∀ filter ∈ t.resolved.memberFilters side branch, Filter.holds row filter = .ok true)
    (fixedAcross : ∀ filter ∈ t.resolved.memberFilters side.other other,
      Filter.holds row filter = .ok true) {node : Node} (along : node ∈ branch) :
    ∃ record ∈ nodeRows t.resolved.table t.plan t.results side node.id,
      ∀ name ∈ fieldsOf branch, (record.get name).hashable ∧
        (record.get name).key? = (row.get name).key? := by
  obtain ⟨query, matched, records, looked, stands, grouped, selected⟩ :=
    t.exists_crossing faithful apart inside across
  have there := (selected row).mpr ⟨listed, counted, fixed, fixedAcross⟩
  obtain ⟨record, told, form⟩ := mem_map.mp (stands.covers row there)
  refine ⟨record, ?_, ?_⟩
  · rw [mem_nodeRows t.planned, t.resolved_table]
    exact ⟨branch, inside, other, across, records, mem_map_of_mem along, looked, told⟩
  · intro name among
    have groups := (grouped name).mpr (.inl among)
    exact ⟨stands.hashable told groups, Source.form_eq_iff.mp form name groups⟩

end Tabulation

/-! ### Members found in the rows of a node -/

/-- Members found for a node below some values: every value once that its records with these values
tell, in the order of their texts. -/
structure Expansion.Finds (expansion : Expansion) (above : List String) (node : Node)
    (field : String) (values : Row) (all : List Value) : Prop where
  drawn : ∀ v ∈ all, ∃ record ∈ expansion.nodeRows node.id,
    (∀ name ∈ above, (record.get name).same (values.get name) = true) ∧ record.get field = v
  covers : ∀ record ∈ expansion.nodeRows node.id,
    (∀ name ∈ above, (record.get name).same (values.get name) = true) →
      (record.get field).key? ∈ all.map key?
  usable : ∀ v ∈ all, v.hashable = true
  unique : (all.map key?).Nodup
  ordered : all.Pairwise (Value.ListedBefore node.order.ranking.falls)

variable {expansion : Expansion} {above : List String} {node : Node} {field : String}
  {values : Row} {members : List Value}

private theorem Expansion.foundMembers_eq_ok
    (returned : expansion.foundMembers above node field values = .ok members) :
    ∃ all, members = node.order.ranking.cut all ∧ expansion.Finds above node field values all := by
  unfold foundMembers at returned
  simp only at returned
  split at returned
  next hashable =>
    rw [all_eq_true] at hashable
    -- What the records below the given values tell, with repetitions.
    generalize told : ((expansion.nodeRows node.id).filter fun row =>
      above.all fun name => (row.get name).same (values.get name)).map (fun row => row.get field) =
        found at returned hashable
    have mem_found (v : Value) : v ∈ found ↔ ∃ record ∈ expansion.nodeRows node.id,
        (∀ name ∈ above, (record.get name).same (values.get name)) ∧ record.get field = v := by
      simp [← told, and_assoc]
    obtain ⟨all, ranked, arranged, ordered⟩ := rank_members (distinct found) node.order.ranking
    cases returned.symm.trans ranked
    refine ⟨all, rfl, ?_, ?_, ?_, ?_, ordered⟩
    · intro v member
      exact (mem_found v).mp (mem_of_mem_distinct (arranged.mem_iff.mp member))
    · intro record there agrees
      have known := (mem_found _).mpr ⟨record, there, agrees, rfl⟩
      obtain ⟨kept, among, same⟩ := exists_mem_distinct known (hashable _ known)
      have usable := hashable_of_sameKey same (hashable _ known)
      rw [← (sameKey_iff usable).mp same]
      exact mem_map_of_mem (arranged.mem_iff.mpr among)
    · intro v member
      exact hashable v (mem_of_mem_distinct (arranged.mem_iff.mp member))
    · exact (arranged.map key?).nodup_iff.mpr (nodup_keys_distinct hashable)
  · cases returned

/-- The members of a node are those that discovery fixed, and else those found, cut to the limit. -/
theorem Expansion.members_eq_ok (returned : expansion.members above node field values = .ok members) :
    (∃ selection, expansion.selections.find? (fun selection => selection.node == node.id) =
        some selection ∧ selection.members (above.map values.get) = .ok members) ∨
      ∃ all, members = node.order.ranking.cut all ∧
        expansion.Finds above node field values all := by
  unfold Expansion.members at returned
  split at returned
  next selection known => exact .inl ⟨selection, known, returned⟩
  · exact .inr (Expansion.foundMembers_eq_ok returned)

namespace ResolvedTable

variable {resolved : ResolvedTable} {plan : QueryPlan} {results : Results} {settings : Settings}
  {side : Side} {node : Node}

theorem members_of_selection {selection : Selection}
    (known : resolved.selection? side node.id = some selection) (above : List String)
    (field : String) (values : Row) :
    (resolved.expansion plan results settings side).members above node field values =
      selection.members (above.map values.get) := by
  have chosen : (resolved.expansion plan results settings side).selections.find?
      (fun selection => selection.node == node.id) = some selection := known
  simp only [Expansion.members, chosen]

theorem members_of_none (unknown : resolved.selection? side node.id = none) (above : List String)
    (field : String) (values : Row) :
    (resolved.expansion plan results settings side).members above node field values =
      (resolved.expansion plan results settings side).foundMembers above node field values := by
  have unchosen : (resolved.expansion plan results settings side).selections.find?
      (fun selection => selection.node == node.id) = none := unknown
  simp only [Expansion.members, unchosen]

end ResolvedTable

end Crosstab
