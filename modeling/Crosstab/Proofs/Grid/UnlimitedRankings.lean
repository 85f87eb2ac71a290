import Crosstab.Proofs.Grid.UnlimitedBranches
import Crosstab.Proofs.Source.Excluded
import Crosstab.Proofs.Source.Stage

/-!
# Rankings without limits

Where no ordering by value has a limit, all queries are answered from the rows that count, and a
dimension finds the same members in every answer.
-/
namespace Crosstab

open List Selection Crosstab.Filter Table Source

/-- No ordering by value has a limit. -/
def Table.RanksUnlimited (table : Table) : Prop :=
  ∀ entry ∈ table.pendingVisits, entry.2.node.order.limit = none

instance (table : Table) : Decidable table.RanksUnlimited :=
  inferInstanceAs (Decidable (∀ entry ∈ table.pendingVisits, entry.2.node.order.limit = none))

abbrev Table.rankingRequests (table : Table) : List QueryRequest :=
  table.pendingVisits.map fun entry => table.rankingRequest entry.2

/-! ### Conditions that keep all rows -/

namespace Table

variable {table : Table} {source : List Row}

private theorem exists_holds_of_mem_guards {filter : Filter} (member : filter ∈ table.guards)
    (row : Row) : ∃ truth, holds row filter = .ok truth := by
  unfold guards at member
  split at member
  · cases member
  · obtain ⟨field, _, rfl⟩ := mem_map.mp member
    exact ⟨_, rfl⟩

variable {narrow : List Filter}

section

variable (evaluated : ∀ row ∈ source, ∃ truth, passes table.filter row = .ok truth)
  (answered : ∀ filter ∈ narrow, ∀ row, ∃ truth, holds row filter = .ok truth)
include evaluated answered

theorem exists_passes_queryFilter :
    ∀ row ∈ source, ∃ truth, passes (table.queryFilter narrow) row = .ok truth := by
  intro row listed
  rw [queryFilter, exists_passes_conjoin_iff, forall_mem_append]
  exact ⟨evaluated row listed, fun filter member => exists_holds_of_mem_guards member row,
    fun filter member => answered filter member row⟩

/-- A query selects all rows that count if the conditions that narrow it keep them. -/
theorem matching_queryFilter
    (kept : ∀ filter ∈ narrow, ∀ row ∈ source, table.counts row → holds row filter = .ok true) :
    matching (table.queryFilter narrow) source = .ok (source.filter table.counts) := by
  rw [matching, Outcome.filterM_of_answered (exists_passes_queryFilter evaluated answered)]
  congr 1
  apply filter_congr
  intro row listed
  rw [Bool.eq_iff_iff, passes_queryFilter_iff, and_iff_left_iff_imp]
  exact fun counted filter member => kept filter member row listed counted

end

end Table

namespace ResolvedTable

variable {resolved : ResolvedTable} {source : List Row}

/-- The conditions that keep fixed members keep all rows that count. -/
def KeepsAll (resolved : ResolvedTable) (source : List Row) : Prop :=
  ∀ side, ∀ branch ∈ (resolved.table.axis side).branches,
    ∀ filter ∈ resolved.memberFilters side branch, ∀ row ∈ source,
      resolved.table.counts row = true → holds row filter = .ok true

theorem exists_holds_of_mem_memberFilters {side : Side} {branch : List Node} {filter : Filter}
    (stated : filter ∈ resolved.memberFilters side branch) (row : Row) :
    ∃ truth, holds row filter = .ok truth := by
  obtain ⟨node, _, made⟩ := mem_filterMap.mp stated
  obtain ⟨selection, _, rfl⟩ := Option.map_eq_some_iff.mp made
  exact ⟨_, rfl⟩

theorem KeepsAll.selects (keeps : resolved.KeepsAll source)
    (evaluated : ∀ row ∈ source, ∃ truth, passes resolved.table.filter row = .ok truth)
    {request : QueryRequest} (member : request ∈ resolved.requests) :
    matching request.filter source = .ok (source.filter resolved.table.counts) := by
  obtain ⟨narrow, filter, conditions⟩ := narrow_of_mem_requests member
  rw [filter]
  refine matching_queryFilter evaluated ?_ ?_
  · intro condition listed row
    obtain ⟨side, branch, _, stated⟩ := conditions condition listed
    exact exists_holds_of_mem_memberFilters stated row
  · intro condition listed
    obtain ⟨side, branch, inside, stated⟩ := conditions condition listed
    exact keeps side branch inside condition stated

end ResolvedTable

/-! ### Stages of a tabulation -/

namespace Tabulation

variable {schema : Schema} {settings : Settings} {statement : Statement} {source : List Row}

theorem filter_evaluated (t : Tabulation schema settings statement source) :
    ∀ row ∈ source, ∃ truth, passes t.table.filter row = .ok truth := by
  intro row listed
  obtain ⟨rowBranch, inRows⟩ := exists_mem_of_ne_nil _ t.resolved.table.rows.branches_ne_nil
  obtain ⟨colBranch, inCols⟩ := exists_mem_of_ne_nil _ t.resolved.table.cols.branches_ne_nil
  have requested : t.resolved.cellRequest rowBranch colBranch ∈ t.resolved.requests :=
    ResolvedTable.mem_requests.mpr ⟨rowBranch, inRows, colBranch, inCols, mem_cons_self⟩
  -- Any query will do, as all of them narrow this filter.
  obtain ⟨query, member, _⟩ := t.answers.exists_query requested
  obtain ⟨_, records, _, answered⟩ := t.find_answer member
  obtain ⟨_, _, passed, _, _⟩ := answer_eq_ok answered
  obtain ⟨narrow, filter⟩ := t.guards_main query member
  have evaluated := (Outcome.filterM_eq_ok passed).1 row listed
  rw [filter, queryFilter, exists_passes_conjoin_iff] at evaluated
  exact evaluated.1

theorem resolved_filter_evaluated (t : Tabulation schema settings statement source) :
    ∀ row ∈ source, ∃ truth, passes t.resolved.table.filter row = .ok truth := by
  rw [t.resolved_table]
  exact t.filter_evaluated

variable {t : Tabulation schema settings statement source}

namespace AnsweredAsAsked

variable (asked : t.AnsweredAsAsked)

include asked

/-- Discovery is answered from the rows that count. -/
theorem rankingStage : AnsweredFrom source (source.filter t.table.counts) t.table.rankingRequests
    t.discovery.queries t.found where
  answers := (discover_eq_ok t.discovered).2.1
  faithful := asked.rankingKeys
  columns := asked.rankingColumns
  selects request member := by
    obtain ⟨entry, _, rfl⟩ := mem_map.mp member
    exact matching_queryFilter t.filter_evaluated (by simp) (by simp)
  answered := t.explored

variable (unlimited : t.table.RanksUnlimited)

include unlimited

theorem keepsAll : t.resolved.KeepsAll source := by
  intro side branch inside filter stated row listed counted
  rw [t.resolved_table] at inside counted
  obtain ⟨node, along, made⟩ := mem_filterMap.mp stated
  obtain ⟨selection, known, rfl⟩ := Option.map_eq_some_iff.mp made
  have walked := Axis.mem_walk_of_mem_branch inside along
  obtain ⟨visit, pending, rfl, _⟩ := visit_of_selection?
    (wellFormed_of_compile t.compiled) t.fixed walked known
  exact asked.member_holds walked (unlimited (side, visit) (mem_pendingVisits.mpr pending))
    known listed counted

/-- The plan is answered from the rows that count. -/
theorem mainStage : AnsweredFrom source (source.filter t.table.counts) t.resolved.requests
    t.plan.mainQueries t.results where
  toAnsweredBy := asked.answeredBy
  selects request member := by
    rw [← t.resolved_table]
    exact (asked.keepsAll unlimited).selects t.resolved_filter_evaluated member

end AnsweredAsAsked

end Tabulation

/-! ### Members -/

/-- The members of a dimension below some values: what the rows with these values say, each value
once. -/
def membersUnder (above : List String) (field : String) (values : Row) (rows : List Row) :
    List Value :=
  Value.distinct (columnUnder above field values rows)

variable {source : List Row} {side : Side} {visit : Visit Node} {field : String} {values : Row}
  {selection : Selection} {picked : List Value}

/-- A dimension that is ordered by text lists the members among the selected rows. -/
theorem ResolvedTable.foundMembers_eq {resolved : ResolvedTable} {plan : QueryPlan}
    {results : Results} {selected : List Row} (planned : resolved.plan = .ok plan)
    (stage : AnsweredFrom source selected resolved.requests plan.mainQueries results)
    (numbered : (resolved.table.axis side).forest.IsNumbered)
    (visited : visit ∈ (resolved.table.axis side).visits) (named : visit.node.field? = some field)
    (numbers : ∀ row ∈ selected, ∀ name ∈ visit.scope, (row.get name).isNan = false)
    (usable : ∀ name ∈ visit.scope, (values.get name).hashable) (settings : Settings) :
    (resolved.expansion plan results settings side).foundMembers visit.scope visit.node
        field values =
      rank ((membersUnder visit.scope field values selected).map Candidate.ofMember)
        visit.node.order.ranking := by
  obtain ⟨keys, rows, asked⟩ := exists_nodeKeys planned results side visit.node.id
  let told (key : String) : List Value :=
    columnUnder visit.scope field values ((results.lookup key).getD [])
  have columns : columnUnder visit.scope field values
      (nodeRows resolved.table plan results side visit.node.id) = (keys.map told).flatten := by
    rw [rows, flatMap_def, columnUnder_flatten, map_map]
    rfl
  -- Every query that the node reads groups by the fields down to the node.
  have each : ∀ key ∈ keys, (∀ v ∈ told key, v.hashable) ∧
      Value.distinct (told key) = membersUnder visit.scope field values selected := by
    intro key listed
    obtain ⟨branch, inside, other, across, through, rfl⟩ := (asked key).mp listed
    obtain ⟨query, records, serves⟩ := stage.exists_serves (crossRequest_mem inside across)
    have starts := Axis.prefix_of_mem_branch numbered visited inside through
    have down : visit.scope ++ [field] ⊆ query.fields := by
      intro name among
      rw [serves.mem_fields, mem_fields_crossRequest]
      refine .inl ((starts.sublist.filterMap _).subset ?_)
      simpa [fieldsOf, named] using among
    have tells := tells_of_recordsOf serves.told serves.columns
    have looked : told (resolved.crossRequest side branch other).key =
        columnUnder visit.scope field values records := by
      simp only [told, serves.looked, Option.getD_some]
    rw [looked]
    refine ⟨?_, distinct_columnUnder_records down serves.columns serves.told numbers usable⟩
    intro v member
    obtain ⟨record, there, _, rfl⟩ := mem_columnUnder.mp member
    exact tells.hashable there (down (by simp))
  have hashable : ∀ v ∈ (keys.map told).flatten, v.hashable := by
    intro v member
    obtain ⟨_, listed, inside⟩ := mem_flatten.mp member
    obtain ⟨key, known, rfl⟩ := mem_map.mp listed
    exact (each key known).1 v inside
  have some : keys.map told ≠ [] := by
    obtain ⟨branch, inside, starts⟩ := Axis.exists_branch_of_mem_visits visited
    obtain ⟨other, across⟩ :=
      exists_mem_of_ne_nil _ (resolved.table.axis side.other).branches_ne_nil
    have through : visit.node.id ∈ branch.map Node.id := mem_map_of_mem (starts.subset (by simp))
    rw [ne_eq, map_eq_nil_iff]
    exact ne_nil_of_mem ((asked _).mpr ⟨branch, inside, other, across, through, rfl⟩)
  rw [Expansion.foundMembers_eq_rank]
  show (if (columnUnder _ field values (nodeRows resolved.table plan results side
    visit.node.id)).all _ then _ else _) = _
  rw [columns, if_pos (all_eq_true.mpr hashable)]
  have distinct : Value.distinct (keys.map told).flatten =
      membersUnder visit.scope field values selected := by
    refine Value.distinct_flatten some hashable ?_
    rw [forall_mem_map]
    exact fun key known => (each key known).2
  show rank ((Value.distinct (columnUnder _ field values (nodeRows resolved.table plan results side
    visit.node.id))).map _) _ = _
  rw [columns, distinct]

/-- A dimension that is ordered by value, without a limit, lists the same members in some order. -/
theorem Table.Explored.members_perm {table : Table} {ref : MeasureRef} {query : GroupingQuery}
    {matched records : List Row}
    (explored : table.Explored source visit field ref query matched records)
    (told : recordsOf query matched = .ok records) (columns : query.columns.Nodup)
    (made : ofRows visit field ref records = .ok selection)
    (unlimited : visit.node.order.limit = none)
    (under : selection.members (visit.scope.map values.get) = .ok picked) :
    picked.Perm (membersUnder visit.scope field values matched) := by
  have ranks := ranks_of_ofRows made
  obtain ⟨usable, entries⟩ := members_eq_ok under
  have hashable : ∀ name ∈ visit.scope, (values.get name).hashable := by
    rw [all_map, all_eq_true] at usable
    exact usable
  have own := (explored.grouped field).mpr (.inr rfl)
  have down : visit.scope ++ [field] ⊆ query.fields := by
    intro name among
    rw [explored.grouped]
    simpa using among
  have numbers : ∀ row ∈ matched, ∀ name ∈ visit.scope, (row.get name).isNan = false :=
    fun row there name above => explored.numbers row (explored.mem_matched.mp there).1 name
      ((explored.grouped name).mpr (.inl above))
  -- Records with the given values are those under the parent that has them.
  have column : columnUnder visit.scope field values records =
      (candidates visit field ref records
        (visit.scope.map values.get)).map Prod.fst := by
    rw [candidates, map_map]
    refine congrArg (List.map _) (filter_congr fun record there => ?_)
    obtain ⟨row, inside, above, _⟩ := explored.exists_row there
    rw [Bool.eq_iff_iff, all_eq_true, decide_eq_true_iff, Row.project, map_map,
      map_map, map_inj_left]
    refine forall₂_congr fun name listed => Value.same_iff_key?_eq ?_ (hashable name listed)
    rw [← map_inj_left.mp above name listed]
    exact numbers row inside name listed
  have once : ((columnUnder visit.scope field values records).map Value.key?).Nodup := by
    rw [column, map_map]
    exact (explored.candidatesUnder usable (by simp)).once
  have members : membersUnder visit.scope field values matched =
      columnUnder visit.scope field values records := by
    rw [membersUnder, ← distinct_columnUnder_records down columns told numbers hashable]
    refine Value.distinct_eq_self ?_ once
    intro v member
    obtain ⟨record, there, _, rfl⟩ := mem_columnUnder.mp member
    exact explored.tells.hashable there own
  rw [members, column]
  have usableEntry : ∀ entry ∈ selection.byParent, entry.1.all Value.hashable := by
    intro entry known
    obtain ⟨record, there, parent⟩ := ranks.drawn entry known
    rw [← parent]
    exact ranks.usable record there
  rcases entries with ⟨rfl, unknown⟩ | ⟨entry, known, same, rfl⟩
  · have none : candidates visit field ref records
        (visit.scope.map values.get) = [] := by
      rw [candidates, map_eq_nil_iff, filter_eq_nil_iff]
      intro record there parent
      obtain ⟨entry, known, form⟩ := ranks.covers record there
      have same := (Value.sameKeys_iff (usableEntry entry known)).mpr
        (form.trans (of_decide_eq_true parent))
      exact absurd same (by simp [unknown entry known])
    rw [none]
    exact .refl _
  · have parent := (Value.sameKeys_iff (usableEntry entry known)).mp same
    obtain ⟨ranked, arranged, cut⟩ := perm_of_rank (ranks.members entry known)
    rw [cut, Ranking.cut_eq_self unlimited]
    have candidates : candidates visit field ref records entry.1 =
        candidates visit field ref records (visit.scope.map values.get) := by
      rw [candidates, candidates, parent]
    rw [candidates] at arranged
    exact arranged.map Prod.fst

/-- Members that were fixed for a dimension below some values are those of the rows that count. -/
theorem Tabulation.AnsweredAsAsked.members_perm {schema : Schema} {settings : Settings}
    {statement : Statement} {t : Tabulation schema settings statement source}
    (asked : t.AnsweredAsAsked) (unlimited : t.table.RanksUnlimited)
    (visited : visit ∈ (t.table.axis side).visits) (named : visit.node.field? = some field)
    (known : t.resolved.selection? side visit.node.id = some selection)
    (under : selection.members (visit.scope.map values.get) = .ok picked) :
    visit.node.isPending ∧ (picked.map Value.key?).Nodup ∧ (∀ v ∈ picked, v.hashable) ∧
      picked.Perm
        (membersUnder visit.scope field values (source.filter t.table.counts)) := by
  have wellFormed := wellFormed_of_compile t.compiled
  obtain ⟨other, pending, same, made⟩ :=
    visit_of_selection? wellFormed t.fixed (Axis.node_mem_walk visited) known
  cases inj_on_of_nodup_map (Axis.nodup_ids_visits (wellFormed.isNumbered side))
    (mem_filter.mp pending).1 visited (congrArg Node.id same)
  obtain ⟨name, ref, named', ordered⟩ := exists_of_isPending (mem_filter.mp pending).2
  have listed := mem_pendingVisits.mpr pending
  obtain ⟨query, records, serves⟩ := asked.rankingStage.exists_serves (mem_map_of_mem listed)
  rw [resolveNode_eq_ofRows wellFormed t.discovered pending named ordered serves.looked] at made
  have explored := explored_of_recordsOf asked.numbers pending named ordered
    (fun _ => serves.mem_fields) serves.asked serves.columns serves.told
  have takes : TakesApart field [] picked :=
    explored.takesApart made (unlimited _ listed) under (by simp)
  exact ⟨(mem_filter.mp pending).2, takes.unique, takes.usable,
    explored.members_perm serves.told serves.columns made (unlimited _ listed) under⟩

end Crosstab
