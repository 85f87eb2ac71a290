import Crosstab.Proofs.Plan.Faithful
import Crosstab.Proofs.Unranking.Clause

/-!
# Plans without some of the rankings

Without some rankings that have no limit, a plan asks for the same groupings under fewer conditions,
all answered from the same rows.
-/
namespace Crosstab

open List

/-! ### Nodes -/

namespace Node.Unranks

variable {node node' : Node}

variable (unranks : node.Unranks node')
include unranks

theorem all_but_order : node'.id = node.id ∧ node'.label = node.label ∧
    node'.measures = node.measures ∧ node'.field? = node.field? := by
  cases unranks <;> exact ⟨rfl, rfl, rfl, rfl⟩

theorem eq_of_isPending (pending : node'.isPending) : node' = node := by
  cases unranks with
  | same => rfl
  | plain => cases pending

theorem eq_of_not_isPending (text : node.isPending = false) : node' = node := by
  cases unranks with
  | same => rfl
  | plain id field label measures ranked unlimited => cases ranked.symm.trans text

theorem order_of_dropped (ranked : node.isPending)
    (dropped : node'.isPending = false) : node'.order = .plain := by
  cases unranks with
  | same => cases ranked.symm.trans dropped
  | plain => rfl

end Node.Unranks

namespace Unranking

variable (unranking : Unranking)

@[simp] theorem id_node (node : Node) : (unranking.node node).id = node.id :=
  (unranking.unranks node).all_but_order.1

@[simp] theorem label_node (node : Node) : (unranking.node node).label = node.label :=
  (unranking.unranks node).all_but_order.2.1

@[simp] theorem measures_node (node : Node) : (unranking.node node).measures = node.measures :=
  (unranking.unranks node).all_but_order.2.2.1

@[simp] theorem field?_node (node : Node) : (unranking.node node).field? = node.field? :=
  (unranking.unranks node).all_but_order.2.2.2

@[simp] theorem fieldsOf_map (nodes : List Node) :
    fieldsOf (nodes.map unranking.node) = fieldsOf nodes :=
  fieldsOf_map_of_field? unranking.field?_node nodes

end Unranking

/-! ### Axes -/

namespace Axis

variable (unranking : Unranking) (axis : Axis)

theorem branches_unranked :
    (axis.unranked unranking).branches = axis.branches.map (map unranking.node) :=
  branches_of_map rfl

theorem visits_unranked :
    (axis.unranked unranking).visits = axis.visits.map (Visit.map unranking.node) :=
  visits_of_map rfl

theorem fields_unranked : (axis.unranked unranking).fields = axis.fields :=
  fields_of_map rfl unranking.field?_node

private theorem branchMeasures_unranked (branch : List Node) :
    (axis.unranked unranking).branchMeasures (branch.map unranking.node) =
      axis.branchMeasures branch := by
  have same : (axis.unranked unranking).branchMeasures (branch.map unranking.node) =
      (axis.branchMeasures branch).map id := by
    refine branchMeasures_of_map (map_id _).symm (fun node => ?_) branch
    rw [unranking.measures_node, map_id]
  rwa [map_id] at same

theorem pendingVisits_unranked : (axis.unranked unranking).pendingVisits =
    (axis.visits.filter fun visit => (unranking.node visit.node).isPending).map
      (Visit.map unranking.node) := by
  rw [pendingVisits, visits_unranked, filter_map]
  rfl

theorem exists_of_mem_pendingVisits_unranked {unranking : Unranking} {axis : Axis}
    {visit' : Visit Node} (member : visit' ∈ (axis.unranked unranking).pendingVisits) :
    ∃ visit ∈ axis.pendingVisits, visit' = visit.map unranking.node ∧
      unranking.node visit.node = visit.node := by
  rw [pendingVisits_unranked] at member
  obtain ⟨visit, there, rfl⟩ := mem_map.mp member
  obtain ⟨visited, pending⟩ := mem_filter.mp there
  have kept := (unranking.unranks visit.node).eq_of_isPending pending
  rw [kept] at pending
  exact ⟨visit, mem_filter.mpr ⟨visited, pending⟩, rfl, kept⟩

end Axis

/-! ### Tables -/

namespace Table

variable (unranking : Side → Unranking) (table : Table)

theorem axis_unranked (side : Side) :
    (table.unranked unranking).axis side = (table.axis side).unranked (unranking side) := by
  cases side <;> rfl

@[simp] theorem dimensionFields_unranked :
    (table.unranked unranking).dimensionFields = table.dimensionFields := by
  simp only [dimensionFields, unranked, Axis.fields_unranked]

private theorem queryFilter_unranked (narrow : List Filter) :
    (table.unranked unranking).queryFilter narrow = table.queryFilter narrow := by
  simp only [queryFilter, guards, dimensionFields_unranked]
  rfl

theorem counts_unranked : (table.unranked unranking).counts = table.counts := by
  funext row
  simp only [counts, dimensionFields_unranked]
  rfl

private theorem cellMeasures_unranked (rowBranch colBranch : List Node) :
    (table.unranked unranking).cellMeasures (rowBranch.map (unranking .rows).node)
      (colBranch.map (unranking .cols).node) = table.cellMeasures rowBranch colBranch := by
  simp only [cellMeasures, unranked, Axis.branchMeasures_unranked]
  rfl

variable {unranking table}

theorem mem_branches_unranked {side : Side} {branch' : List Node} :
    branch' ∈ ((table.unranked unranking).axis side).branches ↔
      ∃ branch ∈ (table.axis side).branches, branch.map (unranking side).node = branch' := by
  rw [axis_unranked, Axis.branches_unranked, mem_map]

private theorem rankingRequest_unranked {side : Side} {visit : Visit Node}
    (kept : (unranking side).node visit.node = visit.node) :
    (table.unranked unranking).rankingRequest (visit.map (unranking side).node) =
      table.rankingRequest visit := by
  simp only [rankingRequest, Visit.map, Visit.scope, Unranking.fieldsOf_map, queryFilter_unranked, kept]

private theorem validate_unranked (valid : table.validate = .ok ()) :
    (table.unranked unranking).validate = .ok () := by
  obtain ⟨unrepeated, apart, ranked⟩ := validate_eq_ok valid
  have branches (side : Side) : (table.unranked unranking).repeatedBranch? side = none := by
    refine (repeatedBranch?_of_map (unranking side).fieldsOf_map ?_).trans (unrepeated side)
    rw [axis_unranked, Axis.branches_unranked]
  have shared : (table.unranked unranking).sharedFields = [] := by
    simpa only [sharedFields, unranked, Axis.fields_unranked] using apart
  have forced : ∀ entry ∈ (table.unranked unranking).pendingVisits,
      (table.unranked unranking).forcedNull? entry.2.node = none := by
    rintro ⟨side, visit'⟩ member
    rw [mem_pendingVisits, axis_unranked] at member
    obtain ⟨visit, pending, rfl, kept⟩ := Axis.exists_of_mem_pendingVisits_unranked member
    rw [Visit.map, kept]
    exact ranked (side, visit) (mem_pendingVisits.mpr pending)
  exact validate_of_sound branches shared forced

end Table

open Table

/-! ### Requests -/

/-- Requests for the same aggregates of the same grouping, each under conditions of its own. -/
structure QueryRequest.SameGrouping (a b : QueryRequest) : Prop where
  fields : b.fields = a.fields
  aggregates : b.aggregates = a.aggregates

private theorem Table.rankingRequests_unranked_subset (unranking : Side → Unranking) (table : Table) :
    (table.unranked unranking).rankingRequests ⊆ table.rankingRequests := by
  intro request member
  obtain ⟨⟨side, visit'⟩, pending, rfl⟩ := mem_map.mp member
  rw [mem_pendingVisits, axis_unranked] at pending
  obtain ⟨visit, ranked, rfl, kept⟩ := Axis.exists_of_mem_pendingVisits_unranked pending
  rw [rankingRequest_unranked kept]
  exact mem_map.mpr ⟨(side, visit), mem_pendingVisits.mpr ranked, rfl⟩

namespace ResolvedTable

variable {resolved resolved' : ResolvedTable} {unranking : Side → Unranking}

theorem crossesAlike_unranked (table : resolved'.table = resolved.table.unranked unranking)
    (rowBranch colBranch : List Node) : CrossesAlike QueryRequest.SameGrouping id resolved resolved'
      rowBranch colBranch (rowBranch.map (unranking .rows).node)
      (colBranch.map (unranking .cols).node) where
  base _ := rfl
  format _ := rfl
  measures := by rw [table, cellMeasures_unranked, map_id]
  cell := by
    constructor
    · simp only [cellRequest, Unranking.fieldsOf_map]
    · simp only [cellRequest, table, cellMeasures_unranked]
  denominator measure := by
    unfold denominatorRequest
    rw [id]
    cases measure.across with
    | none => exact .none
    | some side => cases side <;> exact .some ⟨Unranking.fieldsOf_map _ _, rfl⟩

/-- Every request of the plan was one before, but for its conditions. -/
theorem exists_sameGrouping (table : resolved'.table = resolved.table.unranked unranking)
    {request' : QueryRequest} (member : request' ∈ resolved'.requests) :
    ∃ request ∈ resolved.requests, request.SameGrouping request' := by
  obtain ⟨rowBranch', inRows', colBranch', inCols', asked⟩ := mem_requests.mp member
  have before {side : Side} {branch' : List Node}
      (inside : branch' ∈ (resolved'.table.axis side).branches) :=
    mem_branches_unranked.mp (table ▸ inside)
  obtain ⟨rowBranch, inRows, rfl⟩ := @before .rows _ inRows'
  obtain ⟨colBranch, inCols, rfl⟩ := @before .cols _ inCols'
  obtain ⟨request, within, same⟩ :=
    (crossesAlike_unranked table rowBranch colBranch).exists_request asked
  exact ⟨request, mem_requests.mpr ⟨rowBranch, inRows, colBranch, inCols, within⟩, same⟩

end ResolvedTable

/-! ### The way to the plan -/

namespace Tabulation

variable {schema : Schema} {settings : Settings} {statement : Statement} {source : List Row}
  {t : Tabulation schema settings statement source} {unranking : Side → Unranking}

/-- The plan of the same table without some of its rankings, answered from the same rows. -/
structure PlainPlan (t : Tabulation schema settings statement source) (unranking : Side → Unranking)
    (resolved : ResolvedTable) (plan : QueryPlan) (results : Results) : Prop where
  table : resolved.table = t.table.unranked unranking
  wellFormed : resolved.table.WellFormed schema
  /-- Members stay fixed for the nodes that are still ranked. -/
  selection? : ∀ side, ∀ node ∈ (t.table.axis side).forest.walk,
    resolved.selection? side node.id =
      if ((unranking side).node node).isPending then t.resolved.selection? side node.id else none
  planned : resolved.plan = .ok plan
  stage : AnsweredFrom source (source.filter t.table.counts) resolved.requests plan.mainQueries
    results

variable {discovery : DiscoveryPlan} {found : Results} {side : Side} {resolved : ResolvedTable}

private theorem exists_explores_unranked (asked : t.AnsweredAsAsked)
    (wellFormed : (t.table.unranked unranking).WellFormed schema) :
    ∃ discovery found, t.Explores (t.table.unranked unranking) discovery found := by
  obtain ⟨valid, answers, _⟩ := discover_eq_ok t.discovered
  have stillValid : (t.table.unranked unranking).validate = .ok () := validate_unranked valid
  obtain ⟨discovery, discovered⟩ := exists_discover stillValid
  obtain ⟨_, answers', _⟩ := discover_eq_ok discovered
  have fewer := rankingRequests_unranked_subset unranking t.table
  obtain ⟨found, stage⟩ := asked.rankingStage.exists_of_covered answers'
    (asked.rankingKeys.of_subset fewer)
    (answers.columns_of_covered asked.rankingKeys asked.rankingColumns answers' id
      (fun request member => ⟨fewer member, rfl, Subset.refl _⟩) fun _ _ _ _ same => same)
    (fun request member => asked.rankingStage.selects request (fewer member))
    (fun request member => ⟨request, fewer member, rfl, Subset.refl _⟩)
  exact ⟨discovery, found, wellFormed, discovered, stage⟩

section

variable (asked : t.AnsweredAsAsked)
  (explores : t.Explores (t.table.unranked unranking) discovery found)

include asked explores

theorem resolveNode_unranked {visit : Visit Node}
    (pending : visit ∈ (t.table.axis side).pendingVisits)
    (kept : (unranking side).node visit.node = visit.node) :
    visit.map (unranking side).node ∈ ((t.table.unranked unranking).axis side).pendingVisits ∧
      Table.resolveNode side discovery found (visit.map (unranking side).node) =
        Table.resolveNode side t.discovery t.found visit := by
  obtain ⟨visited, ranked⟩ := mem_filter.mp pending
  have pending' : visit.map (unranking side).node ∈
      ((t.table.unranked unranking).axis side).pendingVisits := by
    rw [axis_unranked, Axis.pendingVisits_unranked]
    exact mem_map_of_mem (mem_filter.mpr ⟨visited, by rw [kept]; exact ranked⟩)
  exact ⟨pending', explores.resolveNode_eq asked pending pending' (by rw [Visit.map, kept])
    (by rw [Visit.map, kept]) (Unranking.fieldsOf_map _ _)⟩

/-- Nodes that are not ranked any more have no fixed members, and the others those from before. -/
theorem selection?_unranked
    (fixed : (t.table.unranked unranking).resolve discovery found = .ok resolved) {node : Node}
    (inside : node ∈ (t.table.axis side).forest.walk) :
    resolved.selection? side node.id =
      if ((unranking side).node node).isPending then t.resolved.selection? side node.id
      else none := by
  split
  next ranked =>
    have kept := ((unranking side).unranks node).eq_of_isPending ranked
    rw [← Forest.map_node_visits (t.table.axis side).forest []] at inside
    obtain ⟨visit, visited, rfl⟩ := mem_map.mp inside
    have pending : visit ∈ (t.table.axis side).pendingVisits :=
      mem_filter.mpr ⟨visited, kept ▸ ranked⟩
    obtain ⟨pending', same⟩ := resolveNode_unranked asked explores pending kept
    obtain ⟨selection, known, made⟩ :=
      exists_selection? (wellFormed_of_compile t.compiled) t.fixed pending
    obtain ⟨selection', known', made'⟩ := exists_selection? explores.wellFormed fixed pending'
    rw [same, made] at made'
    cases made'
    rw [Visit.map, kept] at known'
    rw [known, known']
  next text =>
    rw [← Option.not_isSome_iff_eq_none, Option.isSome_iff_exists]
    rintro ⟨selection, known⟩
    have inside' : (unranking side).node node ∈
        ((t.table.unranked unranking).axis side).forest.walk := by
      rw [axis_unranked, Axis.unranked, Forest.walk_map]
      exact mem_map_of_mem inside
    rw [← (unranking side).id_node] at known
    obtain ⟨visit, pending, same, _⟩ := visit_of_selection? explores.wellFormed fixed inside' known
    exact text (same ▸ (mem_filter.mp pending).2)

/-- The nodes that are still ranked were resolved before, so the table is resolved. -/
theorem exists_resolve_unranked :
    ∃ resolved, (t.table.unranked unranking).resolve discovery found = .ok resolved := by
  refine exists_resolve_of_each fun side visit' member => ?_
  rw [axis_unranked] at member
  obtain ⟨visit, pending, rfl, kept⟩ := Axis.exists_of_mem_pendingVisits_unranked member
  obtain ⟨selection, _, made⟩ :=
    exists_selection? (wellFormed_of_compile t.compiled) t.fixed pending
  rw [← (resolveNode_unranked asked explores pending kept).2] at made
  exact ⟨selection, made⟩

end

/-- Its conditions are among those from before, which keep all rows that count. -/
theorem keepsAll_unranked (asked : t.AnsweredAsAsked) (unlimited : t.table.RanksUnlimited)
    (table : resolved.table = t.table.unranked unranking)
    (selections : ∀ side, ∀ node ∈ (t.table.axis side).forest.walk,
      resolved.selection? side node.id = if ((unranking side).node node).isPending
        then t.resolved.selection? side node.id else none) :
    resolved.KeepsAll source := by
  intro side branch' inside' filter stated row listed counted
  rw [table] at inside'
  obtain ⟨branch, inside, rfl⟩ := mem_branches_unranked.mp inside'
  obtain ⟨node', along', made⟩ := mem_filterMap.mp stated
  obtain ⟨node, along, rfl⟩ := mem_map.mp along'
  obtain ⟨selection, known, rfl⟩ := Option.map_eq_some_iff.mp made
  rw [Unranking.id_node, selections side node (Axis.mem_walk_of_mem_branch inside along)] at known
  split at known
  · refine asked.keepsAll unlimited side branch (t.resolved_table ▸ inside) _ ?_ row listed ?_
    · exact mem_filterMap.mpr ⟨node, along, by rw [known]; rfl⟩
    · rw [t.resolved_table]
      rwa [table, counts_unranked] at counted
  · cases known

/-- Without some of its rankings the table is planned too, and the plan is answered from the same
rows. -/
theorem exists_plainPlan (asked : t.AnsweredAsAsked) (unlimited : t.table.RanksUnlimited)
    {plain : Statement}
    (compiled : Table.compile schema settings.includeNulls plain = .ok (t.table.unranked unranking))
    (faithful : plain.PlansFaithfully schema settings source) :
    ∃ discovery found resolved plan results,
      plain.Plans schema settings source (t.table.unranked unranking) discovery found resolved plan ∧
        t.PlainPlan unranking resolved plan results := by
  have wellFormed := wellFormed_of_compile compiled
  obtain ⟨discovery, found, explores⟩ := exists_explores_unranked asked wellFormed
  obtain ⟨resolved, fixed⟩ := exists_resolve_unranked asked explores
  obtain ⟨table, _, _⟩ := resolve_eq_ok fixed
  have selections (side : Side) (node : Node) (inside : node ∈ (t.table.axis side).forest.walk) :=
    selection?_unranked asked explores fixed inside
  obtain ⟨_, discovered, stage⟩ := explores
  obtain ⟨plan, planned⟩ := exists_plan discovered fixed
  have plans : plain.Plans schema settings source _ discovery found resolved plan :=
    ⟨compiled, discovered, stage.answered, fixed, planned⟩
  obtain ⟨keys, columns⟩ := faithful _ _ _ _ _ plans
  -- Every request selects the rows that count, and was one before but for its conditions.
  have selects : ∀ request ∈ resolved.requests,
      Source.matching request.filter source = .ok (source.filter t.table.counts) := by
    intro request member
    have evaluated : ∀ row ∈ source, ∃ truth,
        Filter.passes resolved.table.filter row = .ok truth := by
      rw [table]
      exact t.filter_evaluated
    have selected := (keepsAll_unranked asked unlimited table selections).selects evaluated member
    rwa [table, counts_unranked] at selected
  obtain ⟨results, mainStage⟩ := (asked.mainStage unlimited).exists_of_covered
    (ResolvedTable.plan_eq_ok planned).2.2.2.1 keys columns selects (by
      intro request' member
      obtain ⟨request, requested, same⟩ :=
        ResolvedTable.exists_sameGrouping (t.resolved_table.symm ▸ table) member
      refine ⟨request, requested, by rw [same.fields], ?_⟩
      rw [same.aggregates]
      exact Subset.refl _)
  exact ⟨discovery, found, resolved, plan, results, plans, table, table ▸ wellFormed, selections,
    planned, mainStage⟩

end Tabulation

end Crosstab
