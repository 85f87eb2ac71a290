import Crosstab.Proofs.Plan.Faithful
import Crosstab.Proofs.Plan.ShownMeasures
import Crosstab.Proofs.Transposition.Statement

/-!
# Plans with rows and columns exchanged

With its sides exchanged a table asks for the same groupings of the same rows; the conditions of a
request only change their order.
-/
namespace Crosstab

open List Node

/-! ### Axes -/

theorem Node.recasts_renamed (newName : String → String) : Recasts (renamed newName) :=
  ⟨fun _ => rfl, fun _ => rfl, fun _ => rfl⟩

theorem fieldsOf_renamed (newName : String → String) (nodes : List Node) :
    fieldsOf (nodes.map (renamed newName)) = fieldsOf nodes :=
  fieldsOf_map_of_field? (recasts_renamed newName).field?_eq nodes

namespace Axis

variable (newName : String → String) (axis : Axis)

theorem branches_renamed :
    (axis.renamed newName).branches = axis.branches.map (map (Node.renamed newName)) :=
  branches_of_map rfl

theorem pendingVisits_renamed : (axis.renamed newName).pendingVisits =
    axis.pendingVisits.map (Visit.map (Node.renamed newName)) := by
  rw [pendingVisits, visits_of_map rfl, filter_map]
  rfl

theorem fields_renamed : (axis.renamed newName).fields = axis.fields :=
  fields_of_map rfl (recasts_renamed newName).field?_eq

private theorem branchMeasures_renamed (branch : List Node) :
    (axis.renamed newName).branchMeasures (branch.map (Node.renamed newName)) =
      (axis.branchMeasures branch).map newName :=
  branchMeasures_of_map rfl (fun _ => rfl) branch

end Axis

/-! ### Tables -/

private theorem eraseDups_map {newName : String → String} (injective : Function.Injective newName)
    (names : List String) : (names.map newName).eraseDups = names.eraseDups.map newName := by
  induction names using reverseRecOn with
  | nil => rfl
  | append_singleton names name ih =>
    rw [map_append, map_singleton, eraseDups_concat, eraseDups_concat, ih,
      contains_map_of_injective injective]
    split
    · rfl
    · rw [map_append, map_singleton]

namespace Table

variable (newName : String → String) (table : Table)

theorem axis_turned (side : Side) :
    (table.turned newName).axis side = (table.axis side.other).renamed newName := by
  cases side <;> rfl

private theorem mem_dimensionFields_iff {field : String} :
    field ∈ table.dimensionFields ↔ field ∈ table.rows.fields ∨ field ∈ table.cols.fields := by
  unfold dimensionFields
  by_cases shared : field ∈ table.rows.fields <;> simp [shared]

private theorem mem_dimensionFields_turned {field : String} :
    field ∈ (table.turned newName).dimensionFields ↔ field ∈ table.dimensionFields := by
  rw [mem_dimensionFields_iff, mem_dimensionFields_iff, turned, Axis.fields_renamed,
    Axis.fields_renamed, or_comm]

theorem counts_turned : (table.turned newName).counts = table.counts := by
  funext row
  unfold counts
  have guarded : ((table.turned newName).dimensionFields.all fun field => !(row.get field).isNull) =
      table.dimensionFields.all fun field => !(row.get field).isNull := by
    rw [Bool.eq_iff_iff, all_eq_true, all_eq_true]
    exact forall_congr' fun field => by rw [mem_dimensionFields_turned]
  rw [guarded]
  rfl

variable {newName table}

theorem mem_branches_turned {side : Side} {branch' : List Node} :
    branch' ∈ ((table.turned newName).axis side).branches ↔
      ∃ branch ∈ (table.axis side.other).branches, branch.map (renamed newName) = branch' := by
  rw [axis_turned, Axis.branches_renamed, mem_map]

private theorem measure?_turned (injective : Function.Injective newName) (name : String) :
    (table.turned newName).measure? (newName name) =
      (table.measure? name).map (Measure.turned newName) := by
  unfold measure? turned
  rw [find?_map]
  have named : ((fun measure : Measure => measure.name == newName name) ∘
      Measure.turned newName) = fun measure => measure.name == name := by
    funext measure
    rw [Function.comp_apply, Measure.turned, Bool.eq_iff_iff, beq_iff_eq, beq_iff_eq,
      injective.eq_iff]
  rw [named]

/-- No measure is bound on one of the sides. -/
def BoundOneSide (table : Table) : Prop :=
  ∃ side, ∀ branch ∈ (table.axis side).branches, (table.axis side).branchMeasures branch = []

theorem boundOneSide_of_compile {schema : Schema} {includeNulls : Value} {statement : Statement}
    (oneSided : statement.BindsOneSide)
    (compiled : Table.compile schema includeNulls statement = .ok table) : table.BoundOneSide := by
  obtain ⟨side, unbound⟩ := oneSided
  exact ⟨side, fun branch along => branchMeasures_eq_nil_of_compile compiled side unbound along⟩

/-- Where all measures are bound on one side, every crossing shows the same measures. -/
theorem BoundOneSide.cellMeasures_turned (injective : Function.Injective newName)
    (oneSided : table.BoundOneSide) {rowBranch colBranch : List Node}
    (alongRow : rowBranch ∈ table.rows.branches) (alongCol : colBranch ∈ table.cols.branches) :
    (table.turned newName).cellMeasures (colBranch.map (Node.renamed newName))
        (rowBranch.map (Node.renamed newName)) =
      (table.cellMeasures rowBranch colBranch).map (Measure.turned newName) := by
  -- The measures of the rows come first, which makes no difference if there are none on one side.
  have order : table.cols.branchMeasures colBranch ++ table.rows.branchMeasures rowBranch =
      table.rows.branchMeasures rowBranch ++ table.cols.branchMeasures colBranch := by
    obtain ⟨side, unbound⟩ := oneSided
    cases side with
    | rows =>
      have none : table.rows.branchMeasures rowBranch = [] := unbound rowBranch alongRow
      rw [none, append_nil, nil_append]
    | cols =>
      have none : table.cols.branchMeasures colBranch = [] := unbound colBranch alongCol
      rw [none, append_nil, nil_append]
  have names : (table.turned newName).rows.branchMeasures (colBranch.map (Node.renamed newName)) ++
      (table.turned newName).cols.branchMeasures (rowBranch.map (Node.renamed newName)) =
        (table.rows.branchMeasures rowBranch ++ table.cols.branchMeasures colBranch).map newName := by
    rw [← order, map_append]
    exact congrArg₂ _ (Axis.branchMeasures_renamed ..) (Axis.branchMeasures_renamed ..)
  unfold cellMeasures
  simp only [names, isEmpty_map]
  split
  · rfl
  · rw [eraseDups_map injective, filterMap_map, map_filterMap]
    exact filterMap_congr fun name _ => measure?_turned injective name

/-! ### Rankings -/

theorem mem_pendingVisits_turned {side : Side} {visit' : Visit Node} :
    (side, visit') ∈ (table.turned newName).pendingVisits ↔
      ∃ visit, (side.other, visit) ∈ table.pendingVisits ∧
        visit.map (Node.renamed newName) = visit' := by
  simp only [mem_pendingVisits, axis_turned, Axis.pendingVisits_renamed, mem_map]

/-- Members are ranked by the same requests, under conditions in another order. -/
theorem rankingRequest_turned (visit : Visit Node) :
    (table.turned newName).rankingRequest (visit.map (renamed newName)) =
      { table.rankingRequest visit with filter := (table.turned newName).queryFilter [] } := by
  simp only [rankingRequest, Visit.map, Visit.scope, fieldsOf_renamed]
  rfl

private theorem mem_rankingRequests_turned {request' : QueryRequest} :
    request' ∈ (table.turned newName).rankingRequests ↔
      ∃ request ∈ table.rankingRequests,
        { request with filter := (table.turned newName).queryFilter [] } = request' := by
  constructor
  · intro member
    obtain ⟨⟨side, visit'⟩, pending, rfl⟩ := mem_map.mp member
    obtain ⟨visit, ranked, rfl⟩ := mem_pendingVisits_turned.mp pending
    exact ⟨_, mem_map.mpr ⟨(side.other, visit), ranked, rfl⟩, (rankingRequest_turned visit).symm⟩
  · rintro ⟨request, member, rfl⟩
    obtain ⟨⟨side, visit⟩, ranked, rfl⟩ := mem_map.mp member
    rw [← rankingRequest_turned visit]
    refine mem_map.mpr ⟨(side.other, visit.map (renamed newName)), ?_, rfl⟩
    exact mem_pendingVisits_turned.mpr ⟨visit, by rwa [Side.other_other], rfl⟩

private theorem validate_turned (valid : table.validate = .ok ()) :
    (table.turned newName).validate = .ok () := by
  obtain ⟨unrepeated, apart, ranked⟩ := validate_eq_ok valid
  apply validate_of_sound
  · intro side
    refine (repeatedBranch?_of_map (fieldsOf_renamed newName) ?_).trans (unrepeated side.other)
    rw [axis_turned, Axis.branches_renamed]
  · rw [sharedFields, sortedTexts_eq_nil, filter_eq_nil_iff] at apart ⊢
    simp only [turned, Axis.fields_renamed, contains_iff_mem] at apart ⊢
    exact fun field inCols inRows => apart field inRows inCols
  · rintro ⟨side, visit'⟩ member
    obtain ⟨visit, pending, rfl⟩ := mem_pendingVisits_turned.mp member
    exact ranked (side.other, visit) pending

end Table

open Table Source Outcome Crosstab.Filter

/-! ### Requests -/

/-- Requests for the same aggregates of one grouping of the same rows of a source. -/
structure QueryRequest.AsksSame (source : List Row) (a b : QueryRequest) : Prop where
  fields : sortedTexts b.fields = sortedTexts a.fields
  aggregates : b.aggregates = a.aggregates
  selects : ∃ selected, matching a.filter source = .ok selected ∧
    matching b.filter source = .ok selected

private theorem QueryRequest.AsksSame.covers {source : List Row} {a b : QueryRequest}
    (same : a.AsksSame source b) : a.Covers source b where
  fields := same.fields.symm
  aggregates := same.aggregates ▸ Subset.refl _
  selects := same.selects

namespace Table

variable {newName : String → String} {table : Table} {source : List Row}

private theorem exists_matching_turned
    (evaluated : ∀ row ∈ source, ∃ truth, passes table.filter row = .ok truth)
    {narrow narrow' : List Filter}
    (answered : ∀ filter ∈ narrow, ∀ row, ∃ truth, holds row filter = .ok truth)
    (same : ∀ filter, filter ∈ narrow' ↔ filter ∈ narrow) :
    ∃ selected, matching (table.queryFilter narrow) source = .ok selected ∧
      matching ((table.turned newName).queryFilter narrow') source = .ok selected := by
  have answered' : ∀ filter ∈ narrow', ∀ row, ∃ truth, holds row filter = .ok truth :=
    fun filter member => answered filter ((same filter).mp member)
  have evaluated' : ∀ row ∈ source, ∃ truth,
      passes (table.turned newName).filter row = .ok truth := evaluated
  refine ⟨_, filterM_of_answered (exists_passes_queryFilter evaluated answered), ?_⟩
  rw [matching, filterM_of_answered (exists_passes_queryFilter evaluated' answered')]
  congr 1
  refine filter_congr fun row _ => ?_
  rw [Bool.eq_iff_iff, passes_queryFilter_iff, passes_queryFilter_iff, counts_turned]
  exact and_congr_right fun _ => forall_congr' fun filter => by rw [same]

/-- Requests under one filter are told apart by their fields alone. -/
theorem key_congr_of_filter {a b : QueryRequest} {filter : Option Filter} (first : a.filter = filter)
    (second : b.filter = filter) (same : a.key = b.key) (filter' : Option Filter) :
    ({ a with filter := filter' } : QueryRequest).key =
      ({ b with filter := filter' } : QueryRequest).key := by
  unfold QueryRequest.key GroupingQuery.keyFor at same ⊢
  rw [first, second, String.append_left_inj] at same
  rw [same]

end Table

/-! ### Discovery -/

namespace Tabulation

variable {schema : Schema} {settings : Settings} {statement : Statement} {source : List Row}
  {t : Tabulation schema settings statement source}

/-- Discovery asks for the same groupings, and finds answers for them. -/
theorem exists_explores_turned (asked : t.AnsweredAsAsked) {newName : String → String}
    (wellFormed : (t.table.turned newName).WellFormed schema) :
    ∃ discovery found, t.Explores (t.table.turned newName) discovery found := by
  obtain ⟨valid, answers, _⟩ := discover_eq_ok t.discovered
  obtain ⟨discovery, discovered⟩ := exists_discover (validate_turned valid)
  obtain ⟨_, answers', _⟩ := discover_eq_ok discovered
  -- Every request stands for the one with the conditions in their former order.
  let cover (request : QueryRequest) : QueryRequest :=
    { request with filter := t.table.queryFilter [] }
  have requested : ∀ request' ∈ (t.table.turned newName).rankingRequests,
      request'.filter = (t.table.turned newName).queryFilter [] ∧
        cover request' ∈ t.table.rankingRequests := by
    intro request' member
    obtain ⟨request, listed, rfl⟩ := mem_rankingRequests_turned.mp member
    obtain ⟨_, _, rfl⟩ := mem_map.mp listed
    exact ⟨rfl, listed⟩
  have keys : ∀ a ∈ (t.table.turned newName).rankingRequests,
      ∀ b ∈ (t.table.turned newName).rankingRequests, a.key = b.key →
        (cover a).key = (cover b).key := fun a first b second same =>
    key_congr_of_filter (requested a first).1 (requested b second).1 same _
  have faithful : FaithfulKeys (t.table.turned newName).rankingRequests source := by
    intro a first b second same
    refine ⟨(asked.rankingKeys _ (requested a first).2 _ (requested b second).2
      (keys a first b second same)).1, fun row _ => ?_⟩
    rw [(requested a first).1, (requested b second).1]
  have evaluated : ∀ row ∈ source, ∃ truth,
      passes (t.table.turned newName).filter row = .ok truth := t.filter_evaluated
  obtain ⟨found, stage⟩ := asked.rankingStage.exists_of_covered answers' faithful
    (answers.columns_of_covered asked.rankingKeys asked.rankingColumns answers' cover
      (fun request member => ⟨(requested request member).2, rfl, Subset.refl _⟩) keys)
    (fun request member => by
      rw [(requested request member).1, ← counts_turned newName]
      exact matching_queryFilter evaluated (by simp) (by simp))
    (fun request member => ⟨cover request, (requested request member).2, rfl, Subset.refl _⟩)
  exact ⟨discovery, found, wellFormed, discovered, stage⟩

/-- The nodes of both sides have the members that they had on the other side. -/
theorem exists_resolve_turned (asked : t.AnsweredAsAsked) {newName : String → String}
    {discovery : DiscoveryPlan} {found : Results}
    (explores : t.Explores (t.table.turned newName) discovery found) :
    ∃ resolved, (t.table.turned newName).resolve discovery found = .ok resolved ∧
      ∀ side, resolved.selections side = t.resolved.selections side.other := by
  have each (side : Side) : ((t.table.turned newName).axis side).pendingVisits.mapM
      (Table.resolveNode side discovery found) = .ok (t.resolved.selections side.other) := by
    have made := mapM_eq_ok.mp ((resolve_eq_ok t.fixed).2.2 side.other)
    rw [axis_turned, Axis.pendingVisits_renamed, mapM_eq_ok, forall₂_map_left_iff]
    refine ((forall₂_and_left _ _).mpr ⟨fun _ member => member, made⟩).imp ?_
    rintro visit selection ⟨pending, made⟩
    have pending' : visit.map (renamed newName) ∈
        ((t.table.turned newName).axis side).pendingVisits := by
      rw [axis_turned, Axis.pendingVisits_renamed]
      exact mem_map_of_mem pending
    rw [← made]
    exact explores.resolveNode_eq asked pending pending' rfl rfl (fieldsOf_renamed _ _)
  refine ⟨⟨_, t.resolved.colMembers, t.resolved.rowMembers, discovery.queries⟩,
    bind_eq_ok.mpr ⟨_, each .rows, bind_eq_ok.mpr ⟨_, each .cols, rfl⟩⟩, ?_⟩
  intro side
  cases side <;> rfl

end Tabulation

/-! ### Requests of the plan -/

namespace ResolvedTable

/-- The resolved table with its sides exchanged. -/
structure Turns (newName : String → String) (resolved resolved' : ResolvedTable) : Prop where
  table : resolved'.table = resolved.table.turned newName
  selections : ∀ side, resolved'.selections side = resolved.selections side.other

namespace Turns

variable {newName : String → String} {resolved resolved' : ResolvedTable} {source : List Row}

theorem selection?_eq (turns : Turns newName resolved resolved') (side : Side) (id : Nat) :
    resolved'.selection? side id = resolved.selection? side.other id := by
  rw [selection?, selection?, turns.selections]

theorem memberFilters_eq (turns : Turns newName resolved resolved') (side : Side)
    (branch : List Node) :
    resolved'.memberFilters side (branch.map (renamed newName)) =
      resolved.memberFilters side.other branch := by
  unfold memberFilters
  rw [filterMap_map]
  refine filterMap_congr fun node _ => ?_
  rw [Function.comp_apply, turns.selection?_eq]
  rfl

variable (turns : Turns newName resolved resolved') (injective : Function.Injective newName)
  (oneSided : resolved.table.BoundOneSide)
  (evaluated : ∀ row ∈ source, ∃ truth, passes resolved.table.filter row = .ok truth)
  {rowBranch colBranch : List Node}

include turns evaluated

/-- Under the members that were fixed along some branches the same rows are selected. -/
theorem exists_matching {narrow narrow' : List Filter}
    (fixed : ∀ filter ∈ narrow, ∃ side branch, filter ∈ resolved.memberFilters side branch)
    (same : ∀ filter, filter ∈ narrow' ↔ filter ∈ narrow) :
    ∃ selected, matching (resolved.table.queryFilter narrow) source = .ok selected ∧
      matching (resolved'.table.queryFilter narrow') source = .ok selected := by
  rw [turns.table]
  refine exists_matching_turned evaluated (fun filter member row => ?_) same
  obtain ⟨side, branch, stated⟩ := fixed filter member
  exact exists_holds_of_mem_memberFilters stated row

/-- The denominator of a share is taken over the rows of the side that it kept before. -/
theorem asksSame_denominatorRequest (measure : Measure) :
    Option.Rel (QueryRequest.AsksSame source)
      (resolved.denominatorRequest rowBranch colBranch measure)
      (resolved'.denominatorRequest (colBranch.map (renamed newName))
        (rowBranch.map (renamed newName)) (measure.turned newName)) := by
  unfold denominatorRequest
  rw [Measure.turned]
  cases measure.across with
  | none => exact .none
  | some side =>
    cases side with
    | rows | cols =>
      refine .some ⟨congrArg sortedTexts (fieldsOf_renamed _ _), rfl, ?_⟩
      refine turns.exists_matching evaluated (fun filter member => ⟨_, _, member⟩) fun filter => ?_
      rw [turns.memberFilters_eq]
      rfl

include injective oneSided

section

variable (alongRow : rowBranch ∈ resolved.table.rows.branches)
  (alongCol : colBranch ∈ resolved.table.cols.branches)
include alongRow alongCol

omit evaluated in
theorem cellMeasures_eq :
    resolved'.table.cellMeasures (colBranch.map (renamed newName))
        (rowBranch.map (renamed newName)) =
      (resolved.table.cellMeasures rowBranch colBranch).map (Measure.turned newName) := by
  rw [turns.table]
  exact oneSided.cellMeasures_turned injective alongRow alongCol

/-- Every crossing asks for the same aggregates of the same groups. -/
theorem asksSame_cellRequest :
    (resolved.cellRequest rowBranch colBranch).AsksSame source
      (resolved'.cellRequest (colBranch.map (renamed newName))
        (rowBranch.map (renamed newName))) where
  fields := by
    refine sortedTexts_congr fun field => ?_
    simp only [cellRequest, fieldsOf_renamed, mem_append]
    exact or_comm
  aggregates := by
    simp only [cellRequest, turns.cellMeasures_eq injective oneSided alongRow alongCol, map_map]
    rfl
  selects := by
    refine turns.exists_matching evaluated (fun filter member => ?_) fun filter => ?_
    · rcases mem_append.mp member with ofRow | ofCol
      · exact ⟨_, _, ofRow⟩
      · exact ⟨_, _, ofCol⟩
    · rw [turns.memberFilters_eq, turns.memberFilters_eq, mem_append, mem_append]
      exact or_comm

theorem crossesAlike :
    CrossesAlike (QueryRequest.AsksSame source) (Measure.turned newName) resolved resolved' rowBranch
      colBranch (colBranch.map (renamed newName)) (rowBranch.map (renamed newName)) where
  base _ := rfl
  format _ := rfl
  measures := turns.cellMeasures_eq injective oneSided alongRow alongCol
  cell := turns.asksSame_cellRequest injective oneSided evaluated alongRow alongCol
  denominator := turns.asksSame_denominatorRequest evaluated

end

private theorem exists_asksSame {request' : QueryRequest} (member : request' ∈ resolved'.requests) :
    ∃ request ∈ resolved.requests, request.AsksSame source request' := by
  obtain ⟨rowBranch', inRows', colBranch', inCols', within⟩ := mem_requests.mp member
  have before {side : Side} {branch' : List Node}
      (inside : branch' ∈ (resolved'.table.axis side).branches) :=
    mem_branches_turned.mp (turns.table ▸ inside)
  obtain ⟨colBranch, inCols, rfl⟩ := @before .rows _ inRows'
  obtain ⟨rowBranch, inRows, rfl⟩ := @before .cols _ inCols'
  obtain ⟨request, asked, same⟩ :=
    (turns.crossesAlike injective oneSided evaluated inRows inCols).exists_request within
  exact ⟨request, mem_requests.mpr ⟨rowBranch, inRows, colBranch, inCols, asked⟩, same⟩

end Turns

end ResolvedTable

/-! ### The plan -/

namespace Tabulation

variable {schema : Schema} {settings : Settings} {statement : Statement} {source : List Row}
  {t : Tabulation schema settings statement source}

/-- The plan of the same table with its sides exchanged, and the answers to it. -/
structure TurnedPlan (t : Tabulation schema settings statement source)
    (newName : Equiv.Perm String) (resolved : ResolvedTable) (plan : QueryPlan) (results : Results) :
    Prop where
  turns : t.resolved.Turns newName resolved
  oneSided : t.resolved.table.BoundOneSide
  wellFormed : resolved.table.WellFormed schema
  planned : resolved.plan = .ok plan
  stage : AnsweredBy source resolved.requests plan.mainQueries results

/-- With its sides exchanged the table is planned too, and the plan is answered. -/
theorem exists_turnedPlan (asked : t.AnsweredAsAsked) {transposed : Statement}
    {newName : Equiv.Perm String} (oneSided : t.table.BoundOneSide)
    (compiled : Table.compile schema settings.includeNulls transposed =
      .ok (t.table.turned newName)) (faithful : transposed.PlansFaithfully schema settings source) :
    ∃ discovery found resolved plan results,
      transposed.Plans schema settings source (t.table.turned newName) discovery found resolved plan ∧
        t.TurnedPlan newName resolved plan results := by
  have wellFormed := wellFormed_of_compile compiled
  obtain ⟨discovery, found, explores⟩ := exists_explores_turned asked wellFormed
  obtain ⟨resolved, fixed, selections⟩ := exists_resolve_turned asked explores
  obtain ⟨_, discovered, stage⟩ := explores
  obtain ⟨table, _, _⟩ := resolve_eq_ok fixed
  obtain ⟨plan, planned⟩ := exists_plan discovered fixed
  have plans : transposed.Plans schema settings source _ discovery found resolved plan :=
    ⟨compiled, discovered, stage.answered, fixed, planned⟩
  obtain ⟨keys, columns⟩ := faithful _ _ _ _ _ plans
  have turns : t.resolved.Turns newName resolved := ⟨by rw [t.resolved_table, table], selections⟩
  rw [← t.resolved_table] at oneSided
  obtain ⟨results, answered⟩ := asked.answeredBy.exists_of_covered
    (ResolvedTable.plan_eq_ok planned).2.2.2.1 keys columns (by
      intro request' member
      obtain ⟨request, requested, same⟩ :=
        turns.exists_asksSame newName.injective oneSided t.resolved_filter_evaluated member
      exact ⟨request, requested, same.covers⟩)
  exact ⟨discovery, found, resolved, plan, results, plans, turns, oneSided, table ▸ wellFormed,
    planned, answered⟩

end Tabulation

end Crosstab
