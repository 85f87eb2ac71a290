import Crosstab.Proofs.RowOrder.Members

/-!
# Plans from rearranged rows

From rearranged rows, plans ask for the same groupings under the same keys. Only conditions may list
their members in another order.
-/
namespace Crosstab

open List Crosstab.Filter

/-! ### Keys of conditions -/

/-- The key of a narrowed filter is made from the keys of the conditions. -/
theorem Filter.keyOf_conjoin_congr {base : Option Filter} {extra others : List Filter}
    (same : extra.map key = others.map key) :
    keyOf (conjoin base extra) = keyOf (conjoin base others) := by
  have whole : (base.toList ++ extra).map key = (base.toList ++ others).map key := by
    rw [map_append, map_append, same]
  unfold conjoin
  generalize base.toList ++ extra = operands at whole ⊢
  generalize base.toList ++ others = operands' at whole ⊢
  -- Both lists are empty, both have one operand, or both have more than one.
  match operands, operands' with
  | [], [] => rfl
  | [a], [b] =>
    have keyed : a.key = b.key := by simpa using whole
    simp [keyOf, keyed]
  | a :: b :: rest, c :: d :: rest' =>
    simp only [keyOf, Option.map_some, Option.getD_some, key, keys_eq_map, whole]
  | [], _ :: _ => simp at whole
  | _ :: _, [] => simp at whole
  | [_], _ :: _ :: _ => simp at whole
  | _ :: _ :: _, [_] => simp at whole

/-! ### Requests -/

/-- Requests for the same aggregates of the same grouping, under one key. -/
structure QueryRequest.Alike (a b : QueryRequest) : Prop where
  fields : a.fields = b.fields
  aggregates : a.aggregates = b.aggregates
  key : a.key = b.key

/-- Queries for the same aggregates of the same grouping, under one key. -/
structure GroupingQuery.Alike (a b : GroupingQuery) : Prop where
  fields : a.fields = b.fields
  aggregates : a.aggregates = b.aggregates
  key : a.key = b.key

variable {queries others : List GroupingQuery} {purpose : Purpose}

theorem map_key_eq_of_alike (alike : Forall₂ GroupingQuery.Alike queries others) :
    queries.map GroupingQuery.key = others.map GroupingQuery.key := by
  rw [← forall₂_eq_eq_eq, forall₂_map_left_iff, forall₂_map_right_iff]
  exact alike.imp fun _ _ same => same.key

private theorem addRequest_alike (alike : Forall₂ GroupingQuery.Alike queries others)
    {request request' : QueryRequest} (same : request.Alike request') :
    Forall₂ GroupingQuery.Alike (addRequest purpose queries request)
      (addRequest purpose others request') := by
  have known (list : List GroupingQuery) (key : String) :
      (list.any fun query => query.key == key) = (list.map GroupingQuery.key).contains key := by
    rw [Bool.eq_iff_iff, any_eq_true, contains_iff_mem, mem_map]
    simp only [beq_iff_eq]
  unfold addRequest
  rw [known, known, ← map_key_eq_of_alike alike, ← same.key]
  split
  · rw [forall₂_map_left_iff, forall₂_map_right_iff]
    refine alike.imp fun query query' related => ?_
    rw [← related.key]
    split
    · exact ⟨related.fields, by rw [related.aggregates, same.aggregates], related.key⟩
    · exact related
  · refine rel_append alike (.cons ⟨?_, ?_, ?_⟩ .nil)
    · rw [same.fields]
    · rw [same.aggregates]
    -- Sorted fields are sorted already, so the key is that of the request.
    · have keyed := same.key
      simp only [QueryRequest.key, GroupingQuery.keyFor] at keyed
      simpa only [GroupingQuery.key, GroupingQuery.keyFor, sortedTexts_sortedTexts] using keyed

private theorem mergeRequests_alike {requests others : List QueryRequest}
    (alike : Forall₂ QueryRequest.Alike requests others) :
    Forall₂ GroupingQuery.Alike (mergeRequests purpose requests)
      (mergeRequests purpose others) := by
  have fold (queries queries' : List GroupingQuery)
      (start : Forall₂ GroupingQuery.Alike queries queries') :
      Forall₂ GroupingQuery.Alike (requests.foldl (addRequest purpose) queries)
        (others.foldl (addRequest purpose) queries') := by
    induction alike generalizing queries queries' with
    | nil => exact start
    | cons head _ ih => exact ih _ _ (addRequest_alike start head)
  exact fold [] [] .nil

/-! ### Plans -/

structure QueryPlan.Alike (a b : QueryPlan) : Prop where
  discovery : a.discoveryQueries = b.discoveryQueries
  queries : List.Forall₂ GroupingQuery.Alike a.mainQueries b.mainQueries
  cells : a.cells = b.cells

namespace ResolvedTable

structure Alike (a b : ResolvedTable) : Prop where
  table : a.table = b.table
  queries : a.discoveryQueries = b.discoveryQueries
  selections : ∀ side, List.Forall₂ Selection.Alike (a.selections side) (b.selections side)

namespace Alike

variable {a b : ResolvedTable} (alike : a.Alike b)

include alike

theorem selection? (side : Side) (node : Nat) :
    Option.Rel Selection.Alike (a.selection? side node) (b.selection? side node) :=
  rel_find? (alike.selections side) fun _ _ same => by rw [same.node]

private theorem isNone_selection? (side : Side) (node : Nat) :
    (a.selection? side node).isNone = (b.selection? side node).isNone := by
  obtain ⟨first, second⟩ | ⟨_, _, first, second, _⟩ := cases_of_rel (alike.selection? side node)
  · rw [first, second]
  · rw [first, second]
    rfl

theorem memberFilters (side : Side) (branch : List Node) :
    (a.memberFilters side branch).map key = (b.memberFilters side branch).map key := by
  unfold ResolvedTable.memberFilters
  rw [map_filterMap, map_filterMap]
  apply filterMap_congr
  intro node _
  obtain ⟨first, second⟩ | ⟨_, _, first, second, related⟩ :=
    cases_of_rel (alike.selection? side node.id)
  · rw [first, second]
  · simp [first, second, related.key_eq]

/-- Requests for one grouping whose conditions have the same keys are alike. -/
theorem request (fields : List String) (aggregates : List MeasureRef) {narrow narrow' : List Filter}
    (same : narrow.map key = narrow'.map key) :
    QueryRequest.Alike ⟨fields, aggregates, a.table.queryFilter narrow⟩
      ⟨fields, aggregates, b.table.queryFilter narrow'⟩ := by
  have narrowed : (b.table.guards ++ narrow).map key = (b.table.guards ++ narrow').map key := by
    rw [map_append, same, map_append]
  refine ⟨rfl, rfl, ?_⟩
  rw [alike.table]
  exact congrArg (fun key => "|".intercalate (sortedTexts fields) ++ "#" ++ key)
    (keyOf_conjoin_congr narrowed)

theorem cellRequest (rowBranch colBranch : List Node) :
    (a.cellRequest rowBranch colBranch).Alike (b.cellRequest rowBranch colBranch) := by
  unfold ResolvedTable.cellRequest
  rw [← alike.table]
  have narrowed : (a.memberFilters .rows rowBranch ++ a.memberFilters .cols colBranch).map key =
      (b.memberFilters .rows rowBranch ++ b.memberFilters .cols colBranch).map key := by
    rw [map_append, map_append, alike.memberFilters, alike.memberFilters]
  have same := alike.request (fieldsOf rowBranch ++ fieldsOf colBranch)
    ((a.table.cellMeasures rowBranch colBranch).map Measure.base) narrowed
  rwa [← alike.table] at same

theorem denominatorRequest (rowBranch colBranch : List Node) (measure : Measure) :
    Option.Rel QueryRequest.Alike (a.denominatorRequest rowBranch colBranch measure)
      (b.denominatorRequest rowBranch colBranch measure) := by
  unfold ResolvedTable.denominatorRequest
  cases measure.across with
  | none => exact .none
  | some side =>
    cases side with
    | rows => exact .some (alike.request _ _ (alike.memberFilters .cols colBranch))
    | cols => exact .some (alike.request _ _ (alike.memberFilters .rows rowBranch))

private theorem crossingRequests (rowBranch colBranch : List Node) :
    Forall₂ QueryRequest.Alike (a.crossingRequests rowBranch colBranch)
      (b.crossingRequests rowBranch colBranch) := by
  refine .cons (alike.cellRequest rowBranch colBranch) ?_
  rw [← alike.table]
  induction a.table.cellMeasures rowBranch colBranch with
  | nil => exact .nil
  | cons measure rest ih =>
    rw [filterMap_cons, filterMap_cons]
    obtain ⟨first, second⟩ | ⟨_, _, first, second, related⟩ :=
      cases_of_rel (alike.denominatorRequest rowBranch colBranch measure)
    · rw [first, second]
      exact ih
    · rw [first, second]
      exact .cons related ih

private theorem cellSource (row col : Nat) (rowBranch colBranch : List Node) :
    a.cellSource row col rowBranch colBranch = b.cellSource row col rowBranch colBranch := by
  have denominators : (fun measure => (a.denominatorRequest rowBranch colBranch measure).map
        fun request => (measure.name, request.key)) =
      fun measure => (b.denominatorRequest rowBranch colBranch measure).map
        fun request => (measure.name, request.key) := by
    funext measure
    obtain ⟨first, second⟩ | ⟨_, _, first, second, related⟩ :=
      cases_of_rel (alike.denominatorRequest rowBranch colBranch measure)
    · rw [first, second]
    · simp [first, second, related.key]
  unfold ResolvedTable.cellSource
  rw [(alike.cellRequest rowBranch colBranch).key, denominators, alike.table]

/-- Tables whose selections are alike have plans that are alike, or fail alike. -/
theorem plan : Outcome.Related QueryPlan.Alike a.plan b.plan := by
  have checked : a.checkResolved = b.checkResolved := by
    unfold checkResolved
    simp only [alike.table, alike.isNone_selection?]
  have requests : Forall₂ QueryRequest.Alike
      ((crossings a.table).flatMap fun crossing => a.crossingRequests crossing.1.2 crossing.2.2)
      ((crossings a.table).flatMap fun crossing => b.crossingRequests crossing.1.2 crossing.2.2) := by
    induction crossings a.table with
    | nil => exact .nil
    | cons crossing rest ih =>
      exact rel_append (alike.crossingRequests _ _) ih
  unfold ResolvedTable.plan
  rw [checked, ← alike.table]
  refine (Outcome.Related.of_eq rfl).bind fun _ _ _ => ?_
  refine (Outcome.Related.of_eq rfl).bind fun _ _ _ => .ok ⟨alike.queries, ?_, ?_⟩
  · exact mergeRequests_alike requests
  · apply map_congr_left
    intro crossing _
    exact alike.cellSource _ _ _ _

end Alike

end ResolvedTable

/-! ### Resolution -/

namespace Table

variable {table : Table} {discovery : DiscoveryPlan} {found others : Results}

/-- The rows from which the members of a pending node are fixed. -/
def rankingRows (discovery : DiscoveryPlan) (found : Results) (side : Side) (visit : Visit Node) :
    Option (List Row) :=
  (discovery.nodeKeys.lookup (side, visit.node.id)).bind fun key => found.lookup key

/-- The results of discovery leave no doubt about members: for every pending node, equal values above
it and at it are identical, ranking values are comparable, and members under one parent have texts of
their own. -/
def RanksClearly (table : Table) (discovery : DiscoveryPlan) (found : Results) : Prop :=
  ∀ side, ∀ visit ∈ (table.axis side).pendingVisits, ∀ field ref rows,
    visit.node.field? = some field → visit.node.order.orderBy = some ref →
      rankingRows discovery found side visit = some rows → Selection.Clear visit field ref rows

private theorem resolveNode_related (clear : table.RanksClearly discovery found)
    (rearranged : found.Rearranges others) {side : Side} {visit : Visit Node}
    (member : visit ∈ (table.axis side).pendingVisits) :
    Outcome.Related Selection.Alike (resolveNode side discovery found visit)
      (resolveNode side discovery others visit) := by
  obtain ⟨field, ref, named, ordered⟩ := exists_of_isPending (mem_filter.mp member).2
  have rows : Option.Rel Perm (rankingRows discovery found side visit)
      (rankingRows discovery others side visit) := by
    unfold rankingRows
    cases discovery.nodeKeys.lookup (side, visit.node.id) with
    | none => exact .none
    | some key => exact rearranged.lookup key
  unfold resolveNode
  rw [← rankingRows, ← rankingRows, named, ordered]
  obtain ⟨first, second⟩ | ⟨_, _, first, second, arranged⟩ := cases_of_rel rows
  · rw [first, second]
    exact .error _
  · have cleared := clear side visit member field ref _ named ordered first
    rw [first, second]
    exact cleared.ofRows_related arranged

theorem resolve_related (clear : table.RanksClearly discovery found)
    (rearranged : found.Rearranges others) :
    Outcome.Related ResolvedTable.Alike (table.resolve discovery found)
      (table.resolve discovery others) := by
  have each (side : Side) : Outcome.Related (Forall₂ Selection.Alike)
      ((table.axis side).pendingVisits.mapM (resolveNode side discovery found))
      ((table.axis side).pendingVisits.mapM (resolveNode side discovery others)) := by
    have itself : Forall₂ (fun a b => a = b ∧ a ∈ (table.axis side).pendingVisits)
        (table.axis side).pendingVisits (table.axis side).pendingVisits := by
      rw [forall₂_same]
      exact fun visit member => ⟨rfl, member⟩
    refine Outcome.Related.mapM itself ?_
    rintro visit _ ⟨rfl, member⟩
    exact resolveNode_related clear rearranged member
  refine (each .rows).bind fun _ _ rows => (each .cols).bind fun _ _ cols => .ok ⟨rfl, rfl, ?_⟩
  intro side
  cases side with
  | rows => exact rows
  | cols => exact cols

end Table

end Crosstab
