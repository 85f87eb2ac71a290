import Crosstab.Proofs.Grid.Lookups
import Crosstab.Proofs.Grid.UnlimitedRankings

/-!
# Faithful plans

What it takes for the queries of a plan to answer what was asked: requests with one key ask for one
grouping, and no two columns have one name.
-/
namespace Crosstab

open List

variable {requests requests' : List QueryRequest} {source : List Row} {visit visit' : Visit Node}
  {schema : Schema} {settings : Settings} {statement : Statement}

theorem FaithfulKeys.of_subset (faithful : FaithfulKeys requests source)
    (fewer : requests' ⊆ requests) : FaithfulKeys requests' source :=
  fun a first b second => faithful a (fewer first) b (fewer second)

/-- Requests that are told apart at least as well, for the same groupings and no more aggregates, leave
the columns of queries distinct. -/
theorem Answers.columns_of_covered {queries queries' : List GroupingQuery}
    (answers : Answers requests queries) (faithful : FaithfulKeys requests source)
    (columns : ∀ query ∈ queries, query.columns.Nodup) (answers' : Answers requests' queries')
    (cover : QueryRequest → QueryRequest)
    (covered : ∀ request ∈ requests', cover request ∈ requests ∧
      sortedTexts (cover request).fields = sortedTexts request.fields ∧
        request.aggregates ⊆ (cover request).aggregates)
    (keys : ∀ a ∈ requests', ∀ b ∈ requests', a.key = b.key → (cover a).key = (cover b).key) :
    ∀ query ∈ queries', query.columns.Nodup := by
  intro query' member'
  obtain ⟨first, listed, key', fields', _⟩ := answers'.exists_request member'
  obtain ⟨requested, sameFields, _⟩ := covered first listed
  obtain ⟨query, member, key⟩ := answers.exists_query requested
  obtain ⟨fields, _⟩ := faithful.query_as_asked answers member requested key
  have inside : query'.aggregates ⊆ query.aggregates := by
    intro ref asked
    obtain ⟨request, among, sameKey, within⟩ := (answers'.aggregates query' member' ref).mp asked
    obtain ⟨requestedToo, _, more⟩ := covered request among
    refine (answers.aggregates query member ref).mpr ⟨cover request, requestedToo, ?_, more within⟩
    rw [key]
    exact keys request among first listed (sameKey.trans key'.symm)
  obtain ⟨kept, arranged, sublist⟩ := subperm_of_subset (answers'.unique query' member') inside
  have whole := columns query member
  rw [GroupingQuery.columns] at whole ⊢
  rw [fields', ← sameFields, ← fields]
  refine ((arranged.map _).append_left _).nodup_iff.mp (whole.sublist ?_)
  exact (sublist.map _).append_left _

namespace Table

variable {table : Table} {schema : Schema} {discovery : DiscoveryPlan} {found : Results}
  {resolved : ResolvedTable} {side : Side} {visit : Visit Node}

theorem exists_discover (valid : table.validate = .ok ()) :
    ∃ discovery, table.discover = .ok discovery :=
  ⟨_, Outcome.bind_eq_ok.mpr ⟨(), valid, rfl⟩⟩

theorem isPending_eq_false (wellFormed : table.WellFormed schema)
    (fixed : table.resolve discovery found = .ok resolved)
    (visited : visit ∈ (table.axis side).visits)
    (unknown : resolved.selection? side visit.node.id = none) : visit.node.isPending = false := by
  rw [Bool.eq_false_iff]
  intro pending
  obtain ⟨selection, known, _⟩ :=
    exists_selection? wellFormed fixed (mem_filter.mpr ⟨visited, pending⟩)
  cases unknown.symm.trans known

end Table

/-- Rows that agree in what they are ranked by fix the same members. -/
theorem Selection.ofRows_congr {field : String} {ref : MeasureRef} {rows rows' : List Row}
    (id : visit'.node.id = visit.node.id) (order : visit'.node.order = visit.node.order)
    (above : visit'.scope = visit.scope)
    (agree : List.Forall₂ (Row.AgreeOn (visit.scope ++ [field, ref.column])) rows rows') :
    ofRows visit' field ref rows' = ofRows visit field ref rows := by
  have candidates : rows'.map (fun row =>
        (row.project visit.scope, (row.get field, row.get ref.column))) =
      rows.map fun row =>
        (row.project visit.scope, (row.get field, row.get ref.column)) := by
    rw [← forall₂_eq_eq_eq, forall₂_map_left_iff, forall₂_map_right_iff]
    refine agree.flip.imp fun row' row same => ?_
    have told := Row.AgreeOn.project_eq same (subset_append_left _ _)
    rw [told, same field (by simp), same ref.column (by simp)]
  simp only [ofRows, id, order, above, candidates]

/-- The members of another table, found among the rows that count. -/
structure Tabulation.Explores (t : Tabulation schema settings statement source) (table : Table)
    (discovery : DiscoveryPlan) (found : Results) : Prop where
  wellFormed : table.WellFormed schema
  discovered : table.discover = .ok discovery
  stage : AnsweredFrom source (source.filter t.table.counts) table.rankingRequests
    discovery.queries found

open Table in
/-- Nodes that are ranked by one grouping of the same rows have the same members. -/
theorem Tabulation.Explores.resolveNode_eq {t : Tabulation schema settings statement source}
    {table : Table} {discovery : DiscoveryPlan} {found : Results}
    (explores : t.Explores table discovery found) (asked : t.AnsweredAsAsked) {side side' : Side}
    (pending : visit ∈ (t.table.axis side).pendingVisits)
    (pending' : visit' ∈ (table.axis side').pendingVisits) (id : visit'.node.id = visit.node.id)
    (place : visit'.node.place = visit.node.place)
    (above : visit'.scope = visit.scope) :
    resolveNode side' discovery found visit' = resolveNode side t.discovery t.found visit := by
  obtain ⟨query, records, serves⟩ := asked.rankingStage.exists_serves
    (mem_map_of_mem (mem_pendingVisits.mpr pending))
  obtain ⟨query', records', serves'⟩ := explores.stage.exists_serves
    (mem_map_of_mem (mem_pendingVisits.mpr pending'))
  obtain ⟨field, ref, named, ordered⟩ := exists_of_isPending (mem_filter.mp pending).2
  have named' : visit'.node.field? = some field := (congrArg Place.field? place).trans named
  have order : visit'.node.order = visit.node.order := congrArg Place.order place
  have fields : (table.rankingRequest visit').fields = (t.table.rankingRequest visit).fields := by
    simp only [rankingRequest, above, named, named']
  have aggregates : (table.rankingRequest visit').aggregates =
      (t.table.rankingRequest visit).aggregates := by
    simp only [rankingRequest, order]
  rw [resolveNode_eq_ofRows (wellFormed_of_compile t.compiled) t.discovered pending named ordered
    serves.looked, resolveNode_eq_ofRows explores.wellFormed explores.discovered pending' named'
      (order ▸ ordered) serves'.looked]
  refine Selection.ofRows_congr id order above ?_
  refine (serves.agree (congrArg sortedTexts fields) aggregates serves').imp
    fun _ _ agree column listed => agree column ?_
  rw [mem_append, serves.mem_fields]
  simp only [rankingRequest, named, ordered, Option.toList_some, map_singleton]
  simp only [mem_append, mem_cons, not_mem_nil, or_false] at listed ⊢
  rwa [or_assoc]

/-- The plan that a statement makes for some rows. -/
structure Statement.Plans (statement : Statement) (schema : Schema) (settings : Settings)
    (source : List Row) (table : Table) (discovery : DiscoveryPlan) (found : Results)
    (resolved : ResolvedTable) (plan : QueryPlan) : Prop where
  compiled : Table.compile schema settings.includeNulls statement = .ok table
  discovered : table.discover = .ok discovery
  explored : Source.answerAll source discovery.queries = .ok found
  fixed : table.resolve discovery found = .ok resolved
  planned : resolved.plan = .ok plan

/-- The plan of a statement has faithful keys and distinct columns. -/
def Statement.PlansFaithfully (statement : Statement) (schema : Schema) (settings : Settings)
    (source : List Row) : Prop :=
  ∀ table discovery found resolved plan,
    statement.Plans schema settings source table discovery found resolved plan →
      FaithfulKeys resolved.requests source ∧ ∀ query ∈ plan.mainQueries, query.columns.Nodup

/-- A statement has one plan, so it is enough to look at that of a tabulation. -/
theorem Statement.plansFaithfully_of_tabulation
    (t : Tabulation schema settings statement source)
    (keys : FaithfulKeys t.resolved.requests source)
    (columns : ∀ query ∈ t.plan.mainQueries, query.columns.Nodup) :
    statement.PlansFaithfully schema settings source := by
  rintro table discovery found resolved plan ⟨compiled, discovered, explored, fixed, planned⟩
  cases t.compiled.symm.trans compiled
  cases t.discovered.symm.trans discovered
  cases t.explored.symm.trans explored
  cases t.fixed.symm.trans fixed
  cases t.planned.symm.trans planned
  exact ⟨keys, columns⟩

end Crosstab
