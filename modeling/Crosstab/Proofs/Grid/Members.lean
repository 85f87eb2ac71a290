import Crosstab.Proofs.Grid.Expansion
import Crosstab.Proofs.Selection

/-!
# Fixed members

Fixed members narrow the queries. A leaf picks its members among those fixed under its own parent,
so its rows are never lost to these conditions.
-/
namespace Crosstab

open List Value

namespace Table

variable {schema : Schema} {table : Table} {discovery : DiscoveryPlan} {found : Results}
  {resolved : ResolvedTable}

variable {node : Node} {side : Side} {selection : Selection}

theorem field?_isSome_of_isPending (pending : node.isPending) :
    ∃ field, node.field? = some field := by
  unfold Node.isPending Node.order at pending
  unfold Node.field?
  cases place : node.place with
  | total => simp [place, Place.order, MemberOrder.plain, MemberOrder.byValue] at pending
  | dimension field order => exact ⟨field, rfl⟩

theorem exists_of_isPending {node : Node} (pending : node.isPending) :
    ∃ field ref, node.field? = some field ∧ node.order.orderBy = some ref := by
  obtain ⟨field, named⟩ := field?_isSome_of_isPending pending
  obtain ⟨ref, ordered⟩ := Option.isSome_iff_exists.mp pending
  exact ⟨field, ref, named, ordered⟩

theorem resolveNode_eq_ok {visit : Visit Node}
    (fixed : resolveNode side discovery found visit = .ok selection) :
    selection.node = visit.node.id ∧ selection.field = visit.node.field?.getD "" := by
  unfold resolveNode at fixed
  split at fixed
  next rows ref _ _ =>
    have ranks := Selection.ranks_of_ofRows fixed
    exact ⟨ranks.node, ranks.named⟩
  · cases fixed

section

variable (wellFormed : table.WellFormed schema)
  (fixed : table.resolve discovery found = .ok resolved)
  (inside : node ∈ (table.axis side).forest.walk)
  (known : resolved.selection? side node.id = some selection)
include wellFormed fixed inside known

theorem visit_of_selection? :
    ∃ visit ∈ (table.axis side).pendingVisits, visit.node = node ∧
      resolveNode side discovery found visit = .ok selection := by
  obtain ⟨_, _, members⟩ := resolve_eq_ok fixed
  have named : selection.node = node.id := by simpa using find?_some known
  obtain ⟨visit, pending, made⟩ :=
    Outcome.exists_of_mem_results (members side) (mem_of_find?_eq_some known)
  refine ⟨visit, pending, ?_, made⟩
  -- Members are kept under the number of their node, and numbers tell nodes apart.
  exact Axis.eq_of_id_eq (wellFormed.isNumbered side) (Axis.node_mem_walk_of_pending pending) inside
    ((resolveNode_eq_ok made).1.symm.trans named)

theorem field_of_selection? :
    node.field? = some selection.field := by
  obtain ⟨visit, pending, same, made⟩ := visit_of_selection? wellFormed fixed inside known
  obtain ⟨name, has⟩ := field?_isSome_of_isPending (mem_filter.mp pending).2
  rw [← same, (resolveNode_eq_ok made).2, has]
  rfl

end

end Table

variable {selection : Selection} {parent members : List Value}

/-- The members under a parent are those of its entry, and there are none without an entry. -/
theorem Selection.members_eq_ok (under : selection.members parent = .ok members) :
    parent.all hashable ∧
      ((members = [] ∧ ∀ entry ∈ selection.byParent, sameKeys entry.1 parent = false) ∨
        ∃ entry ∈ selection.byParent, sameKeys entry.1 parent ∧ members = entry.2) := by
  unfold Selection.members at under
  split at under
  next usable =>
    refine ⟨usable, ?_⟩
    cases found : selection.byParent.find? fun entry => sameKeys entry.1 parent with
    | none =>
      rw [found] at under
      cases under
      exact .inl ⟨rfl, by simpa using find?_eq_none.mp found⟩
    | some entry =>
      rw [found] at under
      cases under
      have same := find?_some found
      exact .inr ⟨entry, mem_of_find?_eq_some found, same, rfl⟩
  · cases under

theorem Selection.exists_mem_allMembers (under : selection.members parent = .ok members)
    {member : Value} (picked : member ∈ members) (usable : member.hashable) :
    ∃ kept ∈ selection.allMembers, kept.sameKey member := by
  obtain ⟨_, ⟨rfl, _⟩ | ⟨entry, known, _, rfl⟩⟩ := Selection.members_eq_ok under
  · cases picked
  · exact exists_mem_distinct (mem_flatMap.mpr ⟨entry, known, picked⟩) usable

/-- Rows with the members of a leaf meet the conditions that keep the fixed members. -/
theorem ResolvedTable.memberFilters_hold {schema : Schema} {table : Table}
    {discovery : DiscoveryPlan} {found : Results} {resolved : ResolvedTable} {plan : QueryPlan}
    {results : Results} {settings : Settings} {side : Side} (wellFormed : table.WellFormed schema)
    (fixed : table.resolve discovery found = .ok resolved) {steps : List Step}
    (along : steps.map Prod.fst ∈ (table.axis side).branches)
    (climbed : (resolved.expansion plan results settings side).Climbs steps)
    (usable : Path.hashable (steps.map Step.segment)) {row : Row}
    (agrees : ∀ pair ∈ Step.pairs steps, (row.get pair.1).key? = pair.2.key?) :
    ∀ filter ∈ resolved.memberFilters side (steps.map Prod.fst), filter.holds row = .ok true := by
  intro filter listed
  obtain ⟨node, inBranch, made⟩ := mem_filterMap.mp listed
  obtain ⟨selection, known, rfl⟩ := Option.map_eq_some_iff.mp made
  have named := Table.field_of_selection? wellFormed fixed
    (Axis.mem_walk_of_mem_branch along inBranch) known
  obtain ⟨⟨_, member⟩, taken, rfl⟩ := mem_map.mp inBranch
  have paired : (selection.field, member) ∈ Step.pairs steps :=
    mem_filterMap.mpr ⟨_, taken, by simp [named]⟩
  have usableMember := Step.hashable_of_mem_pairs usable paired
  -- The member was picked among those fixed under its parent, so it is among all that are fixed.
  obtain ⟨before, allowed⟩ := climbed.allows_of_mem taken
  obtain ⟨members, under, picked⟩ := allowed selection.field named
  have chosen : (resolved.expansion plan results settings side).selections.find?
      (fun other => other.node == _) = some selection := known
  unfold Expansion.members at under
  simp only [chosen] at under
  obtain ⟨kept, among, same⟩ := Selection.exists_mem_allMembers under picked usableMember
  unfold Filter.holds
  congr 1
  rw [any_eq_true]
  refine ⟨kept, among, ?_⟩
  have usableKept := hashable_of_sameKey same usableMember
  rw [sameKey_iff usableKept] at same ⊢
  exact same.trans (agrees _ paired).symm

end Crosstab
