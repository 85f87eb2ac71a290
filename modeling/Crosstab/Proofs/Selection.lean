import Crosstab.Proofs.Source.Grouping

/-!
# Selections from an answer

A selection has one entry for each combination of values above the node, with the ranked candidates
among the rows that have these values.
-/
namespace Crosstab.Selection

open List Value Outcome

variable (visit : Visit Node) (field : String) (ref : MeasureRef) (rows : List Row)

/-- The rows with the values of a parent above the node, as candidates. -/
def candidates (parent : List Value) : List Candidate :=
  (rows.filter fun row => (row.project visit.scope).map key? =
    parent.map key?).map fun row => (row.get field, row.get ref.column)

/-- A selection that lists the ranked candidates under every parent. -/
structure Ranks (selection : Selection) : Prop where
  usable : ∀ row ∈ rows, (row.project visit.scope).all hashable = true
  node : selection.node = visit.node.id
  named : selection.field = field
  unique : (selection.byParent.map fun entry => entry.1.map key?).Nodup
  drawn : ∀ entry ∈ selection.byParent, ∃ row ∈ rows, row.project visit.scope = entry.1
  members : ∀ entry ∈ selection.byParent,
    rank (candidates visit field ref rows entry.1) visit.node.order.ranking = .ok entry.2
  covers : ∀ row ∈ rows, ∃ entry ∈ selection.byParent,
    entry.1.map key? = (row.project visit.scope).map key?

/-- The records of an answer as candidates, under their values above the node. -/
def grouped : Groups (List Value) Candidate :=
  Groups.ofList sameKeys (rows.map fun row =>
    (row.project visit.scope, (row.get field, row.get ref.column)))

variable {visit field ref rows} {selection : Selection}

private theorem keys_of_ranked {groups : Groups (List Value) Candidate}
    {byParent : List (List Value × List Value)} {ranks : _ → _ → Prop}
    (ranked : Forall₂ (fun group entry => entry.1 = group.1 ∧ ranks group entry) groups byParent) :
    byParent.map (fun entry => entry.1.map key?) = groups.map fun group => group.1.map key? := by
  rw [← forall₂_eq_eq_eq, forall₂_map_left_iff, forall₂_map_right_iff]
  refine ranked.flip.imp ?_
  rintro entry group ⟨same, _⟩
  rw [same]

theorem gathers (usable : ∀ row ∈ rows, (row.project visit.scope).all hashable) :
    Groups.Gathers (map key?)
      (rows.map fun row =>
        (row.project visit.scope, (row.get field, row.get ref.column)))
      (grouped visit field ref rows) := by
  refine Groups.gathers_ofList ?_
  intro a first b _
  rw [map_map] at first
  obtain ⟨row, member, rfl⟩ := mem_map.mp first
  exact sameKeys_iff (usable row member)

/-- Every group has the values of some row as its parent, and holds the candidates under it. -/
theorem mem_grouped (usable : ∀ row ∈ rows, (row.project visit.scope).all hashable)
    {group : List Value × List Candidate} (member : group ∈ grouped visit field ref rows) :
    (∃ row ∈ rows, row.project visit.scope = group.1) ∧
      group.2 = candidates visit field ref rows group.1 := by
  have key := (gathers usable).keys group member
  have contents := (gathers usable).contents group member
  rw [map_map] at key
  rw [filter_map, map_map] at contents
  exact ⟨mem_map.mp key, contents⟩

private theorem ofRows_eq_ok (made : ofRows visit field ref rows = .ok selection) :
    (∀ row ∈ rows, (row.project visit.scope).all hashable) ∧
      ∃ byParent, selection = ⟨visit.node.id, field, byParent⟩ ∧
        Forall₂ (fun group entry => entry.1 = group.1 ∧
            rank group.2 visit.node.order.ranking = .ok entry.2)
          (grouped visit field ref rows) byParent := by
  unfold ofRows at made
  simp only at made
  split at made
  next usable =>
    rw [all_map, all_eq_true] at usable
    obtain ⟨byParent, returned, made⟩ := bind_eq_ok.mp made
    cases made
    refine ⟨usable, byParent, rfl, (mapM_eq_ok.mp returned).imp ?_⟩
    intro group entry one
    obtain ⟨members, ranked, one⟩ := bind_eq_ok.mp one
    cases one
    exact ⟨rfl, ranked⟩
  · cases made

theorem ranks_of_ofRows (made : ofRows visit field ref rows = .ok selection) :
    Ranks visit field ref rows selection := by
  obtain ⟨usable, byParent, rfl, ranked⟩ := ofRows_eq_ok made
  refine ⟨usable, rfl, rfl, ?_, ?_, ?_, ?_⟩
  · rw [keys_of_ranked ranked]
    exact (gathers usable).unique
  · intro entry member
    obtain ⟨group, there, same, _⟩ := exists_left_of_forall₂ ranked member
    rw [same]
    exact (mem_grouped usable there).1
  · intro entry member
    obtain ⟨group, there, same, returned⟩ := exists_left_of_forall₂ ranked member
    rwa [(mem_grouped usable there).2, ← same] at returned
  · intro row member
    have listed : (row.project visit.scope).map key? ∈
        byParent.map fun entry => entry.1.map key? := by
      rw [keys_of_ranked ranked, (gathers usable).mem_forms, map_map]
      exact mem_map_of_mem member
    exact mem_map.mp listed

/-- Where values can serve as keys and candidates can be ranked, there is a selection. -/
theorem exists_ofRows (usable : ∀ row ∈ rows, (row.project visit.scope).all hashable)
    (ranked : ∀ row ∈ rows, ∃ members, rank (candidates visit field ref rows
      (row.project visit.scope)) visit.node.order.ranking = .ok members) :
    ∃ selection, ofRows visit field ref rows = .ok selection := by
  have each : ∀ group ∈ grouped visit field ref rows, ∃ entry,
      ((do return (group.1, ← rank group.2 visit.node.order.ranking)) :
        Outcome (List Value × List Value)) = .ok entry ∧ True := by
    intro group member
    obtain ⟨⟨row, there, parent⟩, contents⟩ := mem_grouped usable member
    obtain ⟨members, returned⟩ := ranked row there
    rw [parent, ← contents] at returned
    exact ⟨(group.1, members), by rw [returned]; rfl, trivial⟩
  obtain ⟨byParent, made, _⟩ := exists_mapM_eq_ok each
  refine ⟨⟨visit.node.id, field, byParent⟩, ?_⟩
  unfold ofRows
  rw [if_pos]
  · exact bind_eq_ok.mpr ⟨byParent, made, rfl⟩
  · rw [all_map, all_eq_true]
    exact usable

end Crosstab.Selection
