import Crosstab.Proofs.Axis.Clause

/-!
# Clauses that correspond

Clauses of one form, with dimensions and bindings related place by place. If related dimensions
compile to related nodes, so do the clauses.
-/
namespace Crosstab

open List Outcome

namespace Item

variable {β γ δ ε : Type} {D : Dimension → Dimension → Prop} {B : β → γ → Prop}

/-- Items of one form, with related dimensions and bindings. -/
inductive Corresponds (D : Dimension → Dimension → Prop) (B : β → γ → Prop) : Item β → Item γ → Prop
  | dimension {d d' : Dimension} (related : D d d') : Corresponds D B (.dimension d) (.dimension d')
  | total (t : Total) : Corresponds D B (.total t) (.total t)
  | binding {b : β} {b' : γ} (related : B b b') : Corresponds D B (.binding b) (.binding b')
  | axis {groups : AxisClause β} {groups' : AxisClause γ}
      (each : Forall₂ (Forall₂ (Corresponds D B)) groups groups') :
      Corresponds D B (.axis groups) (.axis groups')

/-- Clauses of one form, with related dimensions and bindings. -/
abbrev ClauseCorresponds (D : Dimension → Dimension → Prop) (B : β → γ → Prop) :
    AxisClause β → AxisClause γ → Prop := Forall₂ (Forall₂ (Corresponds D B))

theorem clauseBindings_related {clause : AxisClause β} {clause' : AxisClause γ}
    (corresponds : ClauseCorresponds D B clause clause') :
    Forall₂ B (clauseBindings clause) (clauseBindings clause') := by
  refine clause_induction
    (C := fun clause => ∀ clause' : AxisClause γ, ClauseCorresponds D B clause clause' →
      Forall₂ B (clauseBindings clause) (clauseBindings clause'))
    (G := fun group => ∀ group' : Group γ, Forall₂ (Corresponds D B) group group' →
      Forall₂ B (groupBindings group) (groupBindings group'))
    (I := fun item => ∀ item' : Item γ, Corresponds D B item item' →
      Forall₂ B (bindings item) (bindings item')) ?_ ?_ ?_ ?_ ?_ ?_ ?_ ?_ clause clause' corresponds
  · rintro d _ ⟨⟩
    exact .nil
  · rintro t _ ⟨⟩
    exact .nil
  · intro b _ related
    cases related with | binding own => exact .cons own .nil
  · intro groups inside _ related
    cases related with | axis each => exact inside _ each
  · rintro _ ⟨⟩
    exact .nil
  · intro group rest inside behind _ related
    cases related with | cons first others => exact rel_append (inside _ first) (behind _ others)
  · rintro _ ⟨⟩
    exact .nil
  · intro item rest inside behind _ related
    cases related with | cons first others => exact rel_append (inside _ first) (behind _ others)

/-- Related labels take the place of the bindings, and what is left of them is related. -/
theorem relabelClause_related {L : δ → ε → Prop} (absent : δ) (absent' : ε)
    (known : L absent absent') {clause : AxisClause β} {clause' : AxisClause γ}
    (corresponds : ClauseCorresponds D B clause clause') {labels : List δ}
    {labels' : List ε} (listed : Forall₂ L labels labels') :
    ClauseCorresponds D L (relabelClause absent clause labels).1
        (relabelClause absent' clause' labels').1 ∧
      Forall₂ L (relabelClause absent clause labels).2 (relabelClause absent' clause' labels').2 := by
  refine clause_induction
    (C := fun clause => ∀ (clause' : AxisClause γ) labels labels',
      ClauseCorresponds D B clause clause' → Forall₂ L labels labels' →
      ClauseCorresponds D L (relabelClause absent clause labels).1
          (relabelClause absent' clause' labels').1 ∧
        Forall₂ L (relabelClause absent clause labels).2 (relabelClause absent' clause' labels').2)
    (G := fun group => ∀ (group' : Group γ) labels labels', Forall₂ (Corresponds D B) group group' →
      Forall₂ L labels labels' →
      Forall₂ (Corresponds D L) (relabelGroup absent group labels).1
          (relabelGroup absent' group' labels').1 ∧
        Forall₂ L (relabelGroup absent group labels).2 (relabelGroup absent' group' labels').2)
    (I := fun item => ∀ (item' : Item γ) labels labels', Corresponds D B item item' →
      Forall₂ L labels labels' →
      Corresponds D L (relabel absent item labels).1 (relabel absent' item' labels').1 ∧
        Forall₂ L (relabel absent item labels).2 (relabel absent' item' labels').2)
    ?_ ?_ ?_ ?_ ?_ ?_ ?_ ?_ clause clause' labels labels' corresponds listed
  -- Every part takes its labels from the front, and hands the others on.
  · intro d _ labels labels' related listed
    cases related with | dimension own => exact ⟨.dimension own, listed⟩
  · rintro t _ labels labels' ⟨⟩ listed
    exact ⟨.total t, listed⟩
  · rintro b _ labels labels' ⟨⟩ listed
    cases listed with
    | nil => exact ⟨.binding known, .nil⟩
    | cons label rest => exact ⟨.binding label, rest⟩
  · intro groups inside _ labels labels' related listed
    cases related with
    | axis each =>
      obtain ⟨relabelled, left⟩ := inside _ labels labels' each listed
      exact ⟨.axis relabelled, left⟩
  · rintro _ labels labels' ⟨⟩ listed
    exact ⟨.nil, listed⟩
  · intro group rest inside behind _ labels labels' related listed
    cases related with
    | cons first others =>
      obtain ⟨relabelled, left⟩ := inside _ labels labels' first listed
      obtain ⟨more, last⟩ := behind _ _ _ others left
      exact ⟨.cons relabelled more, last⟩
  · rintro _ labels labels' ⟨⟩ listed
    exact ⟨.nil, listed⟩
  · intro item rest inside behind _ labels labels' related listed
    cases related with
    | cons first others =>
      obtain ⟨relabelled, left⟩ := inside _ labels labels' first listed
      obtain ⟨more, last⟩ := behind _ _ _ others left
      exact ⟨.cons relabelled more, last⟩

end Item

/-! ### Parts -/

abbrev Renames (newName : String → String) (names names' : List String) : Prop :=
  names.map newName = names'

variable {newName : String → String}

theorem contains_map_of_injective (injective : Function.Injective newName) (names : List String)
    (name : String) : (names.map newName).contains (newName name) = names.contains name := by
  rw [Bool.eq_iff_iff, contains_iff_mem, contains_iff_mem, mem_map_of_injective injective]

theorem addNames_map (injective : Function.Injective newName) (names more : List String) :
    addNames (names.map newName) (more.map newName) = (addNames names more).map newName := by
  unfold addNames
  induction more generalizing names with
  | nil => rfl
  | cons name more ih =>
    rw [map_cons, foldl_cons, foldl_cons, contains_map_of_injective injective]
    split
    · exact ih names
    · rw [← ih, map_append, map_singleton]

/-- A relation between nodes that is kept when they are numbered and bound, if the names of measures
are changed. -/
structure Node.Compatible (newName : String → String) (R : Node → Node → Prop) : Prop where
  injective : Function.Injective newName
  leaf : ∀ place label, R ⟨0, place, label, []⟩ ⟨0, place, label, []⟩
  shift : ∀ places node node', R node node' → R (node.shift places) (node'.shift places)
  bind : ∀ names node node', R node node' → R (node.bind names) (node'.bind (names.map newName))

/-- Parts of one form with related nodes, and with names changed. -/
structure Part.Related (newName : String → String) (R : Node → Node → Prop) (part part' : Part) :
    Prop where
  forest : part.forest.Forall₂ R part'.forest
  names : part'.names = part.names.map newName

namespace Part.Related

variable {R : Node → Node → Prop} {left left' right right' : Part} (kept : Node.Compatible newName R)

include kept

private theorem beside (first : left.Related newName R left') (second : right.Related newName R right') :
    (left.beside right).Related newName R (left'.beside right') := by
  unfold Part.beside
  rw [first.names, second.names, first.forest.size_eq, addNames_map kept.injective]
  exact ⟨first.forest.append (second.forest.map (kept.shift _)), rfl⟩

private theorem bind (related : left.Related newName R left') (names : List String) :
    (left.bind names).Related newName R (left'.bind (names.map newName)) := by
  unfold Part.bind
  rw [related.forest.isEmpty_eq, related.names, addNames_map kept.injective]
  split
  · exact ⟨related.forest, rfl⟩
  · exact ⟨related.forest.mapLeaves (kept.bind names), rfl⟩

private theorem nest (first : left.Related newName R left') (second : right.Related newName R right') :
    (left.nest right).Related newName R (left'.nest right') := by
  unfold Part.nest
  rw [first.forest.isEmpty_eq, first.names, second.names, first.forest.size_eq,
    second.forest.size_eq, addNames_map kept.injective]
  split
  · exact ⟨second.forest, rfl⟩
  -- Every leaf gets a copy of the inner forest, whose numbers are shifted.
  · have leaves := first.forest.mapLeaves (kept.bind right.names)
    exact ⟨leaves.graft (fun leaf => second.forest.map (kept.shift _)) 0, rfl⟩

end Part.Related

namespace Item

variable {D : Dimension → Dimension → Prop} {R : Node → Node → Prop} {schema : Schema}
  {measures measures' : List Measure}

private theorem ownNames_related {group group' : Group (List String)}
    (related : Forall₂ (Corresponds D (Renames newName)) group group') :
    ownNames group' = (ownNames group).map newName := by
  unfold ownNames
  induction related with
  | nil => rfl
  | cons first _ ih =>
    rw [flatMap_cons, flatMap_cons, ih, map_append]
    cases first with
    | binding own => rw [← own]
    | _ => rfl

/-- If corresponding dimensions make related nodes, so do corresponding clauses. -/
theorem exists_compileClause_related (kept : Node.Compatible newName R)
    (leaves : ∀ d d' place label, D d d' → compileDimension schema measures d = .ok (.leaf place label) →
      ∃ part', compileDimension schema measures' d' = .ok part' ∧
        (Part.leaf place label).Related newName R part')
    {clause clause' : AxisClause (List String)} {part : Part}
    (corresponds : ClauseCorresponds D (Renames newName) clause clause')
    (built : compileClause schema measures clause = .ok part) :
    ∃ part', compileClause schema measures' clause' = .ok part' ∧ part.Related newName R part' := by
  refine compile_induction
    (C := fun clause part => ∀ clause', ClauseCorresponds D (Renames newName) clause clause' →
      ∃ part', compileClause schema measures' clause' = .ok part' ∧ part.Related newName R part')
    (G := fun group part => ∀ group', Forall₂ (Corresponds D (Renames newName)) group group' →
      ∃ part', compileGroup schema measures' group' = .ok part' ∧ part.Related newName R part')
    (I := fun item part => ∀ item', Corresponds D (Renames newName) item item' →
      ∃ part', compile schema measures' item' = .ok part' ∧ part.Related newName R part')
    ?_ ?_ ?_ ?_ ?_ ?_ ?_ ?_ built clause' corresponds
  · intro d place label built _ related
    cases related with | dimension own => exact leaves d _ place label own built
  · rintro t place label built _ ⟨⟩
    exact ⟨_, built, .cons (kept.leaf place label) .nil .nil, rfl⟩
  · intro groups part inside _ related
    cases related with | axis each => exact inside _ each
  · rintro _ ⟨⟩
    exact ⟨.empty, rfl, .nil, rfl⟩
  · intro group rest first others inside behind _ related
    cases related with
    | cons one more =>
      obtain ⟨first', builtFirst, relatedFirst⟩ := inside _ one
      obtain ⟨others', builtRest, relatedRest⟩ := behind _ more
      refine ⟨_, bind_eq_ok.mpr ⟨first', builtFirst, bind_eq_ok.mpr ⟨others', builtRest, rfl⟩⟩, ?_⟩
      rw [ownNames_related one]
      exact (relatedFirst.bind kept _).beside kept relatedRest
  · rintro _ ⟨⟩
    exact ⟨.empty, rfl, .nil, rfl⟩
  · intro names rest part behind _ related
    cases related with
    | cons one more =>
      obtain ⟨part', built', relatedRest⟩ := behind _ more
      cases one
      exact ⟨part', built', relatedRest⟩
  · intro item rest first others other inside behind _ related
    cases related with
    | cons one more =>
      obtain ⟨first', builtFirst, relatedFirst⟩ := inside _ one
      obtain ⟨others', builtRest, relatedRest⟩ := behind _ more
      refine ⟨first'.nest others', ?_, relatedFirst.nest kept relatedRest⟩
      rw [compileGroup_of_not_binding]
      · exact bind_eq_ok.mpr ⟨first', builtFirst, bind_eq_ok.mpr ⟨others', builtRest, rfl⟩⟩
      · rintro ⟨names, rfl⟩
        cases one
        exact other ⟨_, rfl⟩

end Item

end Crosstab
