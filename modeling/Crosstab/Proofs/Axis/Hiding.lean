import Crosstab.Proofs.Axis.Names
import Mathlib.Data.List.TakeDrop

/-!
# Bindings that hide others

The deepest binding on a branch hides those further out. No name that a clause holds is lost: it is
bound to some node or to the axis as a whole.
-/
namespace Crosstab

open List Outcome Forest Crosstab.Measure

/-! ### Names reach the axis -/

namespace Forest

variable {α : Type} {f : α → α} {forest : Forest α}

private theorem mem_walk_mapLeaves {node : α} (member : node ∈ forest.walk) :
    node ∈ (forest.mapLeaves f).walk ∨ f node ∈ (forest.mapLeaves f).walk := by
  induction forest with
  | nil => cases member
  | cons first children siblings below beside =>
    rw [walk, mem_cons, mem_append] at member
    rw [mapLeaves_cons, walk]
    simp only [mem_cons, mem_append]
    rcases member with rfl | inside | after
    · split
      · exact .inr (.inl rfl)
      · exact .inl (.inl rfl)
    · exact (below inside).imp (fun there => .inr (.inl there)) fun there => .inr (.inl there)
    · exact (beside after).imp (fun there => .inr (.inr there)) fun there => .inr (.inr there)

private theorem exists_leaf_mapLeaves (f : α → α) (inhabited : forest.isEmpty = false) :
    ∃ leaf, f leaf ∈ (forest.mapLeaves f).walk := by
  induction forest with
  | nil => cases inhabited
  | cons first children siblings below _ =>
    rw [mapLeaves_cons, walk]
    by_cases leaf : children.isEmpty
    · exact ⟨first, by simp [leaf]⟩
    · obtain ⟨node, there⟩ := below (by simpa using leaf)
      exact ⟨node, by simp [there]⟩

private theorem leafCount_pos (inhabited : forest.isEmpty = false) : 0 < forest.leafCount := by
  rw [← length_branches, length_pos_iff, Ne, branches_eq_nil, ← isEmpty_iff, inhabited]
  simp

end Forest

namespace Part

/-- A name is bound at a node, or passed up. -/
def Holds (part : Part) (name : String) : Prop :=
  name ∈ part.names ∨ ∃ node ∈ part.forest.walk, name ∈ node.measures

variable {left right part : Part} {name : String}

private theorem holds_beside (held : left.Holds name ∨ right.Holds name) :
    (left.beside right).Holds name := by
  unfold Holds beside
  rw [mem_addNames, walk_append, walk_map]
  rcases held with (passed | ⟨node, there, own⟩) | passed | ⟨node, there, own⟩
  · exact .inl (.inl passed)
  · exact .inr ⟨node, mem_append_left _ there, own⟩
  · exact .inl (.inr passed)
  · exact .inr ⟨_, mem_append_right _ (mem_map_of_mem there), own⟩

variable {forest : Forest Node} {names : List String}

/-- Names that a forest holds are still there when others are bound to its leaves. -/
theorem exists_bound_mapLeaves {node : Node} (there : node ∈ forest.walk)
    (own : name ∈ node.measures) (names : List String) :
    ∃ node ∈ (forest.mapLeaves (Node.bind names)).walk, name ∈ node.measures := by
  rcases mem_walk_mapLeaves (f := Node.bind names) there with same | bound
  · exact ⟨node, same, own⟩
  · exact ⟨_, bound, mem_addNames.mpr (.inl own)⟩

theorem exists_bound_leaf (inhabited : forest.isEmpty = false) (new : name ∈ names) :
    ∃ node ∈ (forest.mapLeaves (Node.bind names)).walk, name ∈ node.measures := by
  obtain ⟨leaf, there⟩ := exists_leaf_mapLeaves (Node.bind names) inhabited
  exact ⟨_, there, mem_addNames.mpr (.inr new)⟩

private theorem holds_bind (held : part.Holds name ∨ name ∈ names) : (part.bind names).Holds name := by
  unfold bind
  split
  next =>
    rcases held with (passed | nodes) | new
    · exact .inl (mem_addNames.mpr (.inl passed))
    · exact .inr nodes
    · exact .inl (mem_addNames.mpr (.inr new))
  next inhabited =>
    rcases held with (passed | ⟨node, there, own⟩) | new
    · exact .inl passed
    · exact .inr (exists_bound_mapLeaves there own names)
    · exact .inr (exists_bound_leaf (by simpa using inhabited) new)

private theorem holds_nest (held : left.Holds name ∨ right.Holds name) :
    (left.nest right).Holds name := by
  unfold nest
  split
  next empty =>
    -- A part without nodes holds only what it passes up.
    rcases held with (passed | ⟨node, there, _⟩) | passed | nodes
    · exact .inl (mem_addNames.mpr (.inl passed))
    · rw [isEmpty_iff.mp empty] at there
      cases there
    · exact .inl (mem_addNames.mpr (.inr passed))
    · exact .inr nodes
  next inhabited =>
    have inhabited : left.forest.isEmpty = false := by simpa using inhabited
    have kept {node : Node}
        (there : node ∈ (left.forest.mapLeaves (Node.bind right.names)).walk) :=
      fun copy : Nat → Forest Node => (walk_graft copy 0 _).mem_iff.mpr
        (mem_append_left _ there)
    rcases held with (passed | ⟨node, there, own⟩) | passed | ⟨node, there, own⟩
    · exact .inl passed
    · obtain ⟨node, there, own⟩ := exists_bound_mapLeaves there own right.names
      exact .inr ⟨node, kept there _, own⟩
    · obtain ⟨node, there, own⟩ := exists_bound_leaf inhabited passed
      exact .inr ⟨node, kept there _, own⟩
    · -- There is a first leaf, and a copy of the right part below it.
      refine .inr ⟨node.shift (left.forest.size + 0 * right.forest.size),
        (walk_graft _ 0 _).mem_iff.mpr (mem_append_right _ ?_), own⟩
      refine mem_flatMap.mpr ⟨0, ?_, ?_⟩
      · rw [mem_range'_1]
        exact ⟨Nat.le_refl 0, by
          simpa using leafCount_pos (by rw [isEmpty_mapLeaves]; exact inhabited)⟩
      · rw [walk_map]
        exact mem_map_of_mem there

end Part

namespace Item

variable {schema : Schema} {measures : List Measure} {name : String}

private theorem mem_ownNames_cons {item : Item (List String)} {rest : Group (List String)} :
    name ∈ ownNames (item :: rest) ↔
      (∃ names, item = .binding names ∧ name ∈ names) ∨ name ∈ ownNames rest := by
  unfold ownNames
  rw [flatMap_cons, mem_append]
  cases item <;> simp

/-- Names bound directly in a group are bound by the clause around it. -/
theorem compileClause_holds {clause : AxisClause (List String)} {part : Part}
    (built : compileClause schema measures clause = .ok part) {names : List String}
    (bound : names ∈ clauseBindings clause) (within : name ∈ names) : part.Holds name := by
  refine compile_induction (C := fun clause part => names ∈ clauseBindings clause → part.Holds name)
    (G := fun group part => names ∈ groupBindings group → name ∈ ownNames group ∨ part.Holds name)
    (I := fun item part => names ∈ bindings item → part.Holds name) ?_ ?_ ?_ ?_ ?_ ?_ ?_ ?_ built bound
  · exact fun _ _ _ _ bound => absurd bound not_mem_nil
  · exact fun _ _ _ _ bound => absurd bound not_mem_nil
  · exact fun _ _ inside bound => inside bound
  · exact fun bound => absurd bound not_mem_nil
  · intro group rest first others inside behind bound
    rw [clauseBindings, mem_append] at bound
    rcases bound with here | later
    · exact Part.holds_beside (.inl (Part.holds_bind (inside here).symm))
    · exact Part.holds_beside (.inr (behind later))
  · exact fun bound => absurd bound not_mem_nil
  · intro own rest part behind bound
    rw [groupBindings, bindings, mem_append, mem_singleton] at bound
    rw [mem_ownNames_cons]
    rcases bound with rfl | later
    · exact .inl (.inl ⟨names, rfl, within⟩)
    · exact (behind later).imp_left .inr
  · intro item rest first others _ inside behind bound
    rw [groupBindings, mem_append] at bound
    rw [mem_ownNames_cons]
    rcases bound with here | later
    · exact .inr (Part.holds_nest (.inl (inside here)))
    · exact (behind later).imp .inr fun held => Part.holds_nest (.inr held)

/-! ### Labels -/

variable {β γ : Type} (absent : γ)

theorem clauseBindings_relabelClause {clause : AxisClause β} {labels : List γ}
    (enough : (clauseBindings clause).length ≤ labels.length) :
    clauseBindings (relabelClause absent clause labels).1 =
        labels.take (clauseBindings clause).length ∧
      (relabelClause absent clause labels).2 = labels.drop (clauseBindings clause).length := by
  rw [← takeD_eq_take absent enough]
  exact givesOut_relabelClause clause labels

theorem clauseBindings_relabel_of_length {clause : Option (AxisClause β)} {labels : List γ}
    (length : labels.length = (clauseBindings (clause.getD [])).length) :
    clauseBindings ((clause.map fun clause => (relabelClause absent clause labels).1).getD []) =
      labels := by
  cases clause with
  | none => exact (eq_nil_of_length_eq_zero length).symm
  | some clause =>
    rw [Option.getD_some] at length
    rw [Option.map_some, Option.getD_some,
      (clauseBindings_relabelClause absent (Nat.le_of_eq length.symm)).1, take_of_length_le]
    exact Nat.le_of_eq length

end Item

/-! ### Names of bindings -/

namespace Measure

variable {schema : Schema}

variable {before after : List Measure} {bindings : List Binding} {bound : List (List String)}

theorem length_of_bindAll (returned : bindAll schema before bindings = .ok (after, bound)) :
    bound.length = bindings.length := by
  induction bindings generalizing before bound with
  | nil =>
    cases returned
    rfl
  | cons binding rest ih =>
    obtain ⟨across, middle, names, others, _, _, one, later, rfl⟩ := bindAll_cons_iff.mp returned
    rw [length_cons, ih later, length_cons]

/-- A binding has an aggregation, and an aggregation has a measure. -/
theorem ne_nil_of_bindAll (returned : bindAll schema before bindings = .ok (after, bound))
    (requested : bindings ≠ []) : after ≠ [] := by
  cases bindings with
  | nil => exact absurd rfl requested
  | cons binding rest =>
    obtain ⟨across, middle, names, others, some, _, one, later, rfl⟩ := bindAll_cons_iff.mp returned
    cases listed : binding.aggregations with
    | nil => exact absurd (isEmpty_iff.mpr listed) some
    | cons aggregation rest =>
      rw [listed] at one
      obtain ⟨identity, others, _, more, rfl⟩ := bindAggregations_cons_iff.mp one
      have told := (mem_names_bindAggregations more).mpr (.inl (mem_names_adjoin.mpr (.inr rfl)))
      have kept := (mem_names_bindAll later).mpr (.inl told)
      rintro rfl
      cases kept

end Measure

/-! ### Bindings along branches -/

namespace Axis

/-- The bindings along a branch, from the axis as a whole down to the leaf. -/
def bindingsAlong (axis : Axis) (branch : List Node) : List (List String) :=
  axis.measures :: branch.map Node.measures

/-- Wherever along the branch the name is bound, something is bound further down. -/
def Hides (axis : Axis) (branch : List Node) (name : String) : Prop :=
  ∀ outer names inner, axis.bindingsAlong branch = outer ++ names :: inner → name ∈ names →
    ∃ deeper ∈ inner, deeper ≠ []

/-- What a branch shows is bound to it at a place below which nothing is bound. -/
theorem exists_branchMeasures (axis : Axis) (branch : List Node) :
    ∃ outer inner, axis.bindingsAlong branch = outer ++ axis.branchMeasures branch :: inner ∧
      (∀ deeper ∈ inner, deeper = []) ∧
      (axis.branchMeasures branch = [] → ∀ names ∈ outer, names = []) := by
  unfold branchMeasures bindingsAlong
  split
  next node deepest =>
    -- The search runs up from the leaf, so what it passed stands below what it found.
    obtain ⟨bound, after, before, reversed, free⟩ := find?_eq_some_iff_append.mp deepest
    have along : branch = before.reverse ++ node :: after.reverse := by
      rw [← reverse_reverse branch, reversed]
      simp
    refine ⟨axis.measures :: before.reverse.map Node.measures, after.reverse.map Node.measures,
      by rw [along]; simp, ?_, fun none => by simp [none] at bound⟩
    intro deeper listed
    obtain ⟨other, there, rfl⟩ := mem_map.mp listed
    simpa using free other (mem_reverse.mp there)
  next free =>
    refine ⟨[], branch.map Node.measures, rfl, ?_, by simp⟩
    intro deeper listed
    obtain ⟨other, there, rfl⟩ := mem_map.mp listed
    simpa using find?_eq_none.mp free other (mem_reverse.mpr there)

variable {axis : Axis} {branch : List Node}

/-- The names that a branch shows are those that are bound and not hidden on it. -/
theorem mem_branchMeasures_iff {name : String} :
    name ∈ axis.branchMeasures branch ↔ ¬axis.Hides branch name := by
  obtain ⟨outer, inner, along, free, unbound⟩ := axis.exists_branchMeasures branch
  constructor
  · intro shown hides
    obtain ⟨deeper, listed, bound⟩ := hides _ _ _ along shown
    exact bound (free deeper listed)
  · intro notHidden
    by_contra missing
    refine notHidden fun outer' names inner' split own => ?_
    -- The place of the name is not the shown one, so it is above it: below it nothing is bound.
    rcases append_eq_append_iff.mp (along.symm.trans split) with
      ⟨between, rfl, rest⟩ | ⟨between, rfl, rest⟩
    · cases between with
      | nil =>
        cases rest
        exact absurd own missing
      | cons first between =>
        cases rest
        rw [free names (by simp)] at own
        cases own
    · cases between with
      | nil =>
        cases rest
        exact absurd own missing
      | cons first between =>
        cases rest
        refine ⟨axis.branchMeasures branch, by simp, fun none => ?_⟩
        rw [unbound none names (by simp)] at own
        cases own

theorem branchMeasures_eq_nil_iff :
    axis.branchMeasures branch = [] ↔ ∀ names ∈ axis.bindingsAlong branch, names = [] := by
  obtain ⟨outer, inner, along, free, unbound⟩ := axis.exists_branchMeasures branch
  rw [along]
  constructor
  · intro none names listed
    rcases mem_append.mp listed with above | here
    · exact unbound none names above
    · rcases mem_cons.mp here with rfl | below
      · exact none
      · exact free names below
  · intro all
    exact all _ (by simp)

end Axis

/-- A name held by the part of a clause is bound on some branch of the axis. -/
theorem Axis.exists_bindingsAlong {schema : Schema} {measures : List Measure}
    {clause : Option (AxisClause (List String))} {axis : Axis}
    (built : Axis.ofClause schema measures clause = .ok axis) {names : List String}
    (held : names ∈ Item.clauseBindings (clause.getD [])) {name : String} (within : name ∈ names) :
    ∃ branch ∈ axis.branches, ∃ bound ∈ axis.bindingsAlong branch, name ∈ bound := by
  obtain ⟨part, compiled, rfl⟩ := Axis.ofClause_eq_ok built
  rcases Item.compileClause_holds compiled held within with passed | ⟨node, there, own⟩
  -- Names that no node took are bound to the axis as a whole, and so to every branch.
  · obtain ⟨branch, rest, branches⟩ := exists_cons_of_ne_nil
      (Axis.branches_ne_nil ⟨part.forest, part.names⟩)
    exact ⟨branch, by rw [branches]; exact mem_cons_self, part.names, mem_cons_self, passed⟩
  · obtain ⟨branch, along, on⟩ := exists_branch_of_mem_walk there
    refine ⟨branch, ?_, node.measures, mem_cons_of_mem _ (mem_map_of_mem on), own⟩
    unfold Axis.branches Axis.isEmpty
    rw [if_neg]
    · exact along
    · intro empty
      rw [show part.forest = .nil from isEmpty_iff.mp empty] at there
      cases there

end Crosstab
