import Crosstab.Proofs.Axis.Clause
import Crosstab.Proofs.Distinct
import Crosstab.Proofs.Measure.Binding
import Crosstab.Proofs.Statement.Compilation

/-!
# Names bound on axes

Names are only collected and passed on from a clause to its axis. In a compiled table all of them
are names of its measures.
-/
namespace Crosstab

open List Outcome Forest

/-! ### Parts -/

private theorem Forest.exists_of_mem_walk_mapLeaves {α : Type} {f : α → α} {forest : Forest α} {node : α}
    (member : node ∈ (forest.mapLeaves f).walk) :
    ∃ other ∈ forest.walk, node = other ∨ node = f other := by
  induction forest with
  | nil => cases member
  | cons first children siblings below beside =>
    rw [mapLeaves_cons, walk, mem_cons, mem_append] at member
    rw [walk]
    rcases member with rfl | inside | after
    · refine ⟨first, mem_cons_self, ?_⟩
      split
      · exact .inr rfl
      · exact .inl rfl
    · obtain ⟨other, there, same⟩ := below inside
      exact ⟨other, by simp [there], same⟩
    · obtain ⟨other, there, same⟩ := beside after
      exact ⟨other, by simp [there], same⟩

variable {name : String} {schema : Schema} {branch : List Node}

theorem mem_addNames {names more : List String} :
    name ∈ addNames names more ↔ name ∈ names ∨ name ∈ more := mem_adjoinAll

theorem addNames_append (names first second : List String) :
    addNames names (first ++ second) = addNames (addNames names first) second :=
  foldl_append

theorem addNames_of_mem {names : List String} {name : String} (known : name ∈ names) :
    addNames names [name] = names := by
  simp [addNames, known]

namespace Part

/-- All names of a part, at its nodes and passed up, are of one kind. -/
structure HasNames (P : String → Prop) (part : Part) : Prop where
  nodes : ∀ node ∈ part.forest.walk, ∀ name ∈ node.measures, P name
  passed : ∀ name ∈ part.names, P name

namespace HasNames

variable {P : String → Prop} {left right part : Part}

private theorem empty : HasNames P .empty := ⟨by simp [Part.empty, walk], by simp [Part.empty]⟩

private theorem leaf (place : Place) (label : Value) : HasNames P (.leaf place label) :=
  ⟨by simp [Part.leaf, walk], by simp [Part.leaf]⟩

variable {names : List String} {forest : Forest Node}

private theorem of_addNames {more : List String} (old : ∀ name ∈ names, P name)
    (new : ∀ name ∈ more, P name) : ∀ name ∈ addNames names more, P name := by
  intro name member
  rcases mem_addNames.mp member with known | added
  · exact old name known
  · exact new name added

private theorem of_mapLeaves (new : ∀ name ∈ names, P name)
    (old : ∀ node ∈ forest.walk, ∀ name ∈ node.measures, P name) :
    ∀ node ∈ (forest.mapLeaves (Node.bind names)).walk, ∀ name ∈ node.measures, P name := by
  intro node member
  obtain ⟨other, there, rfl | rfl⟩ := exists_of_mem_walk_mapLeaves member
  · exact old _ there
  · exact of_addNames (old other there) new

private theorem of_shift {places : Nat} (old : ∀ node ∈ forest.walk, ∀ name ∈ node.measures, P name) :
    ∀ node ∈ (forest.map (Node.shift places)).walk, ∀ name ∈ node.measures, P name := by
  intro node member
  rw [walk_map] at member
  obtain ⟨other, there, rfl⟩ := mem_map.mp member
  exact old other there

private theorem beside (first : HasNames P left) (second : HasNames P right) :
    HasNames P (left.beside right) where
  nodes node member := by
    rw [Part.beside, walk_append, mem_append] at member
    rcases member with before | behind
    · exact first.nodes node before
    · exact of_shift second.nodes node behind
  passed := of_addNames first.passed second.passed

private theorem bind (old : HasNames P part) (new : ∀ name ∈ names, P name) :
    HasNames P (part.bind names) := by
  unfold Part.bind
  split
  · exact ⟨old.nodes, of_addNames old.passed new⟩
  · exact ⟨of_mapLeaves new old.nodes, old.passed⟩

private theorem nest (first : HasNames P left) (second : HasNames P right) :
    HasNames P (left.nest right) := by
  unfold Part.nest
  split
  · exact ⟨second.nodes, of_addNames first.passed second.passed⟩
  · refine ⟨fun node member => ?_, first.passed⟩
    -- The names of the right part go to the leaves of the left one, and its nodes below them.
    rw [(walk_graft _ 0 _).mem_iff, mem_append, mem_flatMap] at member
    rcases member with own | ⟨position, _, copied⟩
    · exact of_mapLeaves second.passed first.nodes node own
    · exact of_shift second.nodes node copied

end HasNames

end Part

/-! ### Clauses -/

namespace Item

variable {P : String → Prop} {schema : Schema} {measures : List Measure}

private theorem ownNames_subset {group : Group (List String)} {name : String}
    (member : name ∈ ownNames group) : ∃ names ∈ groupBindings group, name ∈ names := by
  obtain ⟨item, inside, within⟩ := mem_flatMap.mp member
  induction group with
  | nil => cases inside
  | cons first rest ih =>
    rw [groupBindings]
    rcases mem_cons.mp inside with rfl | later
    · cases item with
      | binding names => exact ⟨names, by simp [bindings], within⟩
      | _ => cases within
    · obtain ⟨names, there, own⟩ := ih (mem_flatMap.mpr ⟨item, later, within⟩) later
      exact ⟨names, mem_append_right _ there, own⟩

private theorem compileClause_hasNames {clause : AxisClause (List String)} {part : Part}
    (held : ∀ names ∈ clauseBindings clause, ∀ name ∈ names, P name)
    (built : compileClause schema measures clause = .ok part) : part.HasNames P := by
  refine compile_induction
    (C := fun clause part => (∀ names ∈ clauseBindings clause, ∀ name ∈ names, P name) → part.HasNames P)
    (G := fun group part => (∀ names ∈ groupBindings group, ∀ name ∈ names, P name) → part.HasNames P)
    (I := fun item part => (∀ names ∈ bindings item, ∀ name ∈ names, P name) → part.HasNames P)
    ?_ ?_ ?_ (fun _ => .empty) ?_ (fun _ => .empty) ?_ ?_ built held
  · exact fun _ place label _ _ => .leaf place label
  · exact fun _ place label _ _ => .leaf place label
  · exact fun _ _ inside held => inside held
  · intro group rest first others inside behind held
    rw [clauseBindings, forall_mem_append] at held
    refine ((inside held.1).bind fun name own => ?_).beside (behind held.2)
    obtain ⟨names, there, within⟩ := ownNames_subset own
    exact held.1 names there name within
  · intro names rest part behind held
    rw [groupBindings, forall_mem_append] at held
    exact behind held.2
  · intro item rest first others _ inside behind held
    rw [groupBindings, forall_mem_append] at held
    exact (inside held.1).nest (behind held.2)

/-! ### Labels -/

variable {β γ : Type} {Q : γ → Prop} {absent : γ} {labels own left others last : List γ} {m n : Nat}

/-- So many labels are given out in order, and the rest is passed on. -/
def GivesOut (absent : γ) (labels : List γ) (n : Nat) (given left : List γ) : Prop :=
  given = takeD n labels absent ∧ left = labels.drop n

private theorem GivesOut.append (first : GivesOut absent labels m own left)
    (second : GivesOut absent left n others last) :
    GivesOut absent labels (m + n) (own ++ others) last := by
  obtain ⟨rfl, rfl⟩ := first
  obtain ⟨rfl, rfl⟩ := second
  refine ⟨?_, drop_drop⟩
  induction m generalizing labels with
  | zero => simp
  | succ m ih => rw [Nat.succ_add, takeD_succ, takeD_succ, cons_append, ← drop_tail, ih]

private theorem GivesOut.forall_mem (gives : GivesOut absent labels n own left) (known : Q absent)
    (listed : ∀ label ∈ labels, Q label) : (∀ label ∈ own, Q label) ∧ ∀ label ∈ left, Q label := by
  obtain ⟨rfl, rfl⟩ := gives
  refine ⟨?_, fun label member => listed label (mem_of_mem_drop member)⟩
  induction n generalizing labels with
  | zero => simp
  | succ n ih =>
    rw [takeD_succ, forall_mem_cons]
    cases labels with
    | nil => exact ⟨known, ih (by simp)⟩
    | cons label labels => exact ⟨listed label mem_cons_self, ih (forall_mem_cons.mp listed).2⟩

/-- Labels take the place of bindings. -/
theorem givesOut_relabelClause (clause : AxisClause β) : ∀ labels,
    GivesOut absent labels (clauseBindings clause).length
      (clauseBindings (relabelClause absent clause labels).1)
      (relabelClause absent clause labels).2 := by
  refine clause_induction (C := fun clause : AxisClause β => ∀ labels,
      GivesOut absent labels (clauseBindings clause).length
        (clauseBindings (relabelClause absent clause labels).1) (relabelClause absent clause labels).2)
    (G := fun group : Group β => ∀ labels, GivesOut absent labels (groupBindings group).length
      (groupBindings (relabelGroup absent group labels).1) (relabelGroup absent group labels).2)
    (I := fun item : Item β => ∀ labels, GivesOut absent labels (bindings item).length
      (bindings (relabel absent item labels).1) (relabel absent item labels).2)
    (fun _ _ => ⟨rfl, rfl⟩) (fun _ _ => ⟨rfl, rfl⟩) ?_ (fun _ inside => inside)
    (fun _ => ⟨rfl, rfl⟩) ?_ (fun _ => ⟨rfl, rfl⟩) ?_ clause
  · intro _ labels
    cases labels <;> exact ⟨rfl, rfl⟩
  · intro group rest inside behind labels
    rw [relabelClause, clauseBindings, clauseBindings, length_append]
    exact (inside labels).append (behind _)
  · intro item rest inside behind labels
    rw [relabelGroup, groupBindings, groupBindings, length_append]
    exact (inside labels).append (behind _)

end Item

/-! ### Names of measures -/

namespace Measure

variable {schema : Schema}

variable {before after : List Measure} {name : String}

theorem mem_names_adjoin {identity : MeasureIdentity} :
    name ∈ (adjoin before identity).1.map Measure.name ↔
      name ∈ before.map Measure.name ∨ name = (adjoin before identity).2 := by
  unfold adjoin
  split
  next measure found =>
    refine (or_iff_left_of_imp ?_).symm
    rintro rfl
    exact mem_map_of_mem (mem_of_find?_eq_some found)
  · simp [MeasureIdentity.toMeasure]

theorem mem_names_bindAggregations {binding : Binding} {across : Option Side}
    {aggregations : List Aggregation} {names : List String}
    (bound : bindAggregations schema binding across before aggregations = .ok (after, names)) :
    name ∈ after.map Measure.name ↔ name ∈ before.map Measure.name ∨ name ∈ names := by
  induction aggregations generalizing before names with
  | nil =>
    cases bound
    simp
  | cons aggregation rest ih =>
    obtain ⟨identity, others, _, later, rfl⟩ := bindAggregations_cons_iff.mp bound
    rw [ih later, mem_names_adjoin, mem_cons, or_assoc]

theorem mem_names_bindAll {bindings : List Binding} {bound : List (List String)}
    (returned : bindAll schema before bindings = .ok (after, bound)) :
    name ∈ after.map Measure.name ↔ name ∈ before.map Measure.name ∨ name ∈ bound.flatten := by
  induction bindings generalizing before bound with
  | nil =>
    cases returned
    simp
  | cons binding rest ih =>
    obtain ⟨across, middle, names, others, _, _, one, later, rfl⟩ := bindAll_cons_iff.mp returned
    rw [ih later, mem_names_bindAggregations one, flatten_cons, mem_append, or_assoc]

end Measure

/-! ### Compiled tables -/

theorem Axis.names_of_ofClause {P : String → Prop} {measures : List Measure}
    {clause : Option (AxisClause (List String))} {axis : Axis}
    (held : ∀ names ∈ Item.clauseBindings (clause.getD []), ∀ name ∈ names, P name)
    (built : Axis.ofClause schema measures clause = .ok axis) (member : branch ∈ axis.branches)
    (bound : name ∈ axis.branchMeasures branch) : P name := by
  obtain ⟨part, compiled, rfl⟩ := Axis.ofClause_eq_ok built
  have named := Item.compileClause_hasNames held compiled
  unfold Axis.branchMeasures at bound
  split at bound
  next node deepest =>
    have along : node ∈ branch := mem_reverse.mp (mem_of_find?_eq_some deepest)
    unfold Axis.branches at member
    -- The branch of an empty axis has no nodes.
    split at member
    · rw [mem_singleton.mp member] at along
      cases along
    · exact named.nodes node (mem_walk_of_mem_branches member along) name bound
  · exact named.passed name bound

/-- What holds of the names and of no names holds of all that a clause has in place of bindings. -/
theorem Statement.forall_mem_named (statement : Statement) {Q : List String → Prop} (absent : Q [])
    {names : List (List String)} (known : ∀ labels ∈ names, Q labels) (side : Side) :
    ∀ labels ∈ Item.clauseBindings ((statement.named names side).getD []), Q labels := by
  obtain ⟨inRows, left⟩ := (Item.givesOut_relabelClause statement.rows names).forall_mem absent known
  cases side with
  | rows => exact inRows
  | cols =>
    unfold Statement.named
    cases statement.cols with
    | none => simp [Item.clauseBindings]
    | some clause => exact ((Item.givesOut_relabelClause clause _).forall_mem absent left).1

/-- The names bound along the branches of a compiled table are names of its measures. -/
theorem Table.branchMeasures_subset {includeNulls : Value} {statement : Statement} {table : Table}
    (compiled : Table.compile schema includeNulls statement = .ok table) {side : Side}
    (member : branch ∈ (table.axis side).branches) :
    (table.axis side).branchMeasures branch ⊆ table.measures.map Measure.name := by
  obtain ⟨measures, names, made⟩ := compile_eq_ok_iff.mp compiled
  have known : ∀ labels ∈ names, ∀ name ∈ labels, name ∈ table.measures.map Measure.name := by
    intro labels there name within
    have listed := (Measure.mem_names_bindAll made.bound).mpr (.inr (mem_flatten_of_mem there within))
    rw [made.measures, Measure.orRowCount]
    split
    -- Without measures no binding has a name, and rows are counted instead.
    next none =>
      rw [isEmpty_iff.mp none] at listed
      cases listed
    · exact listed
  intro name within
  exact Axis.names_of_ofClause (statement.forall_mem_named (by simp) known side) (made.axis side)
    member within

end Crosstab
