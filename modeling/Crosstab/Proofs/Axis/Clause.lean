import Crosstab.Proofs.Forest
import Crosstab.Proofs.Outcome
import Mathlib.Data.List.Nodup
import Mathlib.Data.List.Perm.Basic

/-!
# Clauses and their parts

Clauses, groups and items are defined through one another, so one induction serves all three. The
nodes of the parts are numbered from zero, each number once.
-/
namespace Crosstab

open Outcome

namespace Item

/-- Induction over a clause, its groups and their items. -/
theorem clause_induction {β : Type} {C : AxisClause β → Prop} {G : Group β → Prop}
    {I : Item β → Prop} (dimension : ∀ d, I (.dimension d)) (total : ∀ t, I (.total t))
    (binding : ∀ b, I (.binding b)) (axis : ∀ groups, C groups → I (.axis groups)) (noGroup : C [])
    (group : ∀ group rest, G group → C rest → C (group :: rest)) (noItem : G [])
    (item : ∀ item rest, I item → G rest → G (item :: rest)) (clause : AxisClause β) : C clause :=
  Item.rec_1 dimension total binding axis noGroup group noItem item clause

variable {schema : Schema} {measures : List Measure} {part : Part}

theorem compileGroup_of_not_binding {item : Item (List String)} {rest : Group (List String)}
    (other : ¬ ∃ names, item = .binding names) :
    compileGroup schema measures (item :: rest) = do
      let first ← compile schema measures item
      let rest ← compileGroup schema measures rest
      return first.nest rest := by
  cases item with
  | binding names => exact absurd ⟨names, rfl⟩ other
  | _ => rw [compileGroup]; simp

private theorem exists_leaf_of_compileDimension {d : Dimension}
    (built : compileDimension schema measures d = .ok part) :
    ∃ place label, part = .leaf place label := by
  obtain ⟨named, _, built⟩ := bind_eq_ok.mp built
  cases named with
  | none => cases built
  | some field =>
    obtain ⟨order, _, built⟩ := bind_eq_ok.mp built
    cases built
    exact ⟨_, _, rfl⟩

private theorem exists_leaf_of_compileTotal {t : Total} (built : compileTotal t = .ok part) :
    ∃ place label, part = .leaf place label := by
  unfold compileTotal at built
  split at built
  · cases built
  · cases built
    exact ⟨_, _, rfl⟩

/-- Induction over a clause that was compiled. A binding makes no part: its names are bound by the
clause around its group. -/
theorem compile_induction {C : AxisClause (List String) → Part → Prop}
    {G : Group (List String) → Part → Prop} {I : Item (List String) → Part → Prop}
    (dimension : ∀ d place label, compileDimension schema measures d = .ok (.leaf place label) →
      I (.dimension d) (.leaf place label))
    (total : ∀ t place label, compileTotal t = .ok (.leaf place label) →
      I (.total t) (.leaf place label))
    (axis : ∀ groups part, C groups part → I (.axis groups) part) (noGroup : C [] .empty)
    (group : ∀ group rest first others, G group first → C rest others →
      C (group :: rest) ((first.bind (ownNames group)).beside others)) (noItem : G [] .empty)
    (binding : ∀ names rest part, G rest part → G (.binding names :: rest) part)
    (item : ∀ item rest first others, (¬ ∃ names, item = .binding names) → I item first →
      G rest others → G (item :: rest) (first.nest others))
    {clause : AxisClause (List String)} (built : compileClause schema measures clause = .ok part) :
    C clause part := by
  refine clause_induction (C := fun clause => ∀ part, compileClause schema measures clause = .ok part →
      C clause part) (G := fun group => ∀ part, compileGroup schema measures group = .ok part →
      G group part) (I := fun item => (¬ ∃ names, item = .binding names) → ∀ part,
      compile schema measures item = .ok part → I item part) ?_ ?_ ?_ ?_ ?_ ?_ ?_ ?_ clause part built
  · intro d _ part built
    obtain ⟨place, label, rfl⟩ := exists_leaf_of_compileDimension built
    exact dimension d place label built
  · intro t _ part built
    obtain ⟨place, label, rfl⟩ := exists_leaf_of_compileTotal built
    exact total t place label built
  · exact fun names other => absurd ⟨names, rfl⟩ other
  · exact fun groups ih _ part built => axis groups part (ih part built)
  · rintro _ ⟨⟩
    exact noGroup
  · intro _ rest inside behind part built
    obtain ⟨first, builtFirst, built⟩ := bind_eq_ok.mp built
    obtain ⟨others, builtRest, built⟩ := bind_eq_ok.mp built
    cases built
    exact group _ rest first others (inside first builtFirst) (behind others builtRest)
  · rintro _ ⟨⟩
    exact noItem
  · intro one rest inside behind part built
    by_cases passed : ∃ names, one = .binding names
    · obtain ⟨names, rfl⟩ := passed
      exact binding names rest part (behind part built)
    · rw [compileGroup_of_not_binding passed] at built
      obtain ⟨first, builtFirst, built⟩ := bind_eq_ok.mp built
      obtain ⟨others, builtRest, built⟩ := bind_eq_ok.mp built
      cases built
      exact item one rest first others passed (inside passed first builtFirst) (behind others builtRest)

end Item

theorem Axis.ofClause_eq_ok {schema : Schema} {measures : List Measure}
    {clause : Option (AxisClause (List String))} {axis : Axis}
    (built : Axis.ofClause schema measures clause = .ok axis) :
    ∃ part, Item.compileClause schema measures (clause.getD []) = .ok part ∧
      axis = ⟨part.forest, part.names⟩ := by
  obtain ⟨part, compiled, built⟩ := bind_eq_ok.mp built
  exact ⟨part, compiled, (pure_eq_ok.mp built).symm⟩

open List

/-! ### Numbers of nodes -/

/-- The numbers of the nodes of a forest. -/
def Forest.ids (forest : Forest Node) : List Nat := forest.walk.map Node.id

/-- The nodes are numbered from zero, in some order. -/
def Forest.IsNumbered (forest : Forest Node) : Prop := forest.ids.Perm (List.range forest.size)

namespace Forest

theorem ids_shift (places : Nat) (forest : Forest Node) :
    (forest.map (Node.shift places)).ids = forest.ids.map (places + ·) := by
  rw [ids, walk_map, map_map, ids, map_map]
  rfl

theorem ids_bind (names : List String) (forest : Forest Node) :
    (forest.mapLeaves (Node.bind names)).ids = forest.ids :=
  walk_mapLeaves (Node.bind names) Node.id (fun _ => rfl) forest

theorem length_ids (forest : Forest Node) : forest.ids.length = forest.size := by
  rw [ids, length_map, length_walk]

private theorem size_bind (names : List String) (forest : Forest Node) :
    (forest.mapLeaves (Node.bind names)).size = forest.size := by
  rw [← length_ids, ids_bind, length_ids]

theorem leafCount_mapLeaves {α : Type} (f : α → α) (forest : Forest α) :
    (forest.mapLeaves f).leafCount = forest.leafCount := by
  rw [← length_branches, branches_mapLeaves, length_map, length_branches]

theorem ids_visits (forest : Forest Node) (above : List Node) :
    (forest.visits above).map (fun visit => visit.node.id) = forest.ids := by
  rw [ids, ← map_node_visits forest above, map_map]
  rfl

/-- A list of numbers is a range as soon as it is arranged from one. -/
theorem isNumbered_of_perm {forest : Forest Node} (count : Nat)
    (perm : forest.ids.Perm (range count)) : forest.IsNumbered := by
  have size : forest.size = count := by rw [← length_ids, perm.length_eq, length_range]
  rw [IsNumbered, size]
  exact perm

private theorem blocks_eq_range (start width count : Nat) :
    (range start ++ (range' 0 count).flatMap fun block =>
      (range width).map (start + block * width + ·)) = range (start + count * width) := by
  induction count with
  | zero => simp
  | succ count ih =>
    -- The next block starts where the blocks so far end.
    have widened : start + (count + 1) * width = (start + count * width) + width := by
      rw [Nat.succ_mul, Nat.add_assoc]
    rw [range'_1_concat, flatMap_append, ← append_assoc, ih, widened,
      range_add (n := start + count * width)]
    simp

end Forest

namespace Part

variable {left right : Part}

theorem isNumbered_beside (first : left.forest.IsNumbered) (second : right.forest.IsNumbered) :
    (left.beside right).forest.IsNumbered := by
  refine Forest.isNumbered_of_perm (left.forest.size + right.forest.size) ?_
  rw [beside, Forest.ids, Forest.walk_append, map_append, range_add]
  refine Perm.append first ?_
  rw [← Forest.ids, Forest.ids_shift]
  exact second.map _

private theorem isNumbered_bind {part : Part} (names : List String) (numbered : part.forest.IsNumbered) :
    (part.bind names).forest.IsNumbered := by
  unfold bind
  split
  · exact numbered
  · rw [Forest.IsNumbered, Forest.ids_bind, Forest.size_bind]
    exact numbered

theorem ids_nest (inhabited : left.forest.isEmpty = false) (first : left.forest.IsNumbered)
    (second : right.forest.IsNumbered) : (left.nest right).forest.ids.Perm
      (range (left.forest.size + left.forest.leafCount * right.forest.size)) := by
  rw [← Forest.blocks_eq_range, nest, if_neg (by simp [inhabited])]
  -- Grafting lists the nodes of the left part first and the copies of the right part behind them,
  -- up to order: that is where a permutation is needed and an equation would not hold.
  refine ((Forest.walk_graft _ 0 _).map Node.id).trans ?_
  rw [map_append, map_flatMap, Forest.leafCount_mapLeaves]
  refine Perm.append ?_ (Perm.flatMap_left _ fun leaf _ => ?_)
  · rw [← Forest.ids, Forest.ids_bind]
    exact first
  · rw [← Forest.ids, Forest.ids_shift]
    exact second.map _

theorem isNumbered_nest (first : left.forest.IsNumbered) (second : right.forest.IsNumbered) :
    (left.nest right).forest.IsNumbered := by
  cases inhabited : left.forest.isEmpty with
  | true =>
    rw [nest, if_pos inhabited]
    exact second
  | false => exact Forest.isNumbered_of_perm _ (ids_nest inhabited first second)

end Part

namespace Item

variable {schema : Schema} {measures : List Measure}

private theorem compileClause_isNumbered {clause : AxisClause (List String)} {part : Part}
    (built : compileClause schema measures clause = .ok part) : part.forest.IsNumbered := by
  refine compile_induction (C := fun _ part => part.forest.IsNumbered)
    (G := fun _ part => part.forest.IsNumbered) (I := fun _ part => part.forest.IsNumbered)
    ?_ ?_ ?_ (.refl _) ?_ (.refl _) ?_ ?_ built
  · exact fun _ _ _ _ => .refl _
  · exact fun _ _ _ _ => .refl _
  · exact fun _ _ inside => inside
  · exact fun group _ _ _ first others => Part.isNumbered_beside (Part.isNumbered_bind _ first) others
  · exact fun _ _ _ others => others
  · exact fun _ _ _ _ _ first others => Part.isNumbered_nest first others

end Item

namespace Axis

variable {axis : Axis} {branch : List Node} {node : Node} {visit : Visit Node}

theorem isNumbered_of_ofClause {schema : Schema} {measures : List Measure}
    {clause : Option (AxisClause (List String))}
    (built : Axis.ofClause schema measures clause = .ok axis) : axis.forest.IsNumbered := by
  obtain ⟨part, compiled, rfl⟩ := Axis.ofClause_eq_ok built
  exact Item.compileClause_isNumbered compiled

theorem eq_of_id_eq (numbered : axis.forest.IsNumbered) {a b : Node} (first : a ∈ axis.forest.walk)
    (second : b ∈ axis.forest.walk) (same : a.id = b.id) : a = b :=
  inj_on_of_nodup_map (numbered.nodup_iff.mpr nodup_range) first second same

theorem nodup_ids_visits (numbered : axis.forest.IsNumbered) :
    (axis.visits.map fun visit => visit.node.id).Nodup := by
  rw [visits, Forest.ids_visits]
  exact numbered.nodup_iff.mpr nodup_range

theorem nodup_ids_heads (numbered : axis.forest.IsNumbered) {place : List Node × Forest Node}
    (member : place ∈ axis.forest.places []) : (place.2.heads.map Node.id).Nodup := by
  have below := (Forest.visits_sublist_of_mem_places member).map fun visit => visit.node.id
  rw [Forest.ids_visits] at below
  exact (nodup_ids_visits numbered).sublist
    (((Forest.heads_sublist_walk place.2).map Node.id).trans below)

theorem mem_walk_of_mem_branch (member : branch ∈ axis.branches) (along : node ∈ branch) :
    node ∈ axis.forest.walk := by
  unfold branches at member
  split at member
  · rw [mem_singleton.mp member] at along
    cases along
  · exact Forest.mem_walk_of_mem_branches member along

theorem branches_ne_nil (axis : Axis) : axis.branches ≠ [] := by
  unfold branches
  split
  · exact cons_ne_nil _ _
  next inhabited =>
    intro none
    exact inhabited (Forest.isEmpty_iff.mpr (Forest.branches_eq_nil.mp none))

theorem exists_visit_of_prefix {before : List Node} (member : branch ∈ axis.branches)
    (starts : before ++ [node] <+: branch) :
    ∃ visit ∈ axis.visits, visit.above = before ∧ visit.node = node := by
  unfold branches at member
  split at member
  · rw [mem_singleton.mp member] at starts
    simp at starts
  · exact Forest.exists_visit_of_prefix member starts []

theorem exists_branch_of_mem_visits (member : visit ∈ axis.visits) :
    ∃ branch ∈ axis.branches, visit.above ++ [visit.node] <+: branch := by
  obtain ⟨branch, inside, before⟩ := Forest.exists_branch_of_mem_visits member
  have inhabited : axis.isEmpty = false := by
    unfold Axis.isEmpty
    cases forest : axis.forest with
    | nil => simp [forest, Forest.branches] at inside
    | cons => rfl
  refine ⟨branch, ?_, before⟩
  rw [Axis.branches, if_neg (by simp [inhabited])]
  exact inside

theorem prefix_of_mem_branch (numbered : axis.forest.IsNumbered) (visited : visit ∈ axis.visits)
    (member : branch ∈ axis.branches) (through : visit.node.id ∈ branch.map Node.id) :
    visit.above ++ [visit.node] <+: branch := by
  obtain ⟨node, along, same⟩ := mem_map.mp through
  obtain ⟨before, after, rfl⟩ := append_of_mem along
  have starts : before ++ [node] <+: before ++ node :: after := ⟨after, by simp⟩
  obtain ⟨other, there, chain, spelled⟩ := exists_visit_of_prefix member starts
  -- Numbers tell nodes apart, so this is the visit of the node.
  have equal : other = visit := inj_on_of_nodup_map (nodup_ids_visits numbered) there visited
    (by rw [spelled, same])
  rw [← equal, chain, spelled]
  exact starts

theorem branch_eq_of_ids_eq (numbered : axis.forest.IsNumbered) {a b : List Node}
    (first : a ∈ axis.branches) (second : b ∈ axis.branches) (same : a.map Node.id = b.map Node.id)
    : a = b := by
  have inside (branch : List Node) (member : branch ∈ axis.branches) :
      ∀ node ∈ branch, node ∈ axis.forest.walk := fun _ along => mem_walk_of_mem_branch member along
  -- The induction shortens both branches, and their tails are no branches any more, so only that
  -- the nodes are in the forest is kept.
  replace first := inside a first
  replace second := inside b second
  induction a generalizing b with
  | nil =>
    rw [map_nil, eq_comm, map_eq_nil_iff] at same
    exact same.symm
  | cons x xs ih =>
    cases b with
    | nil => simp at same
    | cons y ys =>
      simp only [map_cons, cons.injEq] at same
      have heads : x = y := eq_of_id_eq numbered (first x mem_cons_self)
        (second y mem_cons_self) same.1
      rw [heads, ih (b := ys) same.2 (fun n h => first n (mem_cons_of_mem _ h))
        (fun n h => second n (mem_cons_of_mem _ h))]

end Axis

end Crosstab
