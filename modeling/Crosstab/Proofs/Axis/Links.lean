import Crosstab.Proofs.Axis.Arena
import Crosstab.Proofs.Sorting
import Crosstab.Proofs.Table

/-!
# Links between nodes

The builder of an arena makes the nodes of the compiled axis, in the order of their numbers. They
refer to their children and to their parent, and following these links gives the forest back.
-/
namespace Crosstab

open List Outcome

/-! ### Parents and children in a forest -/

namespace Forest

variable {α : Type} {forest : Forest α} {above : List α} {visit : Visit α} {node : α}

/-- A visited node is a root, or a child of a visited node. -/
theorem exists_parent_of_mem_visits (member : visit ∈ forest.visits above) :
    (visit.above = above ∧ visit.node ∈ forest.heads) ∨ ∃ parent ∈ forest.visits above,
      visit.above = parent.above ++ [parent.node] ∧ visit.node ∈ parent.children := by
  induction forest generalizing above with
  | nil => cases member
  | cons node children siblings below beside =>
    rw [visits, mem_cons, mem_append] at member
    rcases member with rfl | under | after
    · exact .inl ⟨rfl, mem_cons_self⟩
    · rcases below under with own | ⟨parent, there, found⟩
      · exact .inr ⟨⟨above, node, children⟩, mem_cons_self, own⟩
      · exact .inr ⟨parent, mem_cons_of_mem _ (mem_append_left _ there), found⟩
    · rcases beside after with ⟨own, head⟩ | ⟨parent, there, found⟩
      · exact .inl ⟨own, mem_cons_of_mem _ head⟩
      · exact .inr ⟨parent, mem_cons_of_mem _ (mem_append_right _ there), found⟩

private theorem exists_visit_of_mem_heads (member : node ∈ forest.heads) (above : List α) :
    ∃ visit ∈ forest.visits above, visit.above = above ∧ visit.node = node := by
  rw [← map_fst_trees] at member
  obtain ⟨⟨_, children⟩, tree, rfl⟩ := mem_map.mp member
  exact ⟨_, visit_mem_of_mem_trees tree above, rfl, rfl⟩

/-- The nodes of the branches, each where it occurs first, are those of the walk. -/
theorem eraseDups_flatten_branches {forest : Forest Nat} (distinct : forest.walk.Nodup) :
    forest.branches.flatten.eraseDups = forest.walk := by
  induction forest with
  | nil => rfl
  | cons node children siblings below beside =>
    obtain ⟨fresh, distinct⟩ := nodup_cons.mp distinct
    obtain ⟨inner, outer, apart⟩ := nodup_append.mp distinct
    rw [mem_append, not_or] at fresh
    let own := if children.isEmpty then [[node]] else children.branches.map (node :: ·)
    -- All branches of the node start with it, and only the first of these starts is kept.
    have starts : own.flatten.eraseDups = node :: children.walk := by
      rw [← below inner]
      by_cases leaf : children.isEmpty
      · simp only [own, isEmpty_iff.mp leaf]
        rfl
      · have kept : own.flatten.filter (fun id => !id == node) = children.branches.flatten := by
          simp only [own, leaf, Bool.false_eq_true, ↓reduceIte, filter_flatten, map_map]
          refine congrArg flatten ((map_congr_left fun branch listed => ?_).trans (List.map_id _))
          have passed : ∀ id ∈ branch, id ≠ node := fun id along same =>
            fresh.1 (same ▸ mem_walk_of_mem_branches listed along)
          simpa [filter_eq_self] using passed
        obtain ⟨first, rest, listed⟩ := exists_cons_of_ne_nil fun none =>
          leaf (isEmpty_iff.mpr (branches_eq_nil.mp none))
        have front : own.flatten = node :: (first ++ (rest.map (node :: ·)).flatten) := by
          simp [own, leaf, listed]
        rw [front, filter_cons_of_neg (by simp)] at kept
        rw [front, eraseDups_cons, kept]
    have others : siblings.branches.flatten.removeAll own.flatten = siblings.branches.flatten := by
      refine filter_eq_self.mpr fun id member => ?_
      obtain ⟨branch, listed, along⟩ := mem_flatten.mp member
      have after := mem_walk_of_mem_branches listed along
      have before : id ∉ own.flatten.eraseDups := by
        rw [starts, mem_cons, not_or]
        exact ⟨fun same => fresh.2 (same ▸ after), fun under => apart id under id after rfl⟩
      simpa using before
    rw [branches_cons, flatten_append, eraseDups_append, others, starts, beside outer]
    rfl

end Forest

/-! ### Stored forests -/

theorem Forest.roots_zero (forest : Forest Node) : forest.roots 0 = forest.heads.map Node.id := by
  simp [roots]

namespace Slot.Stores

variable {slot? : Nat → Option Slot} {forest : Forest Node}

theorem visit {above : List Node} {visit : Visit Node}
    (stored : Stores slot? 0 (above.getLast?.map Node.id) above.length forest)
    (member : visit ∈ forest.visits above) :
    slot? visit.node.id = some visit.treeNode.toSlot ∧
      ∀ child ∈ visit.childIds, visit.node.id < child := by
  induction forest generalizing above with
  | nil => cases member
  | cons node children siblings below beside =>
    rw [Forest.visits, mem_cons, mem_append] at member
    simp only [Stores, Nat.zero_add, Forest.roots_zero] at stored
    obtain ⟨here, order, under, after⟩ := stored
    rcases member with rfl | inside | behind
    · exact ⟨here, order⟩
    · refine below ?_ inside
      simpa using under
    · exact beside after behind

private theorem branchesFrom_roots {parent : Option Nat} {depth : Nat}
    (stored : Stores slot? 0 parent depth forest) (above : List Nat) {steps : Nat}
    (enough : forest.size ≤ steps) : branchesFrom slot? steps above (forest.heads.map Node.id) =
      some (forest.branches.map fun branch => above ++ branch.map Node.id) := by
  induction forest generalizing parent depth above steps with
  | nil => rw [Forest.heads, map_nil, branchesFrom]; rfl
  | cons node children siblings below beside =>
    simp only [Stores, Nat.zero_add, Forest.roots_zero] at stored
    obtain ⟨here, _, under, after⟩ := stored
    rw [Forest.size] at enough
    obtain _ | steps := steps
    · omega
    have within : children.size ≤ steps ∧ siblings.size ≤ steps := by omega
    have under := below under (above ++ [node.id]) within.1
    have childless : children.heads = [] ↔ children.isEmpty := by
      rw [← Forest.isEmpty_heads, List.isEmpty_iff]
    rw [Forest.heads, map_cons, branchesFrom, Forest.branches_cons]
    by_cases leaf : children.isEmpty <;>
      simp [here, Node.slot, beside after above within.2, childless, leaf, under]

end Slot.Stores

/-! ### The tree of an axis -/

namespace Axis

variable {axis : Axis} {visit : Visit Node}

theorem perm_numbered (axis : Axis) : axis.numbered.Perm axis.visits := Sorting.perm_arrange _ _

theorem length_numbered (axis : Axis) : axis.numbered.length = axis.forest.size := by
  rw [axis.perm_numbered.length_eq, ← length_map Visit.node, visits, Forest.map_node_visits,
    Forest.length_walk]

theorem length_nodes (axis : Axis) : axis.tree.nodes.length = axis.forest.size := by
  rw [tree, length_map, length_numbered]

theorem mem_nodes {node : TreeNode} :
    node ∈ axis.tree.nodes ↔ ∃ visit ∈ axis.visits, visit.treeNode = node := by
  simp only [tree, mem_map, axis.perm_numbered.mem_iff]

/-- A node has no parent and is a root, or has one and is among its children. -/
theorem parent_cases (member : visit ∈ axis.visits) :
    (visit.parentId? = none ∧ visit.above = [] ∧ visit.node ∈ axis.forest.heads) ∨
      ∃ parent ∈ axis.visits, visit.parentId? = some parent.node.id ∧
        visit.above = parent.above ++ [parent.node] ∧ visit.node ∈ parent.children := by
  rcases Forest.exists_parent_of_mem_visits member with ⟨above, head⟩ | ⟨parent, there, above, child⟩
  · exact .inl ⟨by simp [Visit.parentId?, Visit.parent?, above], above, head⟩
  · exact .inr ⟨parent, there, by simp [Visit.parentId?, Visit.parent?, above], above, child⟩

section Numbered

variable (numbered : axis.forest.IsNumbered)
include numbered

theorem ids_numbered :
    axis.numbered.map (fun visit => visit.node.id) = range axis.numbered.length := by
  have sorted : axis.numbered.Pairwise fun a b => decide (a.node.id ≤ b.node.id) = true :=
    Sorting.pairwise_arrange (by simpa using fun _ _ _ : Visit Node => Nat.le_trans)
      (by simpa using fun a b : Visit Node => Nat.le_total a.node.id b.node.id) _
  rw [length_numbered]
  refine Perm.eq_of_pairwise (fun _ _ _ _ => Nat.le_antisymm)
    (pairwise_map.mpr (sorted.imp of_decide_eq_true)) pairwise_le_range ?_
  exact (axis.perm_numbered.map _).trans (Forest.ids_visits axis.forest [] ▸ numbered)

private theorem getElem?_numbered_iff {id : Nat} :
    axis.numbered[id]? = some visit ↔ visit ∈ axis.visits ∧ visit.node.id = id := by
  have own {id : Nat} (found : axis.numbered[id]? = some visit) : visit.node.id = id := by
    have listed := congrArg (Option.map fun visit => visit.node.id) found
    rw [← getElem?_map, ids_numbered numbered] at listed
    obtain ⟨_, same⟩ := List.getElem?_eq_some_iff.mp listed
    simpa using same.symm
  constructor
  · exact fun found => ⟨axis.perm_numbered.mem_iff.mp (mem_of_getElem? found), own found⟩
  · rintro ⟨member, rfl⟩
    obtain ⟨id, found⟩ := getElem?_of_mem (axis.perm_numbered.mem_iff.mpr member)
    rwa [own found]

theorem getElem?_nodes_iff {id : Nat} {node : TreeNode} : axis.tree.nodes[id]? = some node ↔
    ∃ visit ∈ axis.visits, visit.node.id = id ∧ visit.treeNode = node := by
  simp only [tree, getElem?_map, Option.map_eq_some_iff, getElem?_numbered_iff numbered, and_assoc]

private theorem slot?_tree (member : visit ∈ axis.visits) :
    axis.tree.slot? visit.node.id = some visit.treeNode.toSlot := by
  rw [AxisTree.slot?, (getElem?_nodes_iff numbered).mpr ⟨visit, member, rfl, rfl⟩, Option.map_some]

/-- At every place of the forest, the nodes are those linked to the one above. -/
theorem mem_ids_heads_iff {place : List Node × Forest Node}
    (listed : place ∈ axis.forest.places []) {id : Nat} : id ∈ place.2.heads.map Node.id ↔
      ∃ node, axis.tree.nodes[id]? = some node ∧ node.parent = place.1.getLast?.map Node.id := by
  constructor
  · intro member
    obtain ⟨node, head, rfl⟩ := mem_map.mp member
    obtain ⟨visit, under, above, rfl⟩ := Forest.exists_visit_of_mem_heads head place.1
    have there := (Forest.visits_sublist_of_mem_places listed).subset under
    refine ⟨visit.treeNode, (getElem?_nodes_iff numbered).mpr ⟨visit, there, rfl, rfl⟩, ?_⟩
    show visit.parentId? = _
    rw [Visit.parentId?, Visit.parent?, above]
  · rintro ⟨_, found, linked⟩
    obtain ⟨visit, there, rfl, rfl⟩ := (getElem?_nodes_iff numbered).mp found
    replace linked : visit.parentId? = _ := linked
    refine mem_map_of_mem ?_
    rcases mem_cons.mp listed with rfl | deeper
    · rcases parent_cases there with ⟨_, _, head⟩ | ⟨parent, _, own, _⟩
      · exact head
      · simp [own] at linked
    · obtain ⟨owner, member, rfl⟩ := mem_map.mp deeper
      rcases parent_cases there with ⟨root, _⟩ | ⟨parent, inside, own, _, child⟩
      · simp [root] at linked
      · rw [own, getLast?_concat, Option.map_some, Option.some.injEq] at linked
        obtain rfl := inj_on_of_nodup_map (nodup_ids_visits numbered) inside member linked
        exact child

private theorem ancestors_eq {visit : Visit Node} (member : visit ∈ axis.visits) {steps : Nat}
    (enough : visit.depth < steps) :
    axis.tree.ancestors steps visit.node.id = some (visit.above.map Node.id) := by
  rw [AxisTree.ancestors]
  induction steps generalizing visit with
  | zero => cases enough
  | succ steps climb =>
    rw [Slot.ancestors, slot?_tree numbered member]
    rcases parent_cases member with ⟨root, above, _⟩ | ⟨parent, there, own, above, _⟩
    · simp [Visit.treeNode, Node.slot, root, above]
    · have nearer : parent.depth < steps := by simpa [Visit.depth, above] using enough
      simp [Visit.treeNode, Node.slot, own, above, climb there nearer]

end Numbered

end Axis

namespace AxisTree

variable {schema : Schema} {measures : List Measure} {clause : Option (AxisClause (List String))}

/-- The builder makes the tree of the compiled axis, and fails where the compiler does. -/
theorem ofClause_related (schema : Schema) (measures : List Measure)
    (clause : Option (AxisClause (List String))) : Related (fun tree axis => tree = axis.tree ∧
        axis.forest.IsNumbered ∧ Slot.Stores tree.slot? 0 none 0 axis.forest)
      (ofClause schema measures clause) (Axis.ofClause schema measures clause) := by
  unfold ofClause Axis.ofClause
  refine (Arena.buildClause_follows (clause.getD []) none {} nofun).bind ?_
  rintro ⟨roots, arena⟩ part ⟨numbered, names, heads, size, kept, stored⟩
  replace heads : roots = _ := heads.trans part.forest.roots_zero
  have measures : arena.measures = addNames [] part.names := congrArg Arena.measures kept
  let axis : Axis := ⟨part.forest, part.names⟩
  have nodes : arena.slots.mapIdx (fun id slot => ⟨slot, id⟩) = axis.tree.nodes := by
    refine ext_getElem? fun id => ?_
    cases found : axis.tree.nodes[id]? with
    | none =>
      rw [getElem?_eq_none_iff, Axis.length_nodes] at found
      rw [getElem?_eq_none_iff, length_mapIdx, size, length_nil, Nat.zero_add]
      exact found
    | some node =>
      obtain ⟨visit, member, rfl, rfl⟩ := (Axis.getElem?_nodes_iff numbered).mp found
      have held : arena.slots[visit.node.id]? = _ := (Slot.Stores.visit stored member).1
      rw [getElem?_mapIdx, held]
      rfl
  have made : AxisTree.mk (arena.slots.mapIdx fun id slot => ⟨slot, id⟩) roots arena.measures =
      axis.tree := by
    rw [nodes, heads, measures]
    exact congrArg (AxisTree.mk _ _) names
  refine .ok ⟨made, numbered, ?_⟩
  have slots : slot? ⟨arena.slots.mapIdx fun id slot => ⟨slot, id⟩, roots, arena.measures⟩ =
      arena.slot? := by
    funext id
    rw [slot?, getElem?_mapIdx, Option.map_map]
    exact Option.map_id_apply
  rw [slots]
  exact stored

theorem ofClause_eq (schema : Schema) (measures : List Measure)
    (clause : Option (AxisClause (List String))) :
    ofClause schema measures clause = (Axis.ofClause schema measures clause).map Axis.tree := by
  have related := ofClause_related schema measures clause
  generalize ofClause schema measures clause = built at related ⊢
  generalize Axis.ofClause schema measures clause = compiled at related ⊢
  cases related with
  | ok same => rw [same.1]; rfl
  | error e => rfl

/-- The links agree with one another and with the numbers, and every node stands for a total or for
a field of the schema. -/
structure WellLinked (schema : Schema) (tree : AxisTree) : Prop where
  id : tree.nodes.map TreeNode.id = range tree.nodes.length
  child_gt : ∀ node ∈ tree.nodes, ∀ child ∈ node.children, node.id < child
  child_iff : ∀ node ∈ tree.nodes, ∀ child, child ∈ node.children ↔
    ∃ other, tree.nodes[child]? = some other ∧ other.parent = some node.id
  child_once : ∀ node ∈ tree.nodes, node.children.Nodup
  root_iff : ∀ root, root ∈ tree.roots ↔
    ∃ node, tree.nodes[root]? = some node ∧ node.parent = none
  root_once : tree.roots.Nodup
  depth_root : ∀ node ∈ tree.nodes, node.parent = none → node.depth = 0
  depth_child : ∀ node ∈ tree.nodes, ∀ id, node.parent = some id →
    ∃ parent, tree.nodes[id]? = some parent ∧ node.depth = parent.depth + 1
  total : ∀ node ∈ tree.nodes, node.isTotal → node.field = none ∧ node.order = .plain
  dimension : ∀ node ∈ tree.nodes, node.isTotal = false →
    ∃ field, node.field = some field ∧ schema.hasField field

/-- Following the links ends, however many more steps are allowed, and meets every node as the
branches list it. -/
structure Traversed (tree : AxisTree) (branches : List (List Nat)) (walk : List Nat) : Prop where
  branches_eq : ∀ steps ≥ tree.nodes.length, tree.branches steps = some branches
  walk_eq : ∀ steps ≥ tree.nodes.length, tree.walk steps = some walk
  walk_once : walk.Perm (range tree.nodes.length)
  walk_order : walk = branches.flatten.eraseDups
  ancestors : ∀ node ∈ tree.nodes, ∃ above, ∀ steps > node.depth,
    tree.ancestors steps node.id = some above
  ancestors_branch : ∀ branch ∈ branches, ∀ k id, branch[k]? = some id → ∀ steps > k,
    tree.ancestors steps id = some (branch.take k)

variable {axis : Axis} {tree : AxisTree}

private theorem traversed (numbered : axis.forest.IsNumbered)
    (stored : Slot.Stores axis.tree.slot? 0 none 0 axis.forest) :
    axis.tree.Traversed (axis.branches.map (map Node.id)) axis.forest.ids where
  branches_eq := by
    intro steps enough
    rw [Axis.length_nodes] at enough
    have found := stored.branchesFrom_roots [] enough
    have rootless : axis.tree.roots.isEmpty = axis.forest.isEmpty := by
      rw [Axis.tree, isEmpty_map, Forest.isEmpty_heads]
    unfold branches Axis.branches Axis.isEmpty
    rw [rootless]
    split
    · rfl
    · exact found
  walk_eq := by
    intro steps enough
    rw [Axis.length_nodes] at enough
    have walked := stored.walkFrom_eq enough
    rwa [Forest.roots_zero, map_congr_left fun id _ => Nat.zero_add id, map_id'] at walked
  walk_once := by
    rw [Axis.length_nodes]
    exact numbered
  walk_order := by
    have distinct : (axis.forest.map Node.id).walk.Nodup := by
      rw [Forest.walk_map]
      exact numbered.nodup_iff.mpr nodup_range
    rw [Forest.ids, ← Forest.walk_map, ← Forest.eraseDups_flatten_branches distinct,
      Forest.branches_map]
    unfold Axis.branches Axis.isEmpty
    split
    next empty => rw [Forest.isEmpty_iff.mp empty]; rfl
    · rfl
  ancestors := by
    intro _ member
    obtain ⟨visit, there, rfl⟩ := Axis.mem_nodes.mp member
    exact ⟨_, fun steps => Axis.ancestors_eq numbered there⟩
  ancestors_branch := by
    intro _ member k _ found steps enough
    obtain ⟨branch, inside, rfl⟩ := mem_map.mp member
    rw [getElem?_map, Option.map_eq_some_iff] at found
    obtain ⟨node, found, rfl⟩ := found
    have starts : branch.take k ++ [node] <+: branch := by
      rw [← Option.toList_some, ← found, ← take_add_one]
      exact take_prefix _ _
    obtain ⟨visit, there, above, rfl⟩ := Axis.exists_visit_of_prefix inside starts
    rw [Axis.ancestors_eq numbered there (by grind [Visit.depth]), above, map_take]

private theorem wellLinked (built : Axis.ofClause schema measures clause = .ok axis)
    (stored : Slot.Stores axis.tree.slot? 0 none 0 axis.forest) : axis.tree.WellLinked schema := by
  have numbered := Axis.isNumbered_of_ofClause built
  have placed {visit : Visit Node} (member : visit ∈ axis.visits) :=
    Axis.place_of_ofClause built (Forest.map_node_visits axis.forest [] ▸ mem_map_of_mem member)
  have under {visit : Visit Node} (member : visit ∈ axis.visits) :
      (visit.above ++ [visit.node], visit.below) ∈ axis.forest.places [] :=
    mem_cons_of_mem _ (mem_map_of_mem member)
  have each {P : TreeNode → Prop} (holds : ∀ visit ∈ axis.visits, P visit.treeNode) :
      ∀ node ∈ axis.tree.nodes, P node := by
    intro _ member
    obtain ⟨visit, there, rfl⟩ := Axis.mem_nodes.mp member
    exact holds visit there
  exact {
    id := by
      rw [Axis.length_nodes, ← Axis.length_numbered, ← Axis.ids_numbered numbered, Axis.tree, map_map]
      rfl
    child_gt := each fun visit member => (Slot.Stores.visit stored member).2
    child_iff := each fun visit member child =>
      (Axis.mem_ids_heads_iff numbered (under member)).trans (by simp [Visit.treeNode])
    child_once := each fun visit member => Axis.nodup_ids_heads numbered (under member)
    root_iff := fun root => Axis.mem_ids_heads_iff numbered mem_cons_self
    root_once := Axis.nodup_ids_heads numbered mem_cons_self
    depth_root := each fun visit member none => by
      rcases Axis.parent_cases member with ⟨_, above, _⟩ | ⟨parent, _, own, _⟩
      · simp [Visit.treeNode, Node.slot, Visit.depth, above]
      · simp [Visit.treeNode, Node.slot, own] at none
    depth_child := each fun visit member id linked => by
      replace linked : visit.parentId? = _ := linked
      rcases Axis.parent_cases member with ⟨none, _⟩ | ⟨parent, there, own, above, _⟩
      · simp [none] at linked
      · rw [own, Option.some.injEq] at linked
        exact ⟨parent.treeNode, (Axis.getElem?_nodes_iff numbered).mpr ⟨parent, there, linked, rfl⟩,
          by simp [Visit.treeNode, Node.slot, Visit.depth, above]⟩
    total := each fun visit member total => by
      replace total : visit.node.isTotal := total
      rcases placed member with place | ⟨_, field, order, _, place, known⟩
      · simp [Visit.treeNode, Node.slot, Node.field?, Node.order, place, Place.field?, Place.order]
      · simp [Node.isTotal, Node.field?, place, Place.field?] at total
    dimension := each fun visit member dimension => by
      replace dimension : visit.node.isTotal = false := dimension
      rcases placed member with place | ⟨_, field, order, _, place, known⟩
      · simp [Node.isTotal, Node.field?, place, Place.field?] at dimension
      · exact ⟨field, by simp [Visit.treeNode, Node.slot, Node.field?, place, Place.field?], known⟩ }

/-- The nodes that are built for a clause are those of its axis, numbered from zero and parents before
children. Their links agree, and so following them ends and meets every node as the branches list it. -/
theorem built_nodes_are_linked (built : ofClause schema measures clause = .ok tree) :
    tree.WellLinked schema ∧ ∃ axis, Axis.ofClause schema measures clause = .ok axis ∧
      tree = axis.tree ∧
      tree.Traversed (axis.branches.map (map Node.id)) (axis.forest.walk.map Node.id) := by
  obtain ⟨axis, compiled, rfl, numbered, stored⟩ :=
    (ofClause_related schema measures clause).exists_of_ok built
  exact ⟨wellLinked compiled stored, axis, compiled, rfl, traversed numbered stored⟩

/-- Below both leaves of the first group the second group is repeated, with nodes of its own. -/
theorem repeated_group_is_linked :
    let schema := Schema.ofNames ["job", "sex"] []
    let clause : AxisClause (List String) :=
      [[.axis [[.column "job"], [.overall]], .axis [[.column "sex"], [.overall]]]]
    ∃ tree, ofClause schema [] (some clause) = .ok tree ∧
      (tree.roots = [0, 1] ∧ tree.nodes.map (fun node => (node.parent, node.children)) =
        [(none, [2, 3]), (none, [4, 5]), (some 0, []), (some 0, []), (some 1, []), (some 1, [])] ∧
      tree.walk 6 = some [0, 2, 3, 1, 4, 5]) ∧ tree.WellLinked schema := by
  intro schema clause
  exact exists_ok_and (by decide +kernel) fun tree built => (built_nodes_are_linked built).1

end AxisTree

end Crosstab
