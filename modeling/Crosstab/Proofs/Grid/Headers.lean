import Crosstab.Proofs.Grid.Cells

/-!
# Headers of expanded axes

Wherever a header stands, the headers below it are those of an expansion of the nodes below its
node. It is dropped only if there are none. Nodes may change in what no header shows.
-/
namespace Crosstab

open List Step Header Forest Outcome

namespace Expanded

variable (own : List Expanded) (rest : Expanded)

theorem heads_foldr_append : (own.foldr append rest).1.heads =
    own.flatMap (fun part => part.1.heads) ++ rest.1.heads := by
  induction own with
  | nil => rfl
  | cons part own ih => simp [append, heads_append, ih]

private theorem visits_foldr_append (above : List Header) : (own.foldr append rest).1.visits above =
    own.flatMap (fun part => part.1.visits above) ++ rest.1.visits above := by
  induction own with
  | nil => rfl
  | cons part own ih => simp [append, visits_append, ih]

theorem leaves_foldr_append :
    (own.foldr append rest).2 = own.flatMap (fun part => part.2) ++ rest.2 := by
  induction own with
  | nil => rfl
  | cons part own ih => simp [append, ih]

end Expanded

def Header.ofStep (settings : Settings) (before : List Step) (step : Step) : Header where
  node := step.1.id
  field := step.1.field?
  value := step.2
  label :=
    match step.1.field? with
    | none => if step.1.label.isNull then settings.totalLabel else step.1.label
    | some _ => memberLabel settings step.2
  path := (before ++ [step]).map Step.segment

def Header.chain (settings : Settings) : List Step → List Step → List Header
  | _, [] => []
  | before, step :: steps => ofStep settings before step :: chain settings (before ++ [step]) steps

namespace Expansion

variable (expansion : Expansion)

/-- The expansion of nodes below some steps. -/
def expandAt (before : List Step) (forest : Forest Node) : Outcome Expanded :=
  expansion.expand forest (before.map Step.segment) (before.map Prod.fst) (values before)

/-- What a node picks below some steps: the members of a dimension, and null for a total. -/
def Picks (before : List Step) (node : Node) (picked : List Value) : Prop :=
  match node.field? with
  | none => picked = [.null]
  | some field => expansion.members (fieldsOf (before.map Prod.fst)) node field
      (values before) = .ok picked

def place (before : List Step) (step : Step) (isLeaf : Bool) (below : Expanded) : Expanded :=
  placeHeader (.ofStep expansion.settings before step) ((before ++ [step]).map Prod.fst)
    (values (before ++ [step])) isLeaf below

variable {expansion}

variable {before : List Step} {node : Node} {children forest : Forest Node} {expanded : Expanded}
  {above : List Header} {visit : Visit Header}

private theorem headers_eq_ok_iff {made : List (Header × Row)} :
    expansion.headers (before.map Step.segment) (before.map Prod.fst) (values before) node =
        .ok made ↔
      ∃ picked, expansion.Picks before node picked ∧ made = picked.map fun value =>
        (.ofStep expansion.settings before (node, value), values (before ++ [(node, value)])) := by
  unfold headers Picks
  cases named : node.field? with
  | none =>
    rw [eq_comm]
    simp [ofStep, values_concat, extend, Step.segment, named]
  | some field =>
    simp only [bind_eq_ok, pure_eq_ok]
    refine exists_congr fun picked => and_congr_right fun _ => ?_
    rw [eq_comm]
    simp [ofStep, values_concat, extend, Step.segment, named]

/-- The first node makes a part for every pick, and its siblings come behind. -/
theorem expandAt_cons_iff {siblings : Forest Node} :
    expansion.expandAt before (.cons node children siblings) = .ok expanded ↔
      ∃ picked parts rest, expansion.Picks before node picked ∧
        Forall₂ (fun value part => ∃ below,
          expansion.expandAt (before ++ [(node, value)]) children = .ok below ∧
            part = expansion.place before (node, value) children.isEmpty below) picked parts ∧
        expansion.expandAt before siblings = .ok rest ∧
        expanded = parts.foldr Expanded.append rest := by
  have part (value : Value) (made : Expanded) :
      (∃ below, expansion.expand children
          (ofStep expansion.settings before (node, value)).path
          (before.map Prod.fst ++ [node]) (values (before ++ [(node, value)])) = .ok below ∧
        placeHeader (ofStep expansion.settings before (node, value))
          (before.map Prod.fst ++ [node]) (values (before ++ [(node, value)]))
          children.isEmpty below = made) ↔
      ∃ below, expansion.expandAt (before ++ [(node, value)]) children = .ok below ∧
        made = expansion.place before (node, value) children.isEmpty below := by
    simp only [expandAt, place, ofStep, map_append, map_singleton]
    exact exists_congr fun _ => and_congr_right fun _ => eq_comm
  rw [expandAt, expand]
  simp only [bind_eq_ok, headers_eq_ok_iff, mapM_eq_ok, pure_eq_ok]
  constructor
  · rintro ⟨_, ⟨picked, picks, rfl⟩, parts, placed, rest, later, rfl⟩
    rw [forall₂_map_left_iff] at placed
    exact ⟨picked, parts, rest, picks, placed.imp fun value made => (part value made).mp, later, rfl⟩
  · rintro ⟨picked, parts, rest, picks, related, later, rfl⟩
    refine ⟨_, ⟨picked, picks, rfl⟩, parts, ?_, rest, later, rfl⟩
    rw [forall₂_map_left_iff]
    exact related.imp fun value made => (part value made).mpr

/-! ### What is placed where -/

theorem heads_place (before : List Step) (step : Step) (isLeaf : Bool) (below : Expanded) :
    (expansion.place before step isLeaf below).1.heads =
      if isLeaf || !below.1.isEmpty then [.ofStep expansion.settings before step] else [] := by
  unfold place placeHeader
  cases isLeaf with
  | true => rfl
  | false => cases empty : below.1.isEmpty <;> rfl

theorem node_mem_of_mem_heads (returned : expansion.expandAt before forest = .ok expanded)
    {header : Header} (member : header ∈ expanded.1.heads) :
    header.node ∈ forest.heads.map Node.id := by
  induction forest generalizing expanded with
  | nil =>
    cases returned
    cases member
  | cons node children siblings _ beside =>
    obtain ⟨picked, parts, rest, _, related, later, rfl⟩ := expandAt_cons_iff.mp returned
    rw [Expanded.heads_foldr_append, mem_append, mem_flatMap] at member
    rw [heads, map_cons, mem_cons]
    rcases member with ⟨part, among, member⟩ | member
    · obtain ⟨value, _, below, _, rfl⟩ := exists_left_of_forall₂ related among
      rw [heads_place] at member
      split at member
      · rw [mem_singleton.mp member]
        exact .inl rfl
      · cases member
    · exact .inr (beside later member)

/-- Where nothing is dropped below a node, it has a header for every pick. -/
theorem heads_of_parts {picked : List Value} {parts : List Expanded}
    (related : Forall₂ (fun value part => ∃ below,
      expansion.expandAt (before ++ [(node, value)]) children = .ok below ∧
        part = expansion.place before (node, value) children.isEmpty below) picked parts)
    (kept : ∀ value ∈ picked, ∀ below,
      expansion.expandAt (before ++ [(node, value)]) children = .ok below →
        children.isEmpty ∨ below.1.isEmpty = false) :
    parts.flatMap (fun part => part.1.heads) =
      picked.map fun value => .ofStep expansion.settings before (node, value) := by
  induction related with
  | nil => rfl
  | @cons value part picked parts head _ ih =>
    obtain ⟨below, expandedBelow, rfl⟩ := head
    have shown := kept value mem_cons_self below expandedBelow
    have there : (children.isEmpty || !below.1.isEmpty) := by simpa using shown
    rw [flatMap_cons, heads_place, if_pos there, ih fun other later => kept other (mem_cons_of_mem _ later)]
    rfl

/-- Then the headers that stand for the node are those of its picks, in their order. -/
theorem filter_heads (returned : expansion.expandAt before forest = .ok expanded)
    (unique : (forest.heads.map Node.id).Nodup) (member : (node, children) ∈ forest.trees)
    (kept : ∀ picked, expansion.Picks before node picked → ∀ value ∈ picked, ∀ below,
      expansion.expandAt (before ++ [(node, value)]) children = .ok below →
        children.isEmpty ∨ below.1.isEmpty = false) :
    ∃ picked, expansion.Picks before node picked ∧
      expanded.1.heads.filter (fun header => header.node == node.id) =
        picked.map fun value => .ofStep expansion.settings before (node, value) := by
  induction forest generalizing expanded with
  | nil => cases member
  | cons first under siblings _ beside =>
    obtain ⟨picked, parts, rest, picks, related, later, rfl⟩ := expandAt_cons_iff.mp returned
    rw [heads, map_cons, nodup_cons] at unique
    rw [Expanded.heads_foldr_append, filter_append]
    rcases mem_cons.mp member with own | other
    · cases own
      -- The headers behind stand for other nodes.
      have others : rest.1.heads.filter (fun header => header.node == node.id) = [] := by
        rw [filter_eq_nil_iff]
        intro header there same
        exact unique.1 (beq_iff_eq.mp same ▸ node_mem_of_mem_heads later there)
      refine ⟨picked, picks, ?_⟩
      rw [others, append_nil, heads_of_parts related (kept picked picks), filter_eq_self]
      intro header there
      obtain ⟨value, _, rfl⟩ := mem_map.mp there
      exact beq_self_eq_true _
    · have apart : first.id ≠ node.id := by
        intro same
        apply unique.1
        rw [same, ← map_fst_trees, map_map]
        exact mem_map.mpr ⟨_, other, rfl⟩
      -- The first node makes headers for itself alone.
      have none : (parts.flatMap fun part => part.1.heads).filter
          (fun header => header.node == node.id) = [] := by
        rw [filter_eq_nil_iff]
        intro header there same
        obtain ⟨part, among, inside⟩ := mem_flatMap.mp there
        obtain ⟨value, _, below, _, rfl⟩ := exists_left_of_forall₂ related among
        rw [heads_place] at inside
        split at inside
        · rw [mem_singleton.mp inside] at same
          exact apart (beq_iff_eq.mp same)
        · cases inside
      rw [none]
      exact beside later unique.2 other

/-- Nothing is dropped below steps that stay alive: from there every node has something to pick, and
stays alive below all that it picks. -/
theorem isEmpty_expandAt {visits : List (Visit Node)} {alive : List Step → Prop}
    (lives : ∀ before, alive before → ∀ visit ∈ visits, visit.above = before.map Prod.fst →
      ∀ picked, expansion.Picks before visit.node picked →
        picked ≠ [] ∧ ∀ value ∈ picked, alive (before ++ [(visit.node, value)]))
    (within : forest.visits (before.map Prod.fst) ⊆ visits) (living : alive before)
    (inhabited : forest.isEmpty = false)
    (returned : expansion.expandAt before forest = .ok expanded) : expanded.1.isEmpty = false := by
  -- Only the first pick of the first node is followed down: one header is enough.
  induction forest generalizing before expanded with
  | nil => cases inhabited
  | cons node children siblings below _ =>
    obtain ⟨picked, parts, rest, picks, related, later, rfl⟩ := expandAt_cons_iff.mp returned
    obtain ⟨own, within⟩ := cons_subset.mp within
    obtain ⟨some, stays⟩ := lives before living _ own rfl picked picks
    cases related with
    | nil => exact absurd rfl some
    | @cons value part picked parts head _ =>
      obtain ⟨under, expandedBelow, rfl⟩ := head
      have shown : (children.isEmpty || !under.1.isEmpty) := by
        cases leaf : children.isEmpty with
        | true => rfl
        | false =>
          have deeper : under.1.isEmpty = false := by
            refine below ?_ (stays value mem_cons_self) leaf expandedBelow
            rw [map_append]
            exact Subset.trans (subset_append_left _ _) within
          simp [deeper]
      rw [← isEmpty_heads, Expanded.heads_foldr_append, flatMap_cons, heads_place, if_pos shown]
      rfl

/-- A header that is visited is the one that was placed, or one below it. The one that was placed has
no headers below it only if it is that of a leaf. -/
theorem mem_visits_place {step : Step} {isLeaf : Bool} {below : Expanded}
    (leaf : isLeaf → below.1 = .nil)
    (member : visit ∈ (expansion.place before step isLeaf below).1.visits above) :
    (visit = ⟨above, .ofStep expansion.settings before step, below.1⟩ ∧ below.1.isEmpty = isLeaf) ∨
      visit ∈ below.1.visits (above ++ [.ofStep expansion.settings before step]) := by
  unfold place placeHeader at member
  cases isLeaf with
  | true =>
    rw [leaf rfl]
    exact .inl ⟨mem_singleton.mp member, rfl⟩
  | false =>
    simp only [Bool.false_eq_true, ↓reduceIte] at member
    split at member
    · cases member
    next some =>
      simpa [visits, some] using member

/-- Steps behind headers: each header stands for its step. -/
abbrev Traces : List Header → List Step → Prop :=
  List.Forall₂ fun header step =>
    header.node = step.1.id ∧ header.field = step.1.field? ∧ header.value = step.2

theorem traces_chain (settings : Settings) (before steps : List Step) :
    Traces (chain settings before steps) steps := by
  induction steps generalizing before with
  | nil => exact .nil
  | cons step steps ih => exact .cons ⟨rfl, rfl, rfl⟩ (ih _)

/-- Every header is reached by steps, and what stands below it is the expansion of the nodes below
these steps. There is nothing below it only if there are no such nodes. -/
theorem exists_visit (returned : expansion.expandAt before forest = .ok expanded)
    (member : visit ∈ expanded.1.visits above) :
    ∃ steps leaves, ∃ node ∈ forest.visits (before.map Prod.fst),
      node.above ++ [node.node] = (before ++ steps).map Prod.fst ∧
      visit.above ++ [visit.node] = above ++ chain expansion.settings before steps ∧
      expansion.expandAt (before ++ steps) node.below = .ok (visit.below, leaves) ∧
      visit.below.isEmpty = node.below.isEmpty := by
  -- Each level takes one more step and has one more header above; siblings share both.
  induction forest generalizing before expanded above with
  | nil =>
    cases returned
    cases member
  | cons node children siblings under beside =>
    obtain ⟨picked, parts, rest, picks, related, later, rfl⟩ := expandAt_cons_iff.mp returned
    rw [Expanded.visits_foldr_append, mem_append, mem_flatMap] at member
    rcases member with ⟨part, among, inside⟩ | after
    · obtain ⟨value, _, below, expandedBelow, rfl⟩ := exists_left_of_forall₂ related among
      have leaf : children.isEmpty → below.1 = .nil := by
        intro empty
        rw [isEmpty_iff.mp empty] at expandedBelow
        cases expandedBelow
        rfl
      rcases mem_visits_place leaf inside with ⟨rfl, childless⟩ | deeper
      · exact ⟨[(node, value)], below.2, ⟨before.map Prod.fst, node, children⟩, mem_cons_self,
          by simp, by simp [chain], expandedBelow, childless⟩
      · obtain ⟨steps, leaves, visited, known, above, chained, made, childless⟩ :=
          under expandedBelow deeper
        refine ⟨(node, value) :: steps, leaves, visited, ?_, by simpa using above,
          by simpa [chain] using chained, by simpa using made, childless⟩
        rw [map_append] at known
        exact mem_cons_of_mem _ (mem_append_left _ known)
    · obtain ⟨steps, leaves, visited, known, rest⟩ := beside later after
      exact ⟨steps, leaves, visited, mem_cons_of_mem _ (mem_append_right _ known), rest⟩

/-- Every place among the headers of an axis is reached by steps down the axis. -/
theorem exists_place (returned : expansion.expandAt [] forest = .ok expanded)
    {place : List Header × Forest Header} (member : place ∈ expanded.1.places []) :
    ∃ steps nodes leaves, (steps.map Prod.fst, nodes) ∈ forest.places [] ∧
      Traces place.1 steps ∧ expansion.expandAt steps nodes = .ok (place.2, leaves) := by
  rcases mem_cons.mp member with rfl | deeper
  · exact ⟨[], forest, expanded.2, mem_cons_self, .nil, returned⟩
  · obtain ⟨visit, there, rfl⟩ := mem_map.mp deeper
    obtain ⟨steps, leaves, node, known, above, chained, made, _⟩ := exists_visit returned there
    refine ⟨steps, node.below, leaves, ?_, ?_, made⟩
    · refine mem_cons_of_mem _ (mem_map.mpr ⟨node, known, ?_⟩)
      rw [above, nil_append]
    · rw [chained]
      exact traces_chain _ _ steps

end Expansion

/-! ### Other nodes -/

/-- A change of nodes that keeps what an expansion writes on headers. -/
structure Node.Recasts (f : Node → Node) : Prop where
  id_eq : ∀ node, (f node).id = node.id
  field?_eq : ∀ node, (f node).field? = node.field?
  label_eq : ∀ node, (f node).label = node.label

theorem recasts_id : Node.Recasts id := ⟨fun _ => rfl, fun _ => rfl, fun _ => rfl⟩

/-- The leaf of the same branch with its nodes changed. -/
def Leaf.recast (f : Node → Node) (leaf : Leaf) : Leaf := { leaf with branch := leaf.branch.map f }

def Expanded.recast (f : Node → Node) (expanded : Expanded) : Expanded :=
  (expanded.1, expanded.2.map (Leaf.recast f))

variable {f : Node → Node}

namespace Expanded

theorem recast_foldr (own : List Expanded) (rest : Expanded) :
    (own.foldr append rest).recast f = (own.map (recast f)).foldr append (rest.recast f) := by
  induction own with
  | nil => rfl
  | cons part own ih =>
    rw [foldr_cons, map_cons, foldr_cons, ← ih]
    simp only [append, recast, map_append]

theorem recast_placeHeader (header : Header) (branch : List Node) (values : Row) (isLeaf : Bool)
    (below : Expanded) : (Expansion.placeHeader header branch values isLeaf below).recast f =
      Expansion.placeHeader header (branch.map f) values isLeaf (below.recast f) := by
  unfold Expansion.placeHeader
  split
  · rfl
  · unfold recast
    split <;> rfl

theorem recast_id (expanded : Expanded) : expanded.recast id = expanded := by
  have leaf : Leaf.recast id = id := by
    funext leaf
    rw [Leaf.recast, List.map_id, id]
  rw [recast, leaf, List.map_id]

theorem allAt_recast (expanded : Expanded) (path : Path) :
    Leaf.allAt (expanded.recast f).2 path = (Leaf.allAt expanded.2 path).map (Leaf.recast f) := by
  simp only [recast, Leaf.allAt, filter_map]
  rfl

end Expanded

namespace Expansion

variable {a b : Expansion} (recasts : Node.Recasts f) (settings : b.settings = a.settings)

include recasts settings

/-- An expansion that finds the same members at the changed nodes makes the same headers, and leaves
of the changed branches. -/
theorem expand_recast {forest : Forest Node} {branch : List Node}
    (members : ∀ visit ∈ forest.visits branch, ∀ field, visit.node.field? = some field →
      ∀ values, b.members visit.scope (f visit.node) field values =
        a.members visit.scope visit.node field values) (path : Path) (values : Row) :
    Related (fun expanded expanded' => expanded' = expanded.recast f)
      (a.expand forest path branch values) (b.expand (forest.map f) path (branch.map f) values) := by
  induction forest generalizing branch path values with
  | nil => exact .ok rfl
  | cons node children siblings below beside =>
    rw [Forest.visits, forall_mem_cons, forall_mem_append] at members
    obtain ⟨here, under, after⟩ := members
    -- The node looks for its members below the same fields, so it makes the same headers.
    have headed : a.headers path branch values node =
        b.headers path (branch.map f) values (f node) := by
      unfold headers
      rw [recasts.field?_eq, fieldsOf_map_of_field? recasts.field?_eq]
      cases named : node.field? with
      | none => simp only [settings, recasts.id_eq, recasts.label_eq]
      | some field => simp only [here field named values, settings, recasts.id_eq]
    refine (Related.of_eq headed).bind ?_
    rintro made _ rfl
    refine (Related.mapM (S := fun part part' => part' = part.recast f)
      (forall₂_same.mpr fun _ _ => rfl) ?_).bind ?_
    · rintro ⟨header, values⟩ _ rfl
      have deeper := below under header.path values
      rw [map_append] at deeper
      refine deeper.bind ?_
      rintro inner _ rfl
      refine .ok ?_
      rw [Expanded.recast_placeHeader, Forest.isEmpty_map, map_append]
      rfl
    · intro own own' each
      refine (beside after path values).bind ?_
      rintro rest _ rfl
      have parts : own' = own.map (Expanded.recast f) := by
        rw [← forall₂_eq_eq_eq, forall₂_map_right_iff]
        exact each.flip
      rw [parts]
      exact .ok (Expanded.recast_foldr own rest).symm

theorem expandAxis_recast {axis axis' : Axis} (forest : axis'.forest = axis.forest.map f)
    (members : ∀ visit ∈ axis.visits, ∀ field, visit.node.field? = some field →
      ∀ values, b.members visit.scope (f visit.node) field values =
        a.members visit.scope visit.node field values) :
    Related (fun expanded expanded' => expanded' = expanded.recast f) (a.expandAxis axis)
      (b.expandAxis axis') := by
  unfold expandAxis Axis.isEmpty
  rw [forest, Forest.isEmpty_map]
  split
  · exact .ok rfl
  · exact expand_recast recasts settings members [] []

end Expansion

end Crosstab
