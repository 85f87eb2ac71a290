import Crosstab.Proofs.Grid.BranchLeaves
import Crosstab.Proofs.Grid.HeaderMembers

/-!
# Headers above leaves

The branches of the header trees belong to the leaves, one to each and from left to right. A header
stands above as many leaves as it spans.
-/
namespace Crosstab

open List Header Forest

/-! ### Headers of steps -/

namespace Header

def segment (header : Header) : String × Value :=
  match header.field with
  | some field => (field, header.value)
  | none => Path.totalSegment

variable {settings : Settings} {before steps : List Step}

private theorem map_segment_chain :
    (chain settings before steps).map segment = steps.map Step.segment := by
  induction steps generalizing before with
  | nil => rfl
  | cons step steps ih =>
    rw [chain, map_cons, map_cons, ih]
    rfl

theorem chain_concat (step : Step) : chain settings before (steps ++ [step]) =
    chain settings before steps ++ [ofStep settings (before ++ steps) step] := by
  induction steps generalizing before with
  | nil => simp [chain]
  | cons first steps ih => simp [chain, ih]

theorem path_getLast?_chain :
    (chain settings [] steps).getLast?.elim [] path = steps.map Step.segment := by
  obtain rfl | ⟨steps, step, rfl⟩ := eq_nil_or_concat' steps
  · rfl
  · simp [chain_concat, ofStep]

end Header

/-- The branches of the header trees, with the leaf at the end of each. -/
theorem Expansion.forall₂_branches {expansion : Expansion} {before : List Step}
    {forest : Forest Node} {expanded : Expanded}
    (returned : expansion.expandAt before forest = .ok expanded) :
    Forall₂ (fun chain leaf => ∃ steps, chain = Header.chain expansion.settings before steps ∧
      leaf = Leaf.ofSteps (before ++ steps)) expanded.1.branches expanded.2 := by
  induction forest generalizing before expanded with
  | nil =>
    cases returned
    exact .nil
  | cons node children siblings under beside =>
    obtain ⟨picked, parts, rest, -, related, later, rfl⟩ := expandAt_cons_iff.mp returned
    clear returned
    induction related with
    | nil => exact beside later
    | cons head _ ih =>
      obtain ⟨below, expandedBelow, rfl⟩ := head
      rw [foldr_cons, Expanded.append, branches_append]
      refine rel_append ?_ ih
      unfold place placeHeader
      split
      · exact .cons ⟨[_], rfl, rfl⟩ .nil
      · split
        · exact .nil
        next some =>
          -- The header comes before all branches below it, and its step before their steps.
          rw [branches_cons, if_neg some, branches, append_nil, forall₂_map_left_iff]
          refine (under expandedBelow).imp ?_
          rintro _ _ ⟨steps, rfl, rfl⟩
          exact ⟨_ :: steps, rfl, by simp⟩

/-! ### Agreement -/

/-- The headers of an expanded axis agree with its leaves. -/
structure Expanded.Agrees (axis : Axis) (expanded : Expanded) : Prop where
  /-- An empty axis has no headers, and a single leaf without a path. -/
  empty : axis.isEmpty = true → expanded.1 = .nil ∧ expanded.2.map Leaf.path = [[]]
  /-- The branches of headers belong to the leaves, one to each. -/
  chains : axis.isEmpty = false → List.Forall₂ (fun chain leaf =>
    chain.map Header.node = leaf.branch.map Node.id ∧ chain.map segment = leaf.path)
      expanded.1.branches expanded.2
  /-- The childless headers list the leaves. -/
  ends : axis.isEmpty = false → expanded.1.ends.map path = expanded.2.map Leaf.path
  /-- A header stands above leaves next to each other, as many as it spans: behind the leaves of the
  headers to its left stand those of the childless headers below it. -/
  beneath : ∀ front visit behind, expanded.1.visits [] = front ++ visit :: behind →
    ∃ left under right, expanded.2 = left ++ under ++ right ∧
      left.map Leaf.path = (childless front).map path ∧
      under.map Leaf.path = (childless
        (visit :: visit.below.visits (visit.above ++ [visit.node]))).map path ∧
      under.length = visit.below.span
  /-- The top headers span all leaves. -/
  total : axis.isEmpty = false →
    (expanded.1.trees.map fun tree => tree.2.span).sum = expanded.2.length
  /-- A header adds its segment to the path of its parent. -/
  paths : ∀ visit ∈ expanded.1.visits [],
    visit.node.path = visit.parent?.elim [] path ++ [visit.node.segment]
  /-- A header stands for a node, which is childless if and only if the header is. -/
  nodes : ∀ visit ∈ expanded.1.visits [],
    (∃ node ∈ axis.visits, node.node.id = visit.node.node) ∧
      ∀ node ∈ axis.visits, node.node.id = visit.node.node →
        node.below.isEmpty = visit.below.isEmpty
  branches : ∀ leaf ∈ expanded.2, leaf.branch ∈ axis.branches

namespace Expansion

variable {expansion : Expansion} {axis : Axis} {expanded : Expanded} {visit : Visit Header}
  {headers : Forest Header} {leaves : List Leaf}

private theorem expandAt_of_inhabited (returned : expansion.expandAxis axis = .ok expanded)
    (inhabited : axis.isEmpty = false) : expansion.expandAt [] axis.forest = .ok expanded := by
  rw [expandAxis, if_neg (by simp [inhabited])] at returned
  exact returned

private theorem chains_agree (returned : expansion.expandAt [] axis.forest = .ok expanded) :
    Forall₂ (fun chain leaf => chain.map Header.node = leaf.branch.map Node.id ∧
      chain.map segment = leaf.path) expanded.1.branches expanded.2 := by
  refine (forall₂_branches returned).imp ?_
  rintro _ _ ⟨steps, rfl, rfl⟩
  refine ⟨?_, map_segment_chain⟩
  rw [Leaf.branch_ofSteps, nil_append, (traces_chain _ _ steps).nodes_eq]

private theorem ends_agree (returned : expansion.expandAt [] axis.forest = .ok expanded) :
    expanded.1.ends.map path = expanded.2.map Leaf.path := by
  have last : (expanded.1.branches.map getLast?).map (fun header => header.elim [] path) =
      expanded.2.map Leaf.path := by
    rw [map_map, ← forall₂_eq_eq_eq, forall₂_map_left_iff, forall₂_map_right_iff]
    refine (forall₂_branches returned).imp ?_
    rintro _ _ ⟨steps, rfl, rfl⟩
    exact path_getLast?_chain
  rw [← last, ← map_some_childless _ [], map_map]
  rfl

/-- What stands beneath a header is read off the childless headers. -/
theorem exists_beneath (listed : expanded.1.ends.map path = expanded.2.map Leaf.path)
    {front behind : List (Visit Header)} (split : expanded.1.visits [] = front ++ visit :: behind) :
    ∃ left under right, expanded.2 = left ++ under ++ right ∧
      left.map Leaf.path = (childless front).map path ∧
      under.map Leaf.path = (childless
        (visit :: visit.below.visits (visit.above ++ [visit.node]))).map path ∧
      under.length = visit.below.span := by
  obtain ⟨after, rfl⟩ := exists_visits_behind split
  rw [ends, split, ← cons_append, ← append_assoc, childless_append,
    childless_append, map_append, map_append, eq_comm, map_eq_append_iff] at listed
  obtain ⟨_, right, leaves, listed, _⟩ := listed
  obtain ⟨left, under, rfl, lefts, unders⟩ := map_eq_append_iff.mp listed
  refine ⟨left, under, right, leaves, lefts, unders, ?_⟩
  rw [← length_childless visit (visit.above ++ [visit.node]), ← length_map Leaf.path, unders,
    length_map]

private theorem path_agrees (returned : expansion.expandAt [] axis.forest = .ok (headers, leaves))
    (member : visit ∈ headers.visits []) :
    visit.node.path = visit.parent?.elim [] path ++ [visit.node.segment] := by
  obtain ⟨steps, _, _, _, _, chained, _⟩ := exists_visit returned member
  obtain rfl | ⟨steps, step, rfl⟩ := eq_nil_or_concat' steps
  · simp [chain] at chained
  · rw [chain_concat, ← append_assoc] at chained
    obtain ⟨above, last⟩ := append_inj' chained rfl
    rw [Visit.parent?, above, nil_append, path_getLast?_chain, singleton_inj.mp last]
    exact map_append

private theorem nodes_agree (numbered : axis.forest.IsNumbered)
    (returned : expansion.expandAt [] axis.forest = .ok (headers, leaves))
    (member : visit ∈ headers.visits []) :
    (∃ node ∈ axis.visits, node.node.id = visit.node.node) ∧
      ∀ node ∈ axis.visits, node.node.id = visit.node.node →
        node.below.isEmpty = visit.below.isEmpty := by
  obtain ⟨steps, _, node, known, above, chained, _, childless⟩ := exists_visit returned member
  have ids := (traces_chain expansion.settings [] steps).nodes_eq
  rw [nil_append] at above chained
  rw [← chained, ← above, map_append, map_append] at ids
  have own : node.node.id = visit.node.node := by simpa using (append_inj' ids rfl).2.symm
  refine ⟨⟨node, known, own⟩, ?_⟩
  intro other visited same
  -- Numbers tell nodes apart.
  rw [inj_on_of_nodup_map (Axis.nodup_ids_visits numbered) visited known (same.trans own.symm),
    childless]

private theorem agrees (numbered : axis.forest.IsNumbered)
    (returned : expansion.expandAxis axis = .ok expanded) : expanded.Agrees axis := by
  obtain ⟨leaves, headed⟩ := expandAt_of_expandAxis returned
  have ends (inhabited : axis.isEmpty = false) :=
    ends_agree (expandAt_of_inhabited returned inhabited)
  constructor
  case empty =>
    intro empty
    rw [expandAxis, if_pos empty] at returned
    cases returned
    exact ⟨rfl, rfl⟩
  case chains => exact fun inhabited => chains_agree (expandAt_of_inhabited returned inhabited)
  case ends => exact ends
  case beneath =>
    intro front visit behind split
    cases empty : axis.isEmpty with
    | false => exact exists_beneath (ends empty) split
    | true =>
      rw [expandAxis, if_pos empty] at returned
      cases returned
      simp [visits] at split
  case total =>
    intro inhabited
    rw [sum_spans, ← length_branches]
    exact (chains_agree (expandAt_of_inhabited returned inhabited)).length_eq
  case paths => exact fun _ => path_agrees headed
  case nodes => exact fun _ => nodes_agree numbered headed
  case branches => exact fun _ => branch_mem returned

/-! ### Every axis is expanded -/

variable (expansion) in
/-- All that can become a member can be looked up. -/
def Hashable : Prop :=
  (∀ id, ∀ row ∈ expansion.nodeRows id, ∀ field, (row.get field).hashable = true) ∧
    ∀ selection ∈ expansion.selections, ∀ entry ∈ selection.byParent, ∀ member ∈ entry.2,
      member.hashable = true

private theorem hashable_values {steps : List Step} (usable : ∀ step ∈ steps, step.2.hashable)
    (field : String) : ((Step.values steps).get field).hashable := by
  induction steps using reverseRecOn with
  | nil => rfl
  | append_singleton steps step ih =>
    rw [forall_mem_append, forall_mem_singleton] at usable
    rw [Step.values_concat, Step.extend]
    split
    · rw [Row.get_set]
      split
      · exact usable.2
      · exact ih usable.1
    · exact ih usable.1

/-- A dimension has members wherever the values above it can be looked up. -/
theorem exists_members (hashable : expansion.Hashable) {values : Row}
    (held : ∀ field, (values.get field).hashable) (above : List String) (node : Node)
    (field : String) : ∃ members, expansion.members above node field values = .ok members ∧
      ∀ member ∈ members, member.hashable := by
  unfold members
  split
  next selection known =>
    have parent : (above.map values.get).all Value.hashable := by simp [held]
    refine ⟨_, if_pos parent, ?_⟩
    intro member among
    cases found : selection.byParent.find? fun entry => Value.sameKeys entry.1 _ with
    | none =>
      rw [found] at among
      cases among
    | some entry =>
      rw [found] at among
      exact hashable.2 selection (mem_of_find?_eq_some known) entry (mem_of_find?_eq_some found)
        member among
  next =>
    unfold foundMembers
    extract_lets rows found
    have usable : ∀ value ∈ found, value.hashable := by
      intro value told
      obtain ⟨row, kept, rfl⟩ := mem_map.mp told
      exact hashable.1 node.id row (mem_of_mem_filter kept) field
    obtain ⟨all, ranked, arranged, _⟩ := rank_members (Value.distinct found) node.order.ranking
    refine ⟨_, (if_pos (all_eq_true.mpr usable)).trans ranked, ?_⟩
    intro member kept
    have listed := arranged.mem_iff.mp ((Ranking.cut_sublist _ _).subset kept)
    exact usable member (Value.mem_of_mem_distinct listed)

private theorem exists_expandAt (hashable : expansion.Hashable) (forest : Forest Node)
    {before : List Step} (usable : ∀ step ∈ before, step.2.hashable) :
    ∃ expanded, expansion.expandAt before forest = .ok expanded := by
  induction forest generalizing before with
  | nil => exact ⟨_, rfl⟩
  | cons node children siblings below beside =>
    have picks : ∃ picked, expansion.Picks before node picked ∧
        ∀ value ∈ picked, value.hashable := by
      unfold Picks
      cases node.field? with
      | none => exact ⟨_, rfl, by simp [Value.hashable]⟩
      | some field => exact exists_members hashable (hashable_values usable) _ node field
    obtain ⟨picked, picks, members⟩ := picks
    have parts : ∃ parts, Forall₂ (fun value part => ∃ below,
        expansion.expandAt (before ++ [(node, value)]) children = .ok below ∧
          part = expansion.place before (node, value) children.isEmpty below) picked parts := by
      apply exists_forall₂
      intro value member
      have next : ∀ step ∈ before ++ [(node, value)], step.2.hashable := by
        rw [forall_mem_append, forall_mem_singleton]
        exact ⟨usable, members value member⟩
      obtain ⟨under, expanded⟩ := below next
      exact ⟨_, under, expanded, rfl⟩
    obtain ⟨parts, related⟩ := parts
    obtain ⟨rest, later⟩ := beside usable
    exact ⟨_, expandAt_cons_iff.mpr ⟨picked, parts, rest, picks, related, later, rfl⟩⟩

private theorem exists_expandAxis (hashable : expansion.Hashable) (axis : Axis) :
    ∃ expanded, expansion.expandAxis axis = .ok expanded := by
  unfold expandAxis
  split
  · exact ⟨_, rfl⟩
  · have start : ∀ step ∈ ([] : List Step), step.2.hashable = true := forall_mem_nil _
    exact exists_expandAt hashable axis.forest start

/-- An axis is always expanded into headers that agree with its leaves, whatever members were
selected and whatever rows the nodes have, as long as all can be looked up. It makes no difference
that a leaf is noted before a header above it may be dropped, as a header is dropped only where
nothing was noted. -/
theorem headers_agree_with_leaves {schema : Schema} {measures : List Measure}
    {clause : Option (AxisClause (List String))}
    (built : Axis.ofClause schema measures clause = .ok axis) (expansion : Expansion) :
    (expansion.Hashable → ∃ expanded, expansion.expandAxis axis = .ok expanded) ∧
      (expansion.collectAxis axis).run [] = expansion.expandAxis axis ∧
      (∀ expanded, expansion.expandAxis axis = .ok expanded → expanded.Agrees axis) ∧
      ∀ steps nodes below, expansion.expandAt steps nodes = .ok below →
        below.1.isEmpty = true → below.2 = [] := by
  refine ⟨fun hashable => exists_expandAxis hashable axis, run_collectAxis axis, ?_, ?_⟩
  · intro expanded returned
    exact agrees (Axis.isNumbered_of_ofClause built) returned
  · intro steps nodes below returned none
    exact leaves_eq_nil returned none

/-- Three towns were selected, but jobs only in the first and the last: the second leaves nothing. -/
theorem headers_agree_with_leaves_of_towns :
    let schema := Schema.ofNames ["town", "job"] []
    let clause : AxisClause (List String) :=
      [[.column "town", .axis [[.column "job"], [.overall, .column "job"]]]]
    let expansion : Expansion :=
      ⟨[⟨0, "town", [([], ["A", "B", "C"])]⟩, ⟨1, "job", [(["A"], ["x", "y"])]⟩,
        ⟨3, "job", [(["C"], ["z"])]⟩], fun _ => [], {}⟩
    ∃ axis expanded,
      Axis.ofClause schema [] (some clause) = .ok axis ∧
      expansion.expandAxis axis = .ok expanded ∧
      expanded.2.map Leaf.path =
        [([("town", "A"), ("job", "x")] : Path), [("town", "A"), ("job", "y")],
          [("town", "C"), Path.totalSegment, ("job", "z")]] ∧
      expanded.1.trees.map (fun tree => tree.2.span) = [2, 1] ∧ expanded.Agrees axis := by
  intro schema clause expansion
  have built : Axis.ofClause schema [] (some clause) = .ok _ := rfl
  obtain ⟨_, _, agree, _⟩ := headers_agree_with_leaves built expansion
  exact ⟨_, _, built, rfl, rfl, rfl, agree _ rfl⟩

end Expansion

end Crosstab
