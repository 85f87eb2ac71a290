import Crosstab.Axis
import Mathlib.Algebra.BigOperators.Group.List.Basic
import Mathlib.Algebra.GroupWithZero.Nat
import Mathlib.Data.List.Basic
import Mathlib.Data.List.ModifyLast

/-!
# Views of forests

How the operations on forests look through their branches, their walk and their ends, and forests of
one form whose nodes are related place by place.
-/
namespace Crosstab

open List

namespace Forest

variable {α β : Type}

variable {forest : Forest α} {branch above : List α} {node : α} {visit : Visit α}

theorem isEmpty_iff : forest.isEmpty ↔ forest = .nil := by
  cases forest <;> simp [isEmpty]

/-! ### Branches -/

theorem branches_cons (node : α) (children siblings : Forest α) :
    (cons node children siblings).branches =
      (if children.isEmpty then [[node]] else children.branches.map (node :: ·)) ++
        siblings.branches := by
  cases children <;> simp [branches, isEmpty]

theorem leafCount_cons (node : α) (children siblings : Forest α) :
    (cons node children siblings).leafCount = children.span + siblings.leafCount := by
  cases children <;> simp [leafCount, span, isEmpty]

@[simp] theorem branches_eq_nil : forest.branches = [] ↔ forest = .nil := by
  constructor
  · intro none
    induction forest with
    | nil => rfl
    | cons node children siblings below _ =>
      rw [branches_cons, append_eq_nil_iff] at none
      by_cases leaf : children.isEmpty
      · simp [leaf] at none
      · simp only [leaf, Bool.false_eq_true, ↓reduceIte, map_eq_nil_iff] at none
        exact absurd (isEmpty_iff.mpr (below none.1)) leaf
  · rintro rfl
    rfl

theorem length_branches (forest : Forest α) : forest.branches.length = forest.leafCount := by
  induction forest with
  | nil => rfl
  | cons node children siblings below beside =>
    rw [branches_cons, leafCount_cons, length_append, beside, span]
    split <;> simp [below]

theorem ne_nil_of_mem_branches (member : branch ∈ forest.branches) : branch ≠ [] := by
  induction forest generalizing branch with
  | nil => cases member
  | cons node children siblings _ beside =>
    rw [branches_cons, mem_append] at member
    rcases member with own | other
    · split at own
      · rw [mem_singleton.mp own]
        exact cons_ne_nil _ _
      · obtain ⟨rest, _, rfl⟩ := mem_map.mp own
        exact cons_ne_nil _ _
    · exact beside other

theorem branches_append (left right : Forest α) :
    (left.append right).branches = left.branches ++ right.branches := by
  induction left with
  | nil => rfl
  | cons node children siblings _ beside =>
    rw [append, branches_cons, branches_cons, beside, append_assoc]

theorem map_id (forest : Forest α) : forest.map id = forest := by
  induction forest with
  | nil => rfl
  | cons node _ _ below beside => rw [map, below, beside, id]

theorem isEmpty_map (f : α → β) (forest : Forest α) : (forest.map f).isEmpty = forest.isEmpty := by
  cases forest <;> rfl

theorem branches_map (f : α → β) (forest : Forest α) :
    (forest.map f).branches = forest.branches.map (List.map f) := by
  induction forest with
  | nil => rfl
  | cons node children siblings below beside =>
    rw [map, branches_cons, branches_cons, map_append, beside, isEmpty_map]
    split
    · rfl
    · rw [below, map_map, map_map]
      rfl

theorem mapLeaves_cons (f : α → α) (node : α) (children siblings : Forest α) :
    (cons node children siblings).mapLeaves f =
      cons (if children.isEmpty then f node else node) (children.mapLeaves f)
        (siblings.mapLeaves f) := by
  cases children <;> rfl

theorem isEmpty_mapLeaves (f : α → α) (forest : Forest α) :
    (forest.mapLeaves f).isEmpty = forest.isEmpty := by
  cases forest with
  | nil => rfl
  | cons node children siblings => rw [mapLeaves_cons]; rfl

theorem branches_mapLeaves (f : α → α) (forest : Forest α) :
    (forest.mapLeaves f).branches = forest.branches.map (modifyLast f) := by
  induction forest with
  | nil => rfl
  | cons node children siblings below beside =>
    rw [mapLeaves_cons, branches_cons, branches_cons, map_append, beside, isEmpty_mapLeaves]
    by_cases leaf : children.isEmpty
    · simp only [leaf, ↓reduceIte]
      rfl
    · simp only [leaf, Bool.false_eq_true, ↓reduceIte, below, map_map]
      congr 1
      apply map_congr_left
      intro branch member
      have more := modifyLast_append_of_right_ne_nil f [node] branch
        (ne_nil_of_mem_branches member)
      simpa using more.symm

theorem graft_cons (below : Nat → Forest α) (start : Nat) (node : α) (children siblings : Forest α) :
    graft below start (cons node children siblings) =
      cons node (if children.isEmpty then below start else graft below start children)
        (graft below (start + children.span) siblings) := by
  cases children <;> rfl

private theorem isEmpty_graft (below : Nat → Forest α) (start : Nat) (forest : Forest α) :
    (graft below start forest).isEmpty = forest.isEmpty := by
  cases forest with
  | nil => rfl
  | cons node children siblings => rw [graft_cons]; rfl

/-- The branches that a branch becomes when a forest is put below its leaf. -/
def continuations (branch : List α) (below : Forest α) : List (List α) :=
  if below.isEmpty then [branch] else below.branches.map (branch ++ ·)

private theorem continuations_cons (node : α) (branch : List α) (below : Forest α) :
    continuations (node :: branch) below = (continuations branch below).map (node :: ·) := by
  unfold continuations
  split <;> simp

theorem branches_graft (below : Nat → Forest α) (start : Nat) (forest : Forest α) :
    (graft below start forest).branches =
      (forest.branches.zipIdx start).flatMap fun entry =>
        continuations entry.1 (below entry.2) := by
  induction forest generalizing start with
  | nil => rfl
  | cons node children siblings under beside =>
    rw [graft_cons, branches_cons, branches_cons, beside, zipIdx_append, flatMap_append]
    by_cases leaf : children.isEmpty
    · simp only [leaf, ↓reduceIte, span, zipIdx_cons, zipIdx_nil, flatMap_cons,
        flatMap_nil, append_nil, length_singleton]
      rfl
    · simp only [leaf, Bool.false_eq_true, ↓reduceIte, isEmpty_graft, under, span,
        zipIdx_map, flatMap_map, length_map, length_branches, map_flatMap]
      congr 1
      apply flatMap_congr
      intro entry _
      exact (continuations_cons node entry.1 (below entry.2)).symm

/-! ### Walks -/

theorem length_walk (forest : Forest α) : forest.walk.length = forest.size := by
  induction forest with
  | nil => rfl
  | cons node children siblings below beside =>
    simp only [walk, size, length_cons, length_append, below, beside]
    omega

theorem walk_append (left right : Forest α) :
    (left.append right).walk = left.walk ++ right.walk := by
  induction left with
  | nil => rfl
  | cons node children siblings _ beside => simp [append, walk, beside]

theorem walk_map (f : α → β) (forest : Forest α) : (forest.map f).walk = forest.walk.map f := by
  induction forest with
  | nil => rfl
  | cons node children siblings below beside => simp [map, walk, below, beside]

theorem walk_mapLeaves (f : α → α) (view : α → β) (kept : ∀ a, view (f a) = view a)
    (forest : Forest α) : (forest.mapLeaves f).walk.map view = forest.walk.map view := by
  induction forest with
  | nil => rfl
  | cons node children siblings below beside =>
    rw [mapLeaves_cons]
    have same : view (if children.isEmpty then f node else node) = view node := by
      split
      · exact kept node
      · rfl
    simp [walk, below, beside, same]

/-- A walk through a forest with others below its leaves meets its own nodes and those of the others,
one forest for each leaf. -/
theorem walk_graft (below : Nat → Forest α) (start : Nat) (forest : Forest α) :
    (graft below start forest).walk.Perm
      (forest.walk ++ (range' start forest.leafCount).flatMap fun leaf => (below leaf).walk) := by
  induction forest generalizing start with
  | nil => exact .refl _
  | cons node children siblings under beside =>
    rw [graft_cons, leafCount_cons, ← range'_append_1, flatMap_append]
    simp only [walk, cons_append]
    refine Perm.cons node ?_
    by_cases leaf : children.isEmpty
    · have none : children = .nil := isEmpty_iff.mp leaf
      subst none
      simp only [leaf, ↓reduceIte, walk, nil_append, span, range'_one, flatMap_singleton]
      refine ((beside (start + 1)).append_left _).trans ?_
      exact perm_append_comm_assoc _ _ _
    · simp only [leaf, Bool.false_eq_true, ↓reduceIte, span]
      refine ((under start).append (beside (start + children.leafCount))).trans ?_
      simp only [append_assoc]
      exact (perm_append_comm_assoc _ _ _).append_left _

theorem mem_walk_of_mem_branches (member : branch ∈ forest.branches) (along : node ∈ branch) :
    node ∈ forest.walk := by
  induction forest generalizing branch with
  | nil => cases member
  | cons first children siblings below beside =>
    simp only [walk, mem_cons, mem_append]
    rw [branches_cons, mem_append] at member
    rcases member with own | other
    · split at own
      · rw [mem_singleton.mp own] at along
        exact .inl (mem_singleton.mp along)
      · obtain ⟨rest, under, rfl⟩ := mem_map.mp own
        rcases mem_cons.mp along with rfl | deeper
        · exact .inl rfl
        · exact .inr (.inl (below under deeper))
    · exact .inr (.inr (beside other along))

theorem exists_branch_of_mem_walk (member : node ∈ forest.walk) :
    ∃ branch ∈ forest.branches, node ∈ branch := by
  induction forest with
  | nil => cases member
  | cons first children siblings below beside =>
    simp only [branches_cons, mem_append]
    simp only [walk, mem_cons, mem_append] at member
    rcases member with rfl | under | after
    · by_cases leaf : children.isEmpty = true
      · exact ⟨[node], by simp [leaf], mem_cons_self⟩
      · -- Some branch goes on below an inner node, and it starts with the node itself.
        have inhabited : children.branches ≠ [] := fun none =>
          leaf (isEmpty_iff.mpr (branches_eq_nil.mp none))
        obtain ⟨rest, member⟩ := exists_mem_of_ne_nil _ inhabited
        exact ⟨node :: rest, by simp [leaf, member], mem_cons_self⟩
    · have inner : children.isEmpty = false := by
        cases children with
        | nil => cases under
        | cons => rfl
      obtain ⟨rest, member, along⟩ := below under
      exact ⟨first :: rest, by simp [inner, member], mem_cons_of_mem _ along⟩
    · obtain ⟨branch, member, along⟩ := beside after
      exact ⟨branch, .inr member, along⟩

theorem map_node_visits (forest : Forest α) (above : List α) :
    (forest.visits above).map Visit.node = forest.walk := by
  induction forest generalizing above with
  | nil => rfl
  | cons node children siblings below beside => simp [visits, walk, below, beside]

theorem exists_branch_of_mem_visits (member : visit ∈ forest.visits above) :
    ∃ branch ∈ forest.branches, visit.above ++ [visit.node] <+: above ++ branch := by
  induction forest generalizing above with
  | nil => cases member
  | cons node children siblings below beside =>
    simp only [branches_cons, mem_append]
    rw [visits, mem_cons, mem_append] at member
    rcases member with rfl | under | after
    · have own : node ∈ (cons node children .nil).walk := by simp [walk]
      obtain ⟨branch, inside, _⟩ := exists_branch_of_mem_walk own
      rw [branches_cons, branches, append_nil] at inside
      refine ⟨branch, .inl inside, prefix_append_right_inj above |>.mpr ?_⟩
      split at inside
      · obtain rfl := mem_singleton.mp inside
        exact prefix_rfl
      · obtain ⟨rest, _, rfl⟩ := mem_map.mp inside
        exact ⟨rest, rfl⟩
    · obtain ⟨rest, inside, before⟩ := below under
      have inner : children.isEmpty = false := by
        cases children with
        | nil => cases inside
        | cons => rfl
      rw [append_assoc] at before
      exact ⟨node :: rest, by simp [inner, inside], before⟩
    · obtain ⟨branch, inside, before⟩ := beside after
      exact ⟨branch, .inr inside, before⟩

theorem exists_visit_of_prefix {before : List α} (member : branch ∈ forest.branches)
    (starts : before ++ [node] <+: branch) (above : List α) :
    ∃ visit ∈ forest.visits above, visit.above = above ++ before ∧ visit.node = node := by
  induction forest generalizing branch before above with
  | nil => cases member
  | cons first children siblings below beside =>
    rw [branches_cons, mem_append] at member
    rcases member with own | other
    · obtain ⟨rest, spelled, deeper⟩ : ∃ rest, branch = first :: rest ∧
          (rest = [] ∨ rest ∈ children.branches) := by
        split at own
        · exact ⟨[], mem_singleton.mp own, .inl rfl⟩
        · obtain ⟨rest, inside, rfl⟩ := mem_map.mp own
          exact ⟨rest, rfl, .inr inside⟩
      subst spelled
      cases before with
      | nil =>
        obtain ⟨same, _⟩ := cons_prefix_cons.mp starts
        exact ⟨⟨above, first, children⟩, mem_cons_self, by simp, same.symm⟩
      | cons head before =>
        obtain ⟨rfl, goesOn⟩ := cons_prefix_cons.mp starts
        rcases deeper with rfl | inside
        · simp at goesOn
        · obtain ⟨visit, there, chain, same⟩ := below inside goesOn (above ++ [head])
          refine ⟨visit, mem_cons_of_mem _ (mem_append_left _ there), ?_, same⟩
          simpa using chain
    · obtain ⟨visit, there, found⟩ := beside other starts above
      exact ⟨visit, mem_cons_of_mem _ (mem_append_right _ there), found⟩

/-! ### Places -/

/-- The roots with the forests of their children. -/
def trees : Forest α → List (α × Forest α)
  | nil => []
  | cons node children siblings => (node, children) :: siblings.trees

theorem map_fst_trees (forest : Forest α) : forest.trees.map Prod.fst = forest.heads := by
  induction forest with
  | nil => rfl
  | cons node children siblings _ beside => simp [trees, heads, beside]

theorem isEmpty_heads (forest : Forest α) : forest.heads.isEmpty = forest.isEmpty := by
  cases forest <;> rfl

theorem heads_append (left right : Forest α) :
    (left.append right).heads = left.heads ++ right.heads := by
  induction left with
  | nil => rfl
  | cons node children siblings _ beside => simp [append, heads, beside]

theorem visits_append (left right : Forest α) (above : List α) :
    (left.append right).visits above = left.visits above ++ right.visits above := by
  induction left with
  | nil => rfl
  | cons node children siblings _ beside => simp [append, visits, beside]

/-- The chains of nodes from a root down, each with the forest below it; the empty chain has the whole
forest below. -/
def places (above : List α) (forest : Forest α) : List (List α × Forest α) :=
  (above, forest) :: (forest.visits above).map fun visit => (visit.above ++ [visit.node], visit.below)

theorem visit_mem_of_mem_trees {children : Forest α} (member : (node, children) ∈ forest.trees)
    (above : List α) : ⟨above, node, children⟩ ∈ forest.visits above := by
  induction forest with
  | nil => cases member
  | cons first under siblings _ beside =>
    rcases mem_cons.mp member with own | other
    · cases own
      exact mem_cons_self
    · exact mem_cons_of_mem _ (mem_append_right _ (beside other))

theorem heads_sublist_walk (forest : Forest α) : forest.heads.Sublist forest.walk := by
  induction forest with
  | nil => exact .refl _
  | cons node children siblings _ beside =>
    exact .cons_cons _ (beside.trans (sublist_append_right _ _))

theorem visits_sublist_of_mem_visits (member : visit ∈ forest.visits above) :
    (visit.below.visits (visit.above ++ [visit.node])).Sublist (forest.visits above) := by
  induction forest generalizing above with
  | nil => cases member
  | cons node children siblings below beside =>
    rw [visits, mem_cons, mem_append] at member
    refine .cons _ ?_
    rcases member with rfl | under | after
    · exact sublist_append_left _ _
    · exact (below under).trans (sublist_append_left _ _)
    · exact (beside after).trans (sublist_append_right _ _)

theorem visits_sublist_of_mem_places {place : List α × Forest α}
    (member : place ∈ forest.places above) :
    (place.2.visits place.1).Sublist (forest.visits above) := by
  rcases mem_cons.mp member with rfl | deeper
  · exact .refl _
  · obtain ⟨visit, there, rfl⟩ := mem_map.mp deeper
    exact visits_sublist_of_mem_visits there

/-! ### Ends -/

variable {α : Type}

def childless (visits : List (Visit α)) : List α :=
  (visits.filter fun visit => visit.below.isEmpty).map Visit.node

/-- The nodes without children, from left to right. -/
def ends (forest : Forest α) : List α := childless (forest.visits [])

theorem childless_append (visits others : List (Visit α)) :
    childless (visits ++ others) = childless visits ++ childless others := by
  rw [childless, filter_append, map_append]
  rfl

theorem childless_cons (visit : Visit α) (visits : List (Visit α)) :
    childless (visit :: visits) =
      (if visit.below.isEmpty then [visit.node] else []) ++ childless visits := by
  unfold childless
  split <;> simp [*]

theorem map_some_childless (forest : Forest α) (above : List α) :
    (childless (forest.visits above)).map some = forest.branches.map List.getLast? := by
  induction forest generalizing above with
  | nil => rfl
  | cons node children siblings below beside =>
    rw [visits, childless_cons, childless_append, map_append, map_append, below, beside,
      branches_cons, map_append, ← append_assoc]
    congr 1
    by_cases leaf : children.isEmpty
    · rw [isEmpty_iff.mp leaf]
      rfl
    · simp only [leaf, Bool.false_eq_true, ↓reduceIte, map_nil, nil_append, map_map]
      refine map_congr_left fun branch member => ?_
      exact (getLast?_append_of_ne_nil [node] (ne_nil_of_mem_branches member)).symm

theorem length_childless (visit : Visit α) (above : List α) :
    (childless (visit :: visit.below.visits above)).length = visit.below.span := by
  have under := congrArg List.length (map_some_childless visit.below above)
  rw [length_map, length_map, length_branches] at under
  rw [childless_cons, length_append, under, span]
  by_cases leaf : visit.below.isEmpty
  · rw [isEmpty_iff.mp leaf]
    rfl
  · simp [leaf]

theorem sum_spans (forest : Forest α) :
    (forest.trees.map fun tree => tree.2.span).sum = forest.leafCount := by
  induction forest with
  | nil => rfl
  | cons node children siblings _ beside =>
    rw [trees, map_cons, sum_cons, beside, leafCount_cons]

theorem exists_visits_behind {forest : Forest α} {above : List α} {front behind : List (Visit α)}
    {visit : Visit α} (split : forest.visits above = front ++ visit :: behind) :
    ∃ after, behind = visit.below.visits (visit.above ++ [visit.node]) ++ after := by
  induction forest generalizing above front behind with
  | nil => simp [visits] at split
  | cons node children siblings below beside =>
    rw [visits] at split
    cases front with
    | nil =>
      cases split
      exact ⟨_, rfl⟩
    | cons first front =>
      obtain ⟨_, split⟩ := List.cons.inj split
      -- The node stands among the siblings, or among the children with the siblings behind.
      rcases append_eq_append_iff.mp split with ⟨between, _, later⟩ | ⟨inner, under, rest⟩
      · exact beside later
      · cases inner with
        | nil => exact beside (show siblings.visits above = [] ++ visit :: behind from rest.symm)
        | cons first inner =>
          obtain ⟨rfl, rfl⟩ := List.cons.inj rest
          obtain ⟨after, rfl⟩ := below under
          exact ⟨_, append_assoc ..⟩

/-! ### Related forests -/

variable {α β γ δ : Type}

/-- Forests of one form whose nodes are related place by place. -/
inductive Forall₂ (R : α → β → Prop) : Forest α → Forest β → Prop
  | nil : Forall₂ R .nil .nil
  | cons {a : α} {b : β} {children siblings : Forest α} {children' siblings' : Forest β}
      (node : R a b) (below : Forall₂ R children children') (beside : Forall₂ R siblings siblings') :
      Forall₂ R (.cons a children siblings) (.cons b children' siblings')

namespace Forall₂

variable {R : α → β → Prop} {forest : Forest α} {forest' : Forest β}
  (related : Forall₂ R forest forest')
include related

theorem isEmpty_eq : forest'.isEmpty = forest.isEmpty := by
  cases related <;> rfl

theorem size_eq : forest'.size = forest.size := by
  induction related with
  | nil => rfl
  | cons _ _ _ below beside => rw [size, size, below, beside]

private theorem span_eq : forest'.span = forest.span := by
  have leaves : forest'.leafCount = forest.leafCount := by
    induction related with
    | nil => rfl
    | cons _ under _ below beside =>
      rw [leafCount_cons, leafCount_cons, span, span, under.isEmpty_eq, below, beside]
  rw [span, span, related.isEmpty_eq, leaves]

theorem append {right : Forest α} {right' : Forest β} (beside : Forall₂ R right right') :
    Forall₂ R (forest.append right) (forest'.append right') := by
  induction related with
  | nil => exact beside
  | cons node below _ _ ih => exact .cons node below ih

theorem map {S : γ → δ → Prop} {f : α → γ} {g : β → δ} (kept : ∀ a b, R a b → S (f a) (g b)) :
    Forall₂ S (forest.map f) (forest'.map g) := by
  induction related with
  | nil => exact .nil
  | cons node _ _ below beside => exact .cons (kept _ _ node) below beside

theorem mapLeaves {f : α → α} {g : β → β} (kept : ∀ a b, R a b → R (f a) (g b)) :
    Forall₂ R (forest.mapLeaves f) (forest'.mapLeaves g) := by
  induction related with
  | nil => exact .nil
  | cons node under _ below beside =>
    rw [mapLeaves_cons, mapLeaves_cons, under.isEmpty_eq]
    refine .cons ?_ below beside
    split
    · exact kept _ _ node
    · exact node

theorem graft {copy : Nat → Forest α} {copy' : Nat → Forest β}
    (copies : ∀ leaf, Forall₂ R (copy leaf) (copy' leaf)) (start : Nat) :
    Forall₂ R (Forest.graft copy start forest) (Forest.graft copy' start forest') := by
  induction related generalizing start with
  | nil => exact .nil
  | cons node under _ below beside =>
    rw [graft_cons, graft_cons, under.isEmpty_eq, under.span_eq]
    refine .cons node ?_ (beside _)
    split
    · exact copies start
    · exact below start

end Forall₂

/-- Nodes that are given by a function are those of the other forest after the function. -/
theorem Forall₂.eq_map {f : α → β} {forest : Forest α} {forest' : Forest β}
    (related : Forall₂ (fun a b => b = f a) forest forest') : forest' = forest.map f := by
  induction related with
  | nil => rfl
  | cons node _ _ below beside => rw [Forest.map, node, below, beside]

private theorem map_congr {f g : α → β} {forest : Forest α}
    (same : ∀ node ∈ forest.walk, f node = g node) : forest.map f = forest.map g := by
  induction forest with
  | nil => rfl
  | cons node children siblings below beside =>
    rw [walk, forall_mem_cons, forall_mem_append] at same
    rw [map, map, same.1, below same.2.1, beside same.2.2]

open scoped Classical in
/-- Where nodes are told apart, those of a related forest are given by a function. -/
theorem Forall₂.exists_map {R : α → α → Prop} (refl : ∀ a, R a a) {forest forest' : Forest α}
    (related : Forall₂ R forest forest') (unique : forest.walk.Nodup) :
    ∃ f : α → α, (∀ a, R a (f a)) ∧ forest' = forest.map f := by
  induction related with
  | nil => exact ⟨id, refl, rfl⟩
  | @cons a b children siblings children' siblings' node _ _ below beside =>
    rw [walk, nodup_cons, nodup_append, mem_append, not_or] at unique
    obtain ⟨⟨notBelow, notBeside⟩, uniqueBelow, uniqueBeside, apart⟩ := unique
    obtain ⟨f, relatedBelow, rfl⟩ := below uniqueBelow
    obtain ⟨g, relatedBeside, rfl⟩ := beside uniqueBeside
    -- The three parts of the forest share no node, so each can keep its own function.
    refine ⟨fun c => if c = a then b else if c ∈ children.walk then f c else g c, ?_, ?_⟩
    · intro c
      by_cases own : c = a
      · simpa only [own, ↓reduceIte] using node
      · simp only [own, ↓reduceIte]
        split
        · exact relatedBelow c
        · exact relatedBeside c
    · rw [Forest.map, if_pos rfl]
      congr 1
      · apply map_congr
        intro c inside
        have other : c ≠ a := fun own => notBelow (own ▸ inside)
        simp only [other, inside, ↓reduceIte]
      · apply map_congr
        intro c inside
        have other : c ≠ a := fun own => notBeside (own ▸ inside)
        have outside : c ∉ children.walk := fun also => apart c also c inside rfl
        simp only [other, outside, ↓reduceIte]

end Forest

def Visit.map {α β : Type} (f : α → β) (visit : Visit α) : Visit β :=
  ⟨visit.above.map f, f visit.node, visit.below.map f⟩

private theorem Forest.visits_map {α β : Type} (f : α → β) (forest : Forest α) (above : List α) :
    (forest.map f).visits (above.map f) = (forest.visits above).map (Visit.map f) := by
  induction forest generalizing above with
  | nil => rfl
  | cons node children siblings below beside =>
    have under := below (above ++ [node])
    rw [map_append, map_singleton] at under
    simp only [Forest.map, Forest.visits, under, beside, map_cons, map_append, Visit.map]

/-! ### Axes -/

theorem fieldsOf_map_of_field? {f : Node → Node} (kept : ∀ node, (f node).field? = node.field?)
    (nodes : List Node) : fieldsOf (nodes.map f) = fieldsOf nodes := by
  rw [fieldsOf, filterMap_map]
  exact filterMap_congr fun node _ => kept node

namespace Axis

variable {axis changed : Axis} {f : Node → Node}

section

variable (mapped : changed.forest = axis.forest.map f)

include mapped

theorem branches_of_map : changed.branches = axis.branches.map (List.map f) := by
  unfold branches isEmpty
  rw [mapped, Forest.isEmpty_map, Forest.branches_map]
  split <;> rfl

theorem visits_of_map : changed.visits = axis.visits.map (Visit.map f) := by
  rw [visits, mapped]
  exact Forest.visits_map f axis.forest []

theorem fields_of_map (kept : ∀ node, (f node).field? = node.field?) : changed.fields = axis.fields := by
  unfold fields
  rw [mapped, Forest.walk_map, fieldsOf_map_of_field? kept]

end

/-- The deepest binding of a branch stays the deepest where every binding is renamed. -/
theorem branchMeasures_of_map {newName : String → String}
    (rooted : changed.measures = axis.measures.map newName)
    (bound : ∀ node, (f node).measures = node.measures.map newName) (branch : List Node) :
    changed.branchMeasures (branch.map f) = (axis.branchMeasures branch).map newName := by
  unfold branchMeasures
  rw [← map_reverse, find?_map]
  have same : ((fun node : Node => !node.measures.isEmpty) ∘ f) =
      fun node => !node.measures.isEmpty := by
    funext node
    rw [Function.comp_apply, bound, isEmpty_map]
  rw [same]
  cases branch.reverse.find? fun node => !node.measures.isEmpty with
  | none => exact rooted
  | some node => exact bound node

end Axis

end Crosstab
