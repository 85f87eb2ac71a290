import Crosstab.Proofs.Unranking.Plan

/-!
# Headers and leaves without some of the rankings

Without a ranking that has no limit a dimension picks the same members in another order. Leaves of
one path keep their order.
-/
namespace Crosstab

open List Step

/-! ### Rearranged forests -/

namespace Forest

variable {α : Type}

/-- Forests with the same trees, where trees that stand side by side may have changed places. -/
inductive Rearranged : Forest α → Forest α → Prop
  | nil : Rearranged .nil .nil
  | cons (node : α) {children children' siblings siblings' : Forest α}
      (below : Rearranged children children') (beside : Rearranged siblings siblings') :
      Rearranged (.cons node children siblings) (.cons node children' siblings')
  | swap (first second : α) (under under' siblings : Forest α) :
      Rearranged (.cons first under (.cons second under' siblings))
        (.cons second under' (.cons first under siblings))
  | trans {a b c : Forest α} (first : Rearranged a b) (second : Rearranged b c) : Rearranged a c

namespace Rearranged

theorem refl (forest : Forest α) : Rearranged forest forest := by
  induction forest with
  | nil => exact .nil
  | cons node _ _ below beside => exact .cons node below beside

variable {a b : Forest α}

private theorem isEmpty_eq (arranged : Rearranged a b) : a.isEmpty = b.isEmpty := by
  induction arranged with
  | nil => rfl
  | cons => rfl
  | swap => rfl
  | trans _ _ first second => exact first.trans second

private theorem append_left (left : Forest α) (arranged : Rearranged a b) :
    Rearranged (left.append a) (left.append b) := by
  induction left with
  | nil => exact arranged
  | cons node children _ _ beside => exact .cons node (refl children) beside

private theorem append {c d : Forest α} (first : Rearranged a b) (second : Rearranged c d) :
    Rearranged (a.append c) (b.append d) := by
  refine trans (append_left a second) ?_
  induction first with
  | nil => exact refl d
  | cons node below _ _ beside => exact .cons node below beside
  | swap => exact .swap _ _ _ _ _
  | trans _ _ before after => exact .trans before after

private theorem append_cons (node : α) (children right : Forest α) (forest : Forest α) :
    Rearranged (.cons node children (forest.append right))
      (forest.append (.cons node children right)) := by
  induction forest with
  | nil => exact refl _
  | cons other under _ _ beside =>
    exact .trans (.swap _ _ _ _ _) (.cons other (refl under) beside)

private theorem append_comm (a b right : Forest α) :
    Rearranged (a.append (b.append right)) (b.append (a.append right)) := by
  induction a with
  | nil => exact refl _
  | cons node children _ _ beside =>
    exact .trans (.cons node (refl children) beside) (append_cons node children _ b)

end Rearranged

end Forest

/-! ### Rearranged expansions -/

namespace Expanded

/-- The same headers and the same leaves, where the leaves of a path keep their order. -/
structure Rearranged (a b : Expanded) : Prop where
  headers : a.1.Rearranged b.1
  leaves : a.2.Perm b.2
  ordered : ∀ path, Leaf.allAt a.2 path = Leaf.allAt b.2 path

/-- No path has leaves in both. -/
def Apart (a b : Expanded) : Prop := ∀ path, Leaf.allAt a.2 path = [] ∨ Leaf.allAt b.2 path = []

private theorem Apart.symm {a b : Expanded} (apart : Apart a b) : Apart b a :=
  fun path => (apart path).symm

namespace Rearranged

theorem refl (a : Expanded) : Rearranged a a := ⟨.refl _, .refl _, fun _ => rfl⟩

variable {a b c : Expanded} {parts parts' : List Expanded}

theorem trans (first : Rearranged a b) (second : Rearranged b c) : Rearranged a c :=
  ⟨first.headers.trans second.headers, first.leaves.trans second.leaves,
    fun path => (first.ordered path).trans (second.ordered path)⟩

theorem append {d : Expanded} (first : Rearranged a b) (second : Rearranged c d) :
    Rearranged (a.append c) (b.append d) where
  headers := first.headers.append second.headers
  leaves := first.leaves.append second.leaves
  ordered path := by
    simp only [Expanded.append, Leaf.allAt, filter_append]
    exact congrArg₂ _ (first.ordered path) (second.ordered path)

private theorem append_comm (apart : Apart a b) (rest : Expanded) :
    Rearranged (a.append (b.append rest)) (b.append (a.append rest)) where
  headers := .append_comm _ _ _
  leaves := by
    simp only [Expanded.append, ← append_assoc]
    exact perm_append_comm.append_right _
  ordered path := by
    have separate := apart path
    simp only [Expanded.append, Leaf.allAt, filter_append] at separate ⊢
    rcases separate with none | none <;> rw [none] <;> rfl

private theorem foldr_append (related : Forall₂ Rearranged parts parts') {rest rest' : Expanded}
    (behind : Rearranged rest rest') :
    Rearranged (parts.foldr Expanded.append rest) (parts'.foldr Expanded.append rest') := by
  induction related with
  | nil => exact behind
  | cons head _ ih => exact head.append ih

private theorem of_perm (arranged : parts.Perm parts') (apart : parts.Pairwise Apart) (rest : Expanded) :
    Rearranged (parts.foldr Expanded.append rest) (parts'.foldr Expanded.append rest) := by
  induction arranged with
  | nil => exact .refl rest
  | cons part _ ih => exact (refl part).append (ih (pairwise_cons.mp apart).2)
  | swap a b parts =>
    exact append_comm ((pairwise_cons.mp apart).1 a mem_cons_self) _
  | trans first _ before after =>
    exact (before apart).trans (after (first.pairwise apart Apart.symm))

private theorem placeHeader {below below' : Expanded} (arranged : Rearranged below below')
    (header : Header) (branch : List Node) (values : Row) (isLeaf : Bool) :
    Rearranged (Expansion.placeHeader header branch values isLeaf below)
      (Expansion.placeHeader header branch values isLeaf below') := by
  unfold Expansion.placeHeader
  rw [← arranged.headers.isEmpty_eq]
  split
  · exact .refl _
  · split
    · exact .refl _
    · exact ⟨.cons header arranged.headers .nil, arranged.leaves, arranged.ordered⟩

end Rearranged

end Expanded

/-! ### Steps and leaves -/

namespace Unranking

variable (unranking : Unranking)

def step (step : Step) : Step := (unranking.node step.1, step.2)

@[simp] theorem segment_step (step : Step) :
    Step.segment (unranking.step step) = Step.segment step := by
  simp only [Step.segment, Unranking.step, field?_node]

@[simp] theorem map_segment_steps (steps : List Step) :
    (steps.map unranking.step).map Step.segment = steps.map Step.segment := by
  rw [map_map]
  exact map_congr_left fun step _ => unranking.segment_step step

@[simp] theorem map_fst_steps (steps : List Step) :
    (steps.map unranking.step).map Prod.fst = (steps.map Prod.fst).map unranking.node := by
  rw [map_map, map_map]
  rfl

@[simp] theorem values_steps (steps : List Step) :
    values (steps.map unranking.step) = values steps := by
  rw [values, foldl_map]
  congr 1
  funext values step
  simp only [extend, Unranking.step, field?_node]

private theorem ofStep_step (settings : Settings) (before : List Step) (step : Step) :
    Header.ofStep settings (before.map unranking.step) (unranking.step step) =
      Header.ofStep settings before step := by
  have path := unranking.map_segment_steps (before ++ [step])
  rw [map_append, map_singleton] at path
  simp only [Header.ofStep, path]
  simp only [Unranking.step, id_node, field?_node, label_node]

private theorem recast_place {expansion expansion' : Expansion}
    (settings : expansion'.settings = expansion.settings) (before : List Step) (step : Step)
    (isLeaf : Bool) (below : Expanded) :
    (expansion.place before step isLeaf below).recast unranking.node =
      expansion'.place (before.map unranking.step) (unranking.step step) isLeaf
        (below.recast unranking.node) := by
  have along := unranking.map_fst_steps (before ++ [step])
  have values := unranking.values_steps (before ++ [step])
  rw [map_append, map_singleton] at along values
  unfold Expansion.place
  rw [settings, ofStep_step, along, values, Expanded.recast_placeHeader]

end Unranking

/-! ### Expansions that pick the same -/

namespace Expansion

/-- At the visited nodes the same members are picked, in another order. They can serve as keys, which
tell them apart. -/
structure Rearranges (expansion : Expansion) (unranking : Unranking) (visits : List (Visit Node))
    (plain : Expansion) : Prop where
  settings : plain.settings = expansion.settings
  picks : ∀ before, Path.hashable (before.map Step.segment) = true → ∀ visit ∈ visits,
    visit.above = before.map Prod.fst → ∀ picked, expansion.Picks before visit.node picked →
      (∃ picked', plain.Picks (before.map unranking.step) (unranking.node visit.node) picked' ∧
        picked'.Perm picked) ∧
      (Path.keys (picked.map fun value => Step.segment (visit.node, value))).Nodup ∧
      Path.hashable (picked.map fun value => Step.segment (visit.node, value)) = true

variable {expansion plain : Expansion}

variable {before : List Step} {unranking : Unranking} {expanded : Expanded}

private theorem apart_of_parts (usable : Path.hashable (before.map Step.segment)) {node : Node}
    {children : Forest Node} {picked : List Value} {parts : List Expanded}
    (related : Forall₂ (fun value part => ∃ below,
      expansion.expandAt (before ++ [(node, value)]) children = .ok below ∧
        part = expansion.place before (node, value) children.isEmpty below) picked parts)
    (unique : (Path.keys (picked.map fun value => Step.segment (node, value))).Nodup)
    (hashable : Path.hashable (picked.map fun value => Step.segment (node, value)) = true) :
    parts.Pairwise Expanded.Apart := by
  have among := (forall₂_and_left _ _).mpr ⟨fun _ chosen => chosen, related⟩
  rw [Path.keys, map_map, Nodup, pairwise_map] at unique
  have front {value : Value} (chosen : value ∈ picked) {below : Expanded}
      (returned : expansion.expandAt (before ++ [(node, value)]) children = .ok below)
      {path : Path} {leaf : Leaf} (there : leaf ∈ Leaf.allAt
        (expansion.place before (node, value) children.isEmpty below).2 path) :
      Path.keys ((before ++ [(node, value)]).map Step.segment) =
        Path.keys (path.take (before.length + 1)) := by
    obtain ⟨placed, same⟩ := mem_filter.mp there
    obtain ⟨steps, rfl⟩ := exists_steps_of_mem_place returned placed
    have spelled : (Leaf.ofSteps (before ++ (node, value) :: steps)).path =
        (before ++ [(node, value)]).map Step.segment ++ steps.map Step.segment := by
      simp [Leaf.ofSteps]
    rw [spelled] at same
    have keys := Path.keys_of_same_append ?_ same
    · rw [keys, length_map, length_append, length_singleton]
    · have own := all_eq_true.mp hashable _ (mem_map_of_mem chosen)
      rw [map_append, Path.hashable, all_append, Bool.and_eq_true]
      exact ⟨usable, by simpa using own⟩
  refine pairwise_of_forall₂ among unique ?_
  rintro v w _ _ ⟨chosen, below, returned, rfl⟩ ⟨chosen', below', returned', rfl⟩ differ path
  by_contra both
  rw [not_or, ← ne_eq] at both
  obtain ⟨leaf, there⟩ := exists_mem_of_ne_nil _ both.1
  obtain ⟨leaf', there'⟩ := exists_mem_of_ne_nil _ both.2
  have same := (front chosen returned there).trans (front chosen' returned' there').symm
  rw [Path.keys, Path.keys, map_append, map_append, map_append, map_append] at same
  exact differ (singleton_inj.mp (append_cancel_left same))

private theorem Rearranges.exists_expandAt {visits : List (Visit Node)}
    (rearranges : expansion.Rearranges unranking visits plain) {forest : Forest Node}
    (within : forest.visits (before.map Prod.fst) ⊆ visits)
    (usable : Path.hashable (before.map Step.segment))
    (returned : expansion.expandAt before forest = .ok expanded) :
    ∃ expanded', plain.expandAt (before.map unranking.step) (forest.map unranking.node) =
        .ok expanded' ∧ (expanded.recast unranking.node).Rearranged expanded' := by
  induction forest generalizing before expanded with
  | nil =>
    cases returned
    exact ⟨_, rfl, .refl _⟩
  | cons node children siblings under beside =>
    obtain ⟨picked, parts, rest, picks, related, later, rfl⟩ := expandAt_cons_iff.mp returned
    obtain ⟨own, within⟩ := cons_subset.mp within
    obtain ⟨below, behind⟩ := append_subset.mp within
    obtain ⟨⟨picked', picks', arranged⟩, unique, hashable⟩ :=
      rearranges.picks before usable _ own rfl picked picks
    obtain ⟨rest', later', restArranged⟩ := beside behind usable later
    -- Every member has its part in the plain expansion, first in the old order and then in the new.
    have each : ∀ value ∈ picked, ∃ part',
        (∃ below', plain.expandAt (before.map unranking.step ++ [(unranking.node node, value)])
            (children.map unranking.node) = .ok below' ∧
          part' = plain.place (before.map unranking.step) (unranking.node node, value)
            (children.map unranking.node).isEmpty below') ∧
        ∀ part, (∃ below, expansion.expandAt (before ++ [(node, value)]) children = .ok below ∧
            part = expansion.place before (node, value) children.isEmpty below) →
          (part.recast unranking.node).Rearranged part' := by
      intro value chosen
      obtain ⟨_, _, inner, expandedBelow, rfl⟩ := exists_right_of_forall₂ related chosen
      obtain ⟨inner', expandedBelow', innerArranged⟩ := under (by simpa using below) (by
        have segment := all_eq_true.mp hashable _ (mem_map_of_mem chosen)
        rw [map_append, Path.hashable, all_append, Bool.and_eq_true]
        exact ⟨usable, by simpa using segment⟩) expandedBelow
      rw [map_append] at expandedBelow'
      refine ⟨_, ⟨inner', expandedBelow', rfl⟩, ?_⟩
      rintro _ ⟨again, expandedAgain, rfl⟩
      cases expandedBelow.symm.trans expandedAgain
      rw [unranking.recast_place rearranges.settings, Forest.isEmpty_map]
      exact innerArranged.placeHeader _ _ _ _
    obtain ⟨inOrder, made⟩ := exists_forall₂ each
    have partsArranged : Forall₂ Expanded.Rearranged (parts.map (Expanded.recast unranking.node))
      inOrder := by
      rw [forall₂_map_left_iff]
      refine (forall₂_of_common related made).imp ?_
      rintro part part' ⟨value, _, ofPart, _, carries⟩
      exact carries part ofPart
    have related' := made.imp fun _ _ both => both.1
    have apart : inOrder.Pairwise Expanded.Apart := by
      refine apart_of_parts ?_ related' ?_ ?_
      · rw [unranking.map_segment_steps]
        exact usable
      · simpa only [Step.segment, unranking.field?_node] using unique
      · simpa only [Step.segment, unranking.field?_node] using hashable
    obtain ⟨parts', related', moved⟩ := perm_comp_forall₂ arranged related'
    refine ⟨parts'.foldr Expanded.append rest', ?_, ?_⟩
    · exact expandAt_cons_iff.mpr ⟨picked', parts', rest', picks', related', later', rfl⟩
    · rw [Expanded.recast_foldr]
      exact (Expanded.Rearranged.foldr_append partsArranged restArranged).trans
        (.of_perm moved.symm apart rest')

theorem Rearranges.exists_expandAxis {axis : Axis}
    (rearranges : expansion.Rearranges unranking axis.visits plain)
    (returned : expansion.expandAxis axis = .ok expanded) :
    ∃ expanded', plain.expandAxis (axis.unranked unranking) = .ok expanded' ∧
      (expanded.recast unranking.node).Rearranged expanded' := by
  unfold expandAxis at returned ⊢
  unfold Axis.isEmpty Axis.unranked at *
  rw [Forest.isEmpty_map]
  split at returned
  next empty =>
    cases returned
    exact ⟨_, if_pos empty, .refl _⟩
  next inhabited =>
    have top : expansion.expandAt [] axis.forest = .ok expanded := returned
    rw [if_neg inhabited]
    exact rearranges.exists_expandAt (fun _ => id) rfl top

end Expansion

end Crosstab
