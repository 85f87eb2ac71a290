import Crosstab.Grid.Assembly
import Crosstab.Proofs.Forest
import Crosstab.Proofs.Outcome
import Crosstab.Proofs.Row
import Crosstab.Proofs.Value.Key

/-!
# Leaves of expanded axes

Expansion picks a member at every dimension that it passes. These steps spell the branch of a leaf,
its path and the values that hold at it. Cells are kept under the normal forms of paths.
-/
namespace Crosstab

open List

/-! ### Paths -/

namespace Path

/-- The normal form of a path: its fields with the normal forms of its values. -/
def keys (path : Path) : List (String × Option Value.Key) :=
  path.map fun segment => (segment.1, segment.2.key?)

theorem same_iff {a b : Path} (usable : a.hashable) : a.same b ↔ a.keys = b.keys := by
  have values : (a.map (·.2)).all Value.hashable = true := by
    rw [all_map]
    exact usable
  rw [same, Bool.and_eq_true, beq_iff_eq, Value.sameKeys_iff values, map_map, map_map]
  constructor
  · rintro ⟨fields, values⟩
    have paired (path : Path) :
        path.keys = (path.map (·.1)).zip (path.map (Value.key? ∘ (·.2))) := by
      rw [zip_map']
      rfl
    rw [paired, paired, fields, values]
  · intro same
    have fields := congrArg (map Prod.fst) same
    have values := congrArg (map Prod.snd) same
    rw [keys, keys, map_map, map_map] at fields values
    exact ⟨fields, values⟩

/-- What a path starts with is the same key as what the other starts with. -/
theorem keys_of_same_append {front rest path : Path} (usable : front.hashable)
    (same : (front ++ rest).same path) : front.keys = keys (path.take front.length) := by
  rw [Path.same, Bool.and_eq_true, beq_iff_eq, map_append, map_append] at same
  obtain ⟨fields, values⟩ := same
  have values := Value.sameKeys_take values
  rw [length_map] at values
  rw [← same_iff usable, Path.same, Bool.and_eq_true, beq_iff_eq, map_take, map_take,
    ← fields, take_left' (length_map _)]
  exact ⟨rfl, values⟩

theorem fst_eq_of_keys_eq {a b : Path} (same : a.keys = b.keys) :
    a.map Prod.fst = b.map Prod.fst := by
  have fields := congrArg (map Prod.fst) same
  rw [keys, keys, map_map, map_map] at fields
  exact fields

end Path

open Crosstab.Path Outcome

/-! ### Steps -/

/-- A node that was passed, with the member that was picked there. -/
abbrev Step := Node × Value

namespace Step

def segment (step : Step) : String × Value :=
  match step.1.field? with
  | some field => (field, step.2)
  | none => totalSegment

def extend (values : Row) (step : Step) : Row :=
  match step.1.field? with
  | some field => values.set field step.2
  | none => values

/-- The values that hold below some steps. -/
def values (steps : List Step) : Row := steps.foldl extend []

theorem values_concat (steps : List Step) (step : Step) :
    values (steps ++ [step]) = extend (values steps) step := by
  rw [values, foldl_append]
  rfl

theorem fields_concat (steps : List Step) (step : Step) :
    fieldsOf ((steps ++ [step]).map Prod.fst) =
      fieldsOf (steps.map Prod.fst) ++ step.1.field?.toList := by
  cases named : step.1.field? <;> simp [fieldsOf, named]

variable {steps others : List Step} {field : String} {value : Value}

theorem mem_keys_values :
    field ∈ (values steps).map Prod.fst ↔ field ∈ fieldsOf (steps.map Prod.fst) := by
  induction steps using reverseRecOn with
  | nil => simp [values, fieldsOf]
  | append_singleton steps step ih =>
    rw [values_concat, fields_concat, mem_append, ← ih, extend]
    cases step.1.field? with
    | none => simp
    | some name =>
      rw [Option.mem_toList, Row.mem_keys_set, Option.some.injEq, eq_comm (a := name)]

theorem nodup_keys_values (steps : List Step) : ((values steps).map Prod.fst).Nodup := by
  induction steps using reverseRecOn with
  | nil => exact nodup_nil
  | append_singleton steps step ih =>
    rw [values_concat, extend]
    split
    · exact Row.nodup_keys_set ih _ _
    · exact ih

/-- Steps through the same fields with the same members leave the same values. -/
theorem key?_values_eq
    (fields : (steps.map Prod.fst).map Node.field? = (others.map Prod.fst).map Node.field?)
    (members : Path.keys (steps.map segment) = Path.keys (others.map segment)) (field : String) :
    ((values steps).get field).key? = ((values others).get field).key? := by
  induction steps using reverseRecOn generalizing others with
  | nil =>
    rw [map_nil, map_nil, eq_comm, map_eq_nil_iff, map_eq_nil_iff] at fields
    rw [fields]
  | append_singleton steps step ih =>
    -- The induction is on the last step, as later steps overwrite the values of earlier ones.
    obtain rfl | ⟨others, other, rfl⟩ := eq_nil_or_concat' others
    · simp at fields
    simp only [map_append, map_singleton, Path.keys] at fields members
    obtain ⟨fields, last⟩ := append_inj' fields rfl
    obtain ⟨members, member⟩ := append_inj' members rfl
    have before := ih fields members
    rw [values_concat, values_concat, extend, extend]
    rw [singleton_inj] at last member
    rw [segment, segment, ← last] at member
    rw [← last]
    cases named : step.1.field? with
    | none => exact before
    | some name =>
      simp only [named] at member
      simp only [Row.get_set]
      split
      · exact congrArg Prod.snd member
      · exact before

/-- The dimensions that were passed, each with the member that was picked. -/
def pairs (steps : List Step) : List (String × Value) :=
  steps.filterMap fun step => step.1.field?.map fun field => (field, step.2)

theorem map_fst_pairs (steps : List Step) :
    (pairs steps).map Prod.fst = fieldsOf (steps.map Prod.fst) := by
  rw [pairs, fieldsOf, map_filterMap, filterMap_map]
  apply filterMap_congr
  intro step _
  cases named : step.1.field? <;> simp [named]

/-- Steps through the same fields with the same members pick the same pairs. -/
theorem keys_pairs_eq
    (fields : (steps.map Prod.fst).map Node.field? = (others.map Prod.fst).map Node.field?)
    (members : Path.keys (steps.map segment) = Path.keys (others.map segment)) :
    Path.keys (pairs steps) = Path.keys (pairs others) := by
  induction steps generalizing others with
  | nil =>
    rw [map_nil, map_nil, eq_comm, map_eq_nil_iff, map_eq_nil_iff] at fields
    rw [fields]
  | cons step steps ih =>
    obtain _ | ⟨other, others⟩ := others
    · simp at fields
    simp only [map_cons, Path.keys, cons.injEq] at fields members
    have rest := ih fields.2 members.2
    rw [pairs, pairs, filterMap_cons, filterMap_cons, ← fields.1]
    cases named : step.1.field? with
    | none => exact rest
    | some name =>
      have otherNamed := fields.1.symm.trans named
      simp only [Option.map_some, Path.keys, map_cons]
      simp only [segment, named, otherNamed] at members
      rw [members.1]
      exact congrArg _ rest

/-- Where no dimension is passed twice, the member of each holds below the steps. -/
theorem get_values_of_mem_pairs (unique : (fieldsOf (steps.map Prod.fst)).Nodup)
    (member : (field, value) ∈ pairs steps) : (values steps).get field = value := by
  induction steps using reverseRecOn with
  | nil => cases member
  | append_singleton steps step ih =>
    rw [fields_concat, nodup_append] at unique
    rw [pairs, filterMap_append, mem_append] at member
    rw [values_concat, extend]
    cases named : step.1.field? with
    | none =>
      simp only [filterMap_cons, filterMap_nil, named, Option.map_none, not_mem_nil,
        or_false] at member
      exact ih unique.1 member
    | some name =>
      simp only [filterMap_cons, filterMap_nil, named, Option.map_some,
        mem_singleton, Prod.mk.injEq] at member
      rw [Row.get_set]
      -- An earlier member holds still, because no later step has its field.
      rcases member with earlier | ⟨rfl, rfl⟩
      · have known : field ∈ fieldsOf (steps.map Prod.fst) := by
          rw [← map_fst_pairs]
          exact mem_map_of_mem earlier
        have apart : field ≠ name := unique.2.2 field known name (by simp [named])
        rw [if_neg apart]
        exact ih unique.1 earlier
      · rw [if_pos rfl]

/-- What holds of the values below some steps holds of the members passed. -/
theorem forall_values_iff (unique : (fieldsOf (steps.map Prod.fst)).Nodup)
    {P : String → Value → Prop} :
    (∀ name ∈ fieldsOf (steps.map Prod.fst), P name ((values steps).get name)) ↔
      ∀ pair ∈ pairs steps, P pair.1 pair.2 := by
  rw [← map_fst_pairs, forall_mem_map]
  refine forall₂_congr fun pair member => ?_
  rw [get_values_of_mem_pairs unique member]

theorem hashable_of_mem_pairs (usable : hashable (steps.map segment))
    (member : (field, value) ∈ pairs steps) : value.hashable := by
  obtain ⟨step, taken, made⟩ := mem_filterMap.mp member
  obtain ⟨name, named, made⟩ := Option.map_eq_some_iff.mp made
  cases made
  have segments := all_eq_true.mp usable _ (mem_map_of_mem taken)
  simpa [segment, named] using segments

end Step

/-- The leaf at the end of some steps. -/
def Leaf.ofSteps (steps : List Step) : Leaf :=
  ⟨steps.map Step.segment, steps.map Prod.fst, Step.values steps⟩

theorem Leaf.branch_ofSteps (steps : List Step) : (ofSteps steps).branch = steps.map Prod.fst := rfl

namespace Expansion

variable (expansion : Expansion)

/-- A step that may be taken below others: a member of a dimension is one of those it has there. -/
def Allows (before : List Step) (step : Step) : Prop :=
  ∀ field, step.1.field? = some field → ∃ members,
    expansion.members (fieldsOf (before.map Prod.fst)) step.1 field (Step.values before) =
      .ok members ∧ step.2 ∈ members

/-- Every step may be taken below those before it. -/
inductive Climbs : List Step → Prop
  | start : Climbs []
  | step {before : List Step} {next : Step} (climbed : Climbs before)
      (allowed : expansion.Allows before next) : Climbs (before ++ [next])

variable {expansion}

theorem Climbs.allows_of_mem {steps : List Step} (climbed : expansion.Climbs steps) {step : Step}
    (taken : step ∈ steps) : ∃ before, expansion.Allows before step := by
  induction climbed with
  | start => cases taken
  | @step before next _ allowed ih =>
    rw [mem_append, mem_singleton] at taken
    rcases taken with earlier | rfl
    · exact ih earlier
    · exact ⟨before, allowed⟩

variable {before : List Step} {leaf : Leaf} {expanded : Expanded} {axis : Axis}

private theorem exists_step_of_mem_headers {node : Node} {made : List (Header × Row)}
    (returned : expansion.headers (before.map Step.segment) (before.map Prod.fst)
      (Step.values before) node = .ok made) {header : Header} {values : Row}
    (member : (header, values) ∈ made) :
    ∃ value, expansion.Allows before (node, value) ∧
      header.path = (before ++ [(node, value)]).map Step.segment ∧
      values = Step.values (before ++ [(node, value)]) := by
  unfold headers at returned
  cases field : node.field? with
  | none =>
    rw [field] at returned
    cases returned
    obtain ⟨rfl, rfl⟩ := Prod.mk.inj (mem_singleton.mp member)
    refine ⟨.null, ?_, ?_, ?_⟩
    · intro name named
      rw [field] at named
      cases named
    · simp [Step.segment, field]
    · rw [Step.values_concat, Step.extend]
      simp only [field]
  | some name =>
    rw [field] at returned
    obtain ⟨members, found, returned⟩ := bind_eq_ok.mp returned
    cases returned
    obtain ⟨value, picked, same⟩ := mem_map.mp member
    obtain ⟨rfl, rfl⟩ := Prod.mk.inj same
    refine ⟨value, ?_, ?_, ?_⟩
    · intro other named
      rw [field] at named
      cases named
      exact ⟨members, found, picked⟩
    · simp [Step.segment, field]
    · rw [Step.values_concat, Step.extend]
      simp only [field]

private theorem mem_foldr_append {own : List Expanded} {rest : Expanded} :
    leaf ∈ (own.foldr Expanded.append rest).2 ↔ (∃ part ∈ own, leaf ∈ part.2) ∨ leaf ∈ rest.2 := by
  induction own with
  | nil => simp
  | cons part own ih =>
    rw [foldr_cons, Expanded.append, mem_append, ih]
    simp [or_assoc]

/-- Every leaf of an expansion ends a branch of the forest, taken step by step. -/
theorem exists_steps_of_mem_expand {forest : Forest Node} (climbed : expansion.Climbs before)
    (returned : expansion.expand forest (before.map Step.segment) (before.map Prod.fst)
      (Step.values before) = .ok expanded) (member : leaf ∈ expanded.2) :
    ∃ steps, steps.map Prod.fst ∈ forest.branches ∧ expansion.Climbs (before ++ steps) ∧
      leaf = Leaf.ofSteps (before ++ steps) := by
  induction forest generalizing before expanded with
  | nil =>
    cases returned
    cases member
  | cons node children siblings under beside =>
    obtain ⟨made, headed, returned⟩ := bind_eq_ok.mp returned
    obtain ⟨own, placed, returned⟩ := bind_eq_ok.mp returned
    obtain ⟨rest, later, returned⟩ := bind_eq_ok.mp returned
    cases returned
    rw [Forest.branches_cons]
    -- The leaf is below one of the headers of this node, or below a sibling.
    rcases mem_foldr_append.mp member with ⟨part, among, member⟩ | member
    · obtain ⟨⟨header, values⟩, ofNode, ofHeader⟩ := exists_of_mem_results placed among
      obtain ⟨value, allowed, path, rfl⟩ := exists_step_of_mem_headers headed ofNode
      have next : expansion.Climbs (before ++ [(node, value)]) := .step climbed allowed
      obtain ⟨below, expandedBelow, ofHeader⟩ := bind_eq_ok.mp ofHeader
      cases ofHeader
      unfold placeHeader at member
      -- A header without nodes below is a leaf; otherwise the leaf comes from the expansion below
      -- it.
      by_cases isLeaf : children.isEmpty
      · rw [if_pos isLeaf, mem_singleton] at member
        refine ⟨[(node, value)], by simp [isLeaf], next, ?_⟩
        rw [member, Leaf.ofSteps, path]
        simp
      · rw [if_neg isLeaf] at member
        split at member
        · cases member
        · have inside : leaf ∈ below.2 := member
          rw [path] at expandedBelow
          obtain ⟨steps, branch, climbed, rfl⟩ := under next (by simpa using expandedBelow) inside
          refine ⟨(node, value) :: steps, ?_, ?_, ?_⟩
          · simp [isLeaf, branch]
          · simpa using climbed
          · simp
    · obtain ⟨steps, branch, climbed, rfl⟩ := beside climbed later member
      exact ⟨steps, mem_append_right _ branch, climbed, rfl⟩

/-- Every leaf of an axis ends one of its branches, taken step by step. -/
theorem exists_steps (returned : expansion.expandAxis axis = .ok expanded)
    (member : leaf ∈ expanded.2) :
    ∃ steps, steps.map Prod.fst ∈ axis.branches ∧ expansion.Climbs steps ∧
      leaf = Leaf.ofSteps steps := by
  unfold expandAxis at returned
  unfold Axis.branches
  split at returned
  next empty =>
    cases returned
    rw [mem_singleton.mp member]
    exact ⟨[], by simp [empty], .start, rfl⟩
  next inhabited =>
    rw [if_neg inhabited]
    exact exists_steps_of_mem_expand .start returned member

theorem branch_mem (returned : expansion.expandAxis axis = .ok expanded)
    (member : leaf ∈ expanded.2) : leaf.branch ∈ axis.branches := by
  obtain ⟨steps, along, _, rfl⟩ := exists_steps returned member
  exact along

end Expansion

end Crosstab
