import Crosstab.Proofs.Grid.DirectValue
import Crosstab.Proofs.Grid.Headers
import Mathlib.Algebra.Ring.Int.Defs

/-!
# Leaves of a branch

The leaves of an expanded axis on one branch. What the picks of every node share out without loss,
these leaves share out without loss. A walk may note every leaf when it is met, while the header
above it may still be dropped.
-/
namespace Crosstab

open List Forest Outcome

namespace Expansion

variable {expansion : Expansion}

variable {forest children : Forest Node} {branch : List Node} {expanded below : Expanded}
  {before : List Step} {step : Step} {leaf : Leaf}

theorem leaves_eq_nil {path : Path} {values : Row}
    (returned : expansion.expand forest path branch values = .ok expanded)
    (empty : expanded.1.isEmpty) : expanded.2 = [] := by
  -- Along the siblings alone: a part without a header has no leaves, whatever was below it.
  induction forest generalizing expanded with
  | nil =>
    cases returned
    rfl
  | cons node children siblings _ beside =>
    obtain ⟨made, _, returned⟩ := bind_eq_ok.mp returned
    obtain ⟨parts, placed, returned⟩ := bind_eq_ok.mp returned
    obtain ⟨rest, later, returned⟩ := bind_eq_ok.mp returned
    cases returned
    rw [← isEmpty_heads, List.isEmpty_iff, Expanded.heads_foldr_append,
      append_eq_nil_iff, flatMap_eq_nil_iff] at empty
    rw [Expanded.leaves_foldr_append, append_eq_nil_iff, flatMap_eq_nil_iff]
    refine ⟨?_, beside later (by rw [← isEmpty_heads, empty.2]; rfl)⟩
    intro part among
    have headless := empty.1 part among
    obtain ⟨⟨header, within⟩, _, ofHeader⟩ := exists_of_mem_results placed among
    obtain ⟨below, _, ofHeader⟩ := bind_eq_ok.mp ofHeader
    cases ofHeader
    unfold placeHeader at headless ⊢
    split at headless
    · cases headless
    · split at headless
      next leaf none => simp [leaf, none, Expanded.empty]
      · cases headless

theorem leaves_place (returned : expansion.expandAt (before ++ [step]) children = .ok below) :
    (expansion.place before step children.isEmpty below).2 =
      if children.isEmpty then [.ofSteps (before ++ [step])] else below.2 := by
  unfold place placeHeader
  split
  · rfl
  · split
    next none =>
      rw [leaves_eq_nil returned none]
      rfl
    · rfl

theorem exists_steps_of_mem_leaves (returned : expansion.expandAt before forest = .ok expanded)
    (member : leaf ∈ expanded.2) :
    ∃ steps, steps.map Prod.fst ∈ forest.branches ∧ leaf = .ofSteps (before ++ steps) := by
  induction forest generalizing before expanded with
  | nil =>
    cases returned
    cases member
  | cons node children siblings under beside =>
    obtain ⟨picked, parts, rest, _, related, later, rfl⟩ := expandAt_cons_iff.mp returned
    rw [Expanded.leaves_foldr_append, mem_append, mem_flatMap] at member
    rw [branches_cons]
    rcases member with ⟨part, among, member⟩ | member
    · obtain ⟨value, _, below, expandedBelow, rfl⟩ := exists_left_of_forall₂ related among
      rw [leaves_place expandedBelow] at member
      split at member
      next last => exact ⟨[(node, value)], by simp [last], mem_singleton.mp member⟩
      next inner =>
        obtain ⟨steps, there, rfl⟩ := under expandedBelow member
        exact ⟨(node, value) :: steps, by simp [inner, there], by simp⟩
    · obtain ⟨steps, there, rfl⟩ := beside later member
      exact ⟨steps, mem_append_right _ there, rfl⟩

theorem exists_steps_of_mem_place
    (returned : expansion.expandAt (before ++ [step]) children = .ok below)
    (member : leaf ∈ (expansion.place before step children.isEmpty below).2) :
    ∃ steps, leaf = .ofSteps (before ++ step :: steps) := by
  rw [leaves_place returned] at member
  split at member
  · exact ⟨[], mem_singleton.mp member⟩
  · obtain ⟨steps, _, rfl⟩ := exists_steps_of_mem_leaves returned member
    exact ⟨steps, by simp⟩

/-! ### Sums over the leaves of a branch -/

/-- The sum over those leaves that lie on a branch, each weighed by its members. -/
def sumOn (branch : List Node) (weigh : List (String × Value) → Int) (leaves : List Leaf) : Int :=
  ((leaves.filter fun leaf => leaf.branch.map Node.id = branch.map Node.id).map
    fun leaf => weigh leaf.pairs).sum

variable {path : List Node} {weigh : List (String × Value) → Int}

theorem sumOn_append (leaves others : List Leaf) :
    sumOn path weigh (leaves ++ others) = sumOn path weigh leaves + sumOn path weigh others := by
  simp [sumOn]

theorem sumOn_eq_zero {leaves : List Leaf}
    (elsewhere : ∀ leaf ∈ leaves, leaf.branch.map Node.id ≠ path.map Node.id) :
    sumOn path weigh leaves = 0 := by
  have none : (leaves.filter fun leaf => leaf.branch.map Node.id = path.map Node.id) = [] := by
    simpa [filter_eq_nil_iff] using elsewhere
  rw [sumOn, none]
  rfl

theorem sumOn_ofSteps {steps : List Step} (along : steps.map Prod.fst = path) :
    sumOn path weigh [.ofSteps steps] = weigh (Step.pairs steps) := by
  have own : (Leaf.ofSteps steps).branch = path := along
  simp [sumOn, own, Leaf.pairs_ofSteps]

private theorem sumOn_flatMap {picked : List Value} {parts : List Expanded} {share : Value → Int}
    (each : Forall₂ (fun value part => sumOn path weigh part.2 = share value) picked parts) :
    sumOn path weigh (parts.flatMap fun part => part.2) = (picked.map share).sum := by
  induction each with
  | nil => rfl
  | cons head _ ih => rw [flatMap_cons, sumOn_append, head, ih, map_cons, sum_cons]

/-! A path that goes on from some steps with one tree has no leaves in the others. -/

section Apart

variable {node : Node} {children siblings : Forest Node} {before : List Step}

variable {branch : List Node}

/-- Numbers tell a node from all nodes on the branches of its siblings. -/
theorem id_not_mem_of_siblings (unique : ((cons node children siblings).walk.map Node.id).Nodup)
    (beside : branch ∈ siblings.branches) : node.id ∉ branch.map Node.id := by
  rw [walk, map_cons, map_append, nodup_cons] at unique
  intro same
  obtain ⟨twin, along, same⟩ := mem_map.mp same
  apply unique.1
  rw [← same]
  exact mem_append_right _ (mem_map_of_mem (mem_walk_of_mem_branches beside along))

variable (unique : ((cons node children siblings).walk.map Node.id).Nodup)

include unique

private theorem sumOn_siblings {rest : Expanded}
    (later : expansion.expandAt before siblings = .ok rest) {tail : List Node}
    (spelled : path = before.map Prod.fst ++ node :: tail) : sumOn path weigh rest.2 = 0 := by
  apply sumOn_eq_zero
  intro leaf there same
  obtain ⟨steps, beside, rfl⟩ := exists_steps_of_mem_leaves later there
  rw [Leaf.branch_ofSteps, spelled, map_append, map_append, map_append,
    append_cancel_left_eq] at same
  exact id_not_mem_of_siblings unique beside (same ▸ mem_cons_self)

private theorem sumOn_parts {picked : List Value} {parts : List Expanded}
    (related : Forall₂ (fun value part => ∃ below,
      expansion.expandAt (before ++ [(node, value)]) children = .ok below ∧
        part = expansion.place before (node, value) children.isEmpty below) picked parts)
    (beside : branch ∈ siblings.branches) (spelled : path = before.map Prod.fst ++ branch) :
    sumOn path weigh (parts.flatMap fun part => part.2) = 0 := by
  apply sumOn_eq_zero
  intro leaf there same
  obtain ⟨part, among, there⟩ := mem_flatMap.mp there
  obtain ⟨value, _, below, expandedBelow, rfl⟩ := exists_left_of_forall₂ related among
  obtain ⟨steps, rfl⟩ := exists_steps_of_mem_place expandedBelow there
  rw [Leaf.branch_ofSteps, spelled, map_append, map_append, map_append,
    append_cancel_left_eq] at same
  exact id_not_mem_of_siblings unique beside (same ▸ mem_cons_self)

end Apart

variable (fair : List Step → Prop)
  (shares : ∀ before node picked, before.map Prod.fst ++ [node] <+: path → fair before →
    expansion.Picks before node picked → (∀ value ∈ picked, fair (before ++ [(node, value)])) ∧
      (picked.map fun value => weigh (Step.pairs (before ++ [(node, value)]))).sum =
        weigh (Step.pairs before))

include shares

/-- Where every node on a branch shares out a weight among what it picks, the leaves of the branch
have the whole weight between them. -/
theorem sumOn_leaves (unique : (forest.walk.map Node.id).Nodup)
    (returned : expansion.expandAt before forest = .ok expanded) (member : branch ∈ forest.branches)
    (spelled : path = before.map Prod.fst ++ branch) (fairly : fair before) :
    sumOn path weigh expanded.2 = weigh (Step.pairs before) := by
  -- On the forest, over all steps before it: the path is these steps and a branch of the forest.
  induction forest generalizing before expanded branch with
  | nil => cases member
  | cons node children siblings under beside =>
    obtain ⟨picked, parts, rest, picks, related, later, rfl⟩ := expandAt_cons_iff.mp returned
    rw [Expanded.leaves_foldr_append, sumOn_append]
    have numbered := unique
    rw [walk, map_cons, map_append, nodup_cons, nodup_append] at numbered
    obtain ⟨_, uniqueBelow, uniqueBeside, _⟩ := numbered
    rw [branches_cons, mem_append] at member
    rcases member with own | other
    · obtain ⟨tail, rfl, goesOn⟩ : ∃ tail, branch = node :: tail ∧
          if children.isEmpty then tail = [] else tail ∈ children.branches := by
        split at own
        next last => exact ⟨[], mem_singleton.mp own, by simp [last]⟩
        next inner =>
          obtain ⟨tail, inside, rfl⟩ := mem_map.mp own
          exact ⟨tail, rfl, by simp [inner, inside]⟩
      have starts : before.map Prod.fst ++ [node] <+: path := ⟨tail, by simp [spelled]⟩
      obtain ⟨fairBelow, shared⟩ := shares before node picked starts fairly picks
      -- Every pick has its share: as a leaf where the path ends, and else below it.
      have among := (forall₂_and_left _ _).mpr ⟨fun _ picked => picked, related⟩
      have each : Forall₂ (fun value part => sumOn path weigh part.2 =
          weigh (Step.pairs (before ++ [(node, value)]))) picked parts := by
        refine among.imp ?_
        rintro value _ ⟨chosen, below, expandedBelow, rfl⟩
        rw [leaves_place expandedBelow]
        split
        next last =>
          rw [if_pos last] at goesOn
          exact sumOn_ofSteps (by simp [spelled, goesOn])
        next inner =>
          rw [if_neg inner] at goesOn
          exact under uniqueBelow expandedBelow goesOn (by simp [spelled]) (fairBelow value chosen)
      rw [sumOn_siblings unique later spelled, add_zero, sumOn_flatMap each, shared]
    · rw [sumOn_parts unique related other spelled, zero_add]
      exact beside uniqueBeside later other spelled fairly

theorem sumOn_expandAxis {axis : Axis} (numbered : axis.forest.IsNumbered)
    (returned : expansion.expandAxis axis = .ok expanded) (member : path ∈ axis.branches)
    (fairly : fair []) : sumOn path weigh expanded.2 = weigh [] := by
  unfold expandAxis at returned
  unfold Axis.branches at member
  split at member
  next empty =>
    rw [if_pos empty] at returned
    cases returned
    have along : ([] : List Step).map Prod.fst = path := (mem_singleton.mp member).symm
    exact sumOn_ofSteps along
  next inhabited =>
    rw [if_neg inhabited] at returned
    have returned : expansion.expandAt [] axis.forest = .ok expanded := returned
    have unique : (axis.forest.walk.map Node.id).Nodup := numbered.nodup_iff.mpr nodup_range
    exact sumOn_leaves fair shares unique returned member rfl fairly

end Expansion

/-! ### Collecting leaves -/

/-- A computation that notes leaves behind those noted before. -/
def Notes {α : Type} (run : StateT (List Leaf) Outcome α) (made : Outcome (α × List Leaf)) : Prop :=
  ∀ noted, run.run noted = made.map fun result => (result.1, noted ++ result.2)

/-- Each part of a traversal notes its leaves behind those of the parts before. -/
theorem Notes.mapM {α β : Type} {f : α → StateT (List Leaf) Outcome β}
    {g : α → Outcome (β × List Leaf)} (each : ∀ x, Notes (f x) (g x)) (xs : List α) :
    Notes (xs.mapM f)
      ((xs.mapM g).map fun parts => (parts.map Prod.fst, parts.flatMap Prod.snd)) := by
  induction xs with
  | nil =>
    intro noted
    simp [StateT.run_pure, Except.map]
  | cons x xs ih =>
    intro noted
    rw [List.mapM_cons, List.mapM_cons, StateT.run_bind, each x noted]
    cases g x with
    | error e => rfl
    | ok part =>
      have later := ih (noted ++ part.2)
      simp only [Except.map, Outcome.ok_bind, StateT.run_bind]
      rw [later]
      cases xs.mapM g with
      | error e => rfl
      | ok parts => simp [Except.map]

namespace Expansion

variable (expansion : Expansion)

/-- Makes a header above what is met below it. The header of a leaf notes it; any other header
without something below it is dropped, but not what was noted. -/
def noteHeader (header : Header) (branch : List Node) (values : Row) (isLeaf : Bool)
    (below : StateT (List Leaf) Outcome (Forest Header)) :
    StateT (List Leaf) Outcome (Forest Header) := do
  if isLeaf then
    modify (· ++ [⟨header.path, branch, values⟩])
    return .cons header .nil .nil
  else
    let under ← below
    return if under.isEmpty then .nil else .cons header under .nil

/-- Expands the nodes of an axis into headers, and notes the leaves as it meets them. -/
def collect : Forest Node → Path → List Node → Row → StateT (List Leaf) Outcome (Forest Header)
  | .nil, _, _, _ => return .nil
  | .cons node children siblings, path, branch, values => do
    let own ← (← expansion.headers path branch values node).mapM fun made =>
      noteHeader made.1 (branch ++ [node]) made.2 children.isEmpty
        (collect children made.1.path (branch ++ [node]) made.2)
    let rest ← collect siblings path branch values
    return own.foldr Forest.append rest

def collectAxis (axis : Axis) : StateT (List Leaf) Outcome (Forest Header) := do
  if axis.isEmpty then
    modify (· ++ [⟨[], [], []⟩])
    return .nil
  else expansion.collect axis.forest [] [] []

variable {expansion}

private theorem noteHeader_notes {below : StateT (List Leaf) Outcome (Forest Header)}
    {forest : Forest Node} {path : Path} {branch : List Node} {values : Row}
    (notes : Notes below (expansion.expand forest path branch values)) (header : Header) :
    Notes (noteHeader header branch values forest.isEmpty below) (do
      let under ← expansion.expand forest path branch values
      return placeHeader header branch values forest.isEmpty under) := by
  intro noted
  cases leaf : forest.isEmpty with
  | true =>
    rw [Forest.isEmpty_iff.mp leaf]
    rfl
  | false =>
    simp only [noteHeader, Bool.false_eq_true, ↓reduceIte, StateT.run_bind, notes noted]
    cases returned : expansion.expand forest path branch values with
    | error e => rfl
    | ok under =>
      cases empty : under.1.isEmpty with
      | false => simp [placeHeader, Except.map, empty]
      | true =>
        -- The header is dropped, and nothing was noted below it.
        have none := leaves_eq_nil returned empty
        simp [placeHeader, Except.map, empty, none, Expanded.empty]

private theorem foldr_append_fst (parts : List Expanded) (rest : Expanded) :
    (parts.map Prod.fst).foldr Forest.append rest.1 = (parts.foldr Expanded.append rest).1 := by
  induction parts with
  | nil => rfl
  | cons part parts ih =>
    rw [List.map_cons, List.foldr_cons, ih]
    rfl

private theorem expand_cons (node : Node) (children siblings : Forest Node) (path : Path)
    (branch : List Node) (values : Row) :
    expansion.expand (.cons node children siblings) path branch values = (do
      let own ← (← expansion.headers path branch values node).mapM fun part => do
        let under ← expansion.expand children part.1.path (branch ++ [node]) part.2
        return placeHeader part.1 (branch ++ [node]) part.2 children.isEmpty under
      let rest ← expansion.expand siblings path branch values
      return own.foldr Expanded.append rest) := rfl

private theorem collect_notes (forest : Forest Node) (path : Path) (branch : List Node) (values : Row) :
    Notes (expansion.collect forest path branch values)
      (expansion.expand forest path branch values) := by
  induction forest generalizing path branch values with
  | nil =>
    intro noted
    simp [collect, expand, Expanded.empty, Except.map]
  | cons node children siblings below beside =>
    intro noted
    rw [collect, expand_cons, StateT.run_bind]
    cases expansion.headers path branch values node with
    | error e => rfl
    | ok made =>
      have lifted : (liftM (m := Outcome) (.ok made) : StateT (List Leaf) Outcome _).run noted =
        .ok (made, noted) := rfl
      have own := Notes.mapM (fun part : Header × Row =>
        noteHeader_notes (below part.1.path (branch ++ [node]) part.2) part.1) made noted
      have later (noted : List Leaf) := beside path branch values noted
      rw [lifted, Outcome.ok_bind, Outcome.ok_bind, StateT.run_bind, own]
      cases made.mapM fun part : Header × Row => do
          let under ← expansion.expand children part.1.path (branch ++ [node]) part.2
          return placeHeader part.1 (branch ++ [node]) part.2 children.isEmpty under with
      | error e => rfl
      | ok parts =>
        simp only [Except.map, Outcome.ok_bind, StateT.run_bind, later]
        cases expansion.expand siblings path branch values with
        | error e => rfl
        | ok rest => simp [← foldr_append_fst, Expanded.leaves_foldr_append]

theorem run_collectAxis (axis : Axis) :
    (expansion.collectAxis axis).run [] = expansion.expandAxis axis := by
  unfold collectAxis expandAxis
  split
  · rfl
  · rw [collect_notes axis.forest [] [] [] []]
    cases expansion.expand axis.forest [] [] [] <;> rfl

end Expansion

end Crosstab
