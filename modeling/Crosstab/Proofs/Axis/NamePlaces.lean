import Crosstab.Proofs.Axis.Denotation
import Crosstab.Proofs.Axis.Hiding

/-!
# Where names are bound

A clause says by itself which names go to which elements of its sequences. The axis built from it
has these names at its nodes, each once and in order.
-/
namespace Crosstab

open List

/-! ### Collected names -/

theorem addNames_eraseDups_right (names more : List String) :
    addNames names more.eraseDups = addNames names more := by
  induction more using reverseRecOn with
  | nil => rfl
  | append_singleton more name ih =>
    rw [eraseDups_concat, addNames_append]
    split
    next known =>
      rw [addNames_of_mem (mem_addNames.mpr (.inr (contains_iff_mem.mp known))), ih]
    next => rw [addNames_append, ih]

/-- Adding names to a list without repetitions erases the repetitions of the whole. -/
theorem addNames_eraseDups (names more : List String) :
    addNames names.eraseDups more = (names ++ more).eraseDups := by
  induction more using reverseRecOn with
  | nil => rw [append_nil]; rfl
  | append_singleton more name ih =>
    rw [addNames_append, ih, ← append_assoc, eraseDups_concat]
    simp only [addNames, foldl_cons, foldl_nil, contains_eq_mem, mem_eraseDups]

private theorem Node.bind_eraseDups (names : List String) :
    Node.bind names.eraseDups = Node.bind names := by
  funext node
  rw [Node.bind, Node.bind, addNames_eraseDups_right]

/-! ### The reading of a clause -/

/-- A dimension or a total of a clause with the names listed at it. -/
abbrev NamedAtom := Atom × List String

/-- The sequences of a piece of a clause with the names at every element, and the names that the piece
passes up. -/
structure NamedSequences where
  sequences : List (List NamedAtom)
  passed : List String

namespace NamedSequences

def empty : NamedSequences := ⟨[], []⟩

def single (atom : Atom) : NamedSequences := ⟨[[(atom, [])]], []⟩

/-- Adds names at the last element of a sequence. -/
def nameLast (names : List String) (sequence : List NamedAtom) : List NamedAtom :=
  sequence.modifyLast fun element => (element.1, element.2 ++ names)

def beside (left right : NamedSequences) : NamedSequences where
  sequences := left.sequences ++ right.sequences
  passed := left.passed ++ right.passed

/-- The product of two pieces. What the right one passes up goes to the last elements of the left one,
or further up where the left one has no sequences. -/
def nest (left right : NamedSequences) : NamedSequences :=
  if left.sequences.isEmpty then ⟨right.sequences, left.passed ++ right.passed⟩
  else ⟨nestings (left.sequences.map (nameLast right.passed)) right.sequences, left.passed⟩

/-- Names go to the last elements, or up where there are no sequences. -/
def bind (piece : NamedSequences) (names : List String) : NamedSequences :=
  if piece.sequences.isEmpty then ⟨piece.sequences, piece.passed ++ names⟩
  else ⟨piece.sequences.map (nameLast names), piece.passed⟩

end NamedSequences

namespace Item

mutual

/-- The reading of a clause: its groups side by side, each with the names of its own bindings. -/
def namedClause : AxisClause (List String) → NamedSequences
  | [] => .empty
  | group :: rest => ((namedGroup group).bind (ownNames group)).beside (namedClause rest)

/-- The product of the items of a group, bindings left out. -/
def namedGroup : Group (List String) → NamedSequences
  | [] => .empty
  | binding _ :: rest => namedGroup rest
  | item :: rest => (named item).nest (namedGroup rest)

def named : Item (List String) → NamedSequences
  | dimension d => .single (.dimension d)
  | total t => .single (.total t)
  | binding _ => .empty
  | axis groups => namedClause groups

end

end Item

/-! ### Parts that carry names -/

/-- What a node shows, with the names bound to it. -/
def Node.sight (node : Node) : (Place × Value) × List String := (node.mark, node.measures)

theorem Node.sight_shift (places : Nat) (node : Node) : (node.shift places).sight = node.sight := rfl

/-- A node stands for an atom and has the names listed at it, each once. -/
def NamedAtom.Shows (schema : Schema) (measures : List Measure) (element : NamedAtom)
    (sight : (Place × Value) × List String) : Prop :=
  Atom.Shows schema measures element.1 sight.1 ∧ sight.2 = element.2.eraseDups

private theorem forall₂_modifyLast {α β : Type} {R : α → β → Prop} {f : α → α} {g : β → β}
    (kept : ∀ x y, R x y → R (f x) (g y)) {xs : List α} {ys : List β}
    (related : Forall₂ R xs ys) : Forall₂ R (xs.modifyLast f) (ys.modifyLast g) := by
  induction related with
  | nil => exact .nil
  | @cons x y xs ys head tail ih =>
    cases tail with
    | nil => exact .cons (kept x y head) .nil
    | @cons x' y' xs ys next rest =>
      have left := modifyLast_append_of_right_ne_nil f [x] (x' :: xs) (cons_ne_nil _ _)
      have right := modifyLast_append_of_right_ne_nil g [y] (y' :: ys) (cons_ne_nil _ _)
      rw [singleton_append] at left right
      rw [left, right]
      exact .cons head ih

namespace Part

/-- The branches of a part carry the names of a piece of a clause, and it passes up the same. -/
structure Reads (schema : Schema) (measures : List Measure) (piece : NamedSequences) (part : Part) :
    Prop where
  branches : List.Forall₂ (List.Forall₂ (NamedAtom.Shows schema measures)) piece.sequences
    (part.forest.views Node.sight)
  passed : part.names = piece.passed.eraseDups

namespace Reads

variable {schema : Schema} {measures : List Measure} {piece left right : NamedSequences}
  {part first second : Part}

private theorem empty : Reads schema measures .empty .empty := ⟨.nil, rfl⟩

theorem isEmpty_eq (reads : Reads schema measures piece part) :
    piece.sequences.isEmpty = part.forest.isEmpty := by
  rw [← Forest.isEmpty_views Node.sight]
  exact isEmpty_eq_of_forall₂ reads.branches

private theorem beside (reads : Reads schema measures left first)
    (others : Reads schema measures right second) :
    Reads schema measures (left.beside right) (first.beside second) where
  branches := by
    rw [Part.beside, Forest.views_append, Forest.views_map (Node.sight_shift _)]
    exact rel_append reads.branches others.branches
  passed := by
    rw [Part.beside, reads.passed, others.passed, addNames_eraseDups_right, addNames_eraseDups]
    rfl

private theorem nameLast (reads : Reads schema measures piece part) (names : List String) :
    Forall₂ (Forall₂ (NamedAtom.Shows schema measures))
      (piece.sequences.map (NamedSequences.nameLast names))
      ((part.forest.mapLeaves (Node.bind names)).views Node.sight) := by
  have bound (node : Node) : (node.bind names).sight = (node.mark, addNames node.measures names) := rfl
  rw [Forest.views_mapLeaves (g := fun sight => (sight.1, addNames sight.2 names)) bound,
    forall₂_map_left_iff, forall₂_map_right_iff]
  refine reads.branches.imp fun sequence branch along => forall₂_modifyLast ?_ along
  rintro element sight ⟨shown, own⟩
  refine ⟨shown, ?_⟩
  show addNames sight.2 names = (element.2 ++ names).eraseDups
  rw [own, addNames_eraseDups]

private theorem bind (reads : Reads schema measures piece part) (names : List String) :
    Reads schema measures (piece.bind names) (part.bind names) := by
  unfold NamedSequences.bind Part.bind
  rw [reads.isEmpty_eq]
  split
  · exact ⟨reads.branches, by rw [reads.passed, addNames_eraseDups]⟩
  · exact ⟨reads.nameLast names, reads.passed⟩

private theorem nest (reads : Reads schema measures left first)
    (others : Reads schema measures right second) :
    Reads schema measures (left.nest right) (first.nest second) := by
  unfold NamedSequences.nest Part.nest
  rw [reads.isEmpty_eq]
  split
  · exact ⟨others.branches, by
      rw [reads.passed, others.passed, addNames_eraseDups_right, addNames_eraseDups]⟩
  next inhabited =>
    refine ⟨?_, reads.passed⟩
    -- Every copy below a leaf shows the same, so the branches are the product.
    rw [others.passed, Node.bind_eraseDups,
      Forest.views_graft fun leaf => Forest.views_map (Node.sight_shift _) _]
    · exact forall₂_nestings (reads.nameLast right.passed) others.branches
    · rw [Forest.isEmpty_mapLeaves]
      simpa using inhabited

end Reads

end Part

/-! ### Compiled clauses -/

namespace Item

variable {schema : Schema} {measures : List Measure}

private theorem reads_leaf {atom : Atom} {place : Place} {label : Value}
    (shown : Atom.Shows schema measures atom (place, label)) :
    Part.Reads schema measures (.single atom) (.leaf place label) :=
  ⟨.cons (.cons ⟨shown, rfl⟩ .nil) .nil, rfl⟩

private theorem namedGroup_of_not_binding {item : Item (List String)} {rest : Group (List String)}
    (other : ¬ ∃ names, item = .binding names) :
    namedGroup (item :: rest) = (named item).nest (namedGroup rest) := by
  cases item with
  | binding names => exact absurd ⟨names, rfl⟩ other
  | _ => rw [namedGroup]; simp

private theorem compileClause_reads {clause : AxisClause (List String)} {part : Part}
    (built : compileClause schema measures clause = .ok part) :
    Part.Reads schema measures (namedClause clause) part := by
  refine compile_induction (C := fun clause => Part.Reads schema measures (namedClause clause))
    (G := fun group => Part.Reads schema measures (namedGroup group))
    (I := fun item => Part.Reads schema measures (named item)) ?_ ?_ ?_ .empty ?_ .empty ?_ ?_ built
  · exact fun _ _ _ built => reads_leaf (shows_of_compileDimension built)
  · exact fun _ _ _ built => reads_leaf (shows_of_compileTotal built)
  · exact fun _ _ inside => inside
  · exact fun group _ _ _ inside behind => (inside.bind (ownNames group)).beside behind
  · exact fun _ _ _ behind => behind
  · intro item rest first others other inside behind
    rw [namedGroup_of_not_binding other]
    exact inside.nest behind

end Item

/-- The branches of an axis carry the names that its clause lists along its sequences, node by node and
each name once; what the clause passes up is bound to the axis as a whole. No name of a binding is
lost. -/
theorem Axis.names_bound_where_listed {schema : Schema} {measures : List Measure}
    {clause : Option (AxisClause (List String))} {axis : Axis}
    (built : Axis.ofClause schema measures clause = .ok axis) :
    List.Forall₂ (List.Forall₂ (NamedAtom.Shows schema measures))
        (orEmptySequence (Item.namedClause (clause.getD [])).sequences)
        (axis.branches.map (List.map Node.sight)) ∧
      axis.measures = (Item.namedClause (clause.getD [])).passed.eraseDups ∧
      ∀ names ∈ Item.clauseBindings (clause.getD []), ∀ name ∈ names,
        name ∈ axis.measures ∨ ∃ branch ∈ axis.branches, ∃ node ∈ branch, name ∈ node.measures := by
  refine ⟨?_, ?_, fun names held name within => ?_⟩
  · obtain ⟨part, compiled, rfl⟩ := Axis.ofClause_eq_ok built
    exact Axis.forall₂_branches ⟨part.forest, part.names⟩ (Item.compileClause_reads compiled).branches
  · obtain ⟨part, compiled, rfl⟩ := Axis.ofClause_eq_ok built
    exact (Item.compileClause_reads compiled).passed
  · obtain ⟨branch, along, bound, there, own⟩ := Axis.exists_bindingsAlong built held within
    rcases List.mem_cons.mp there with rfl | below
    · exact .inl own
    · obtain ⟨node, on, rfl⟩ := List.mem_map.mp below
      exact .inr ⟨branch, along, node, on, own⟩

/-- `(town | n) * (p | job * q p) * r q`: the names of the first parentheses that find no node go up to
the axis, those of the second to the town, and the group's own ones to the jobs, where `q` is already. -/
theorem Axis.names_of_mixed_group :
    let clause : AxisClause (List String) :=
      [[.axis [[.column "town"], [.binding ["n"]]],
        .axis [[.binding ["p"]], [.column "job", .binding ["q", "p"]]], .binding ["r", "q"]]]
    let schema := Schema.ofNames ["town", "job"] []
    ∃ axis, Axis.ofClause schema [] (some clause) = .ok axis ∧
      axis.branches.map (List.map Node.measures) = [[["p"], ["q", "p", "r"]]] ∧
      axis.measures = ["n"] ∧
      List.Forall₂ (List.Forall₂ (NamedAtom.Shows schema []))
        (orEmptySequence (Item.namedClause clause).sequences)
        (axis.branches.map (List.map Node.sight)) ∧
      axis.measures = (Item.namedClause clause).passed.eraseDups := by
  intro clause schema
  have built : Axis.ofClause schema [] (some clause) = .ok _ := rfl
  have named := Axis.names_bound_where_listed built
  exact ⟨_, built, rfl, rfl, named.1, named.2.1⟩

end Crosstab
