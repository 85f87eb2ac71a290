import Crosstab.Proofs.Axis.Clause
import Crosstab.Proofs.Value.Key

/-!
# What an axis clause stands for

A clause stands for sequences of dimensions and totals, given by recursion on the clause alone. They
are the branches of the axis built from it, in order.
-/
namespace Crosstab

open List

/-! ### Orderings as written -/

/-- The measure and the aggregate that a measure was asked for by. -/
def Measure.asked (measure : Measure) : Value × String :=
  (measure.field.elim .null Value.text, measure.aggregate)

namespace OrderRef

/-- A reference names an aggregate of a measure; an open one names any aggregate of its measure. -/
def Names (ref : OrderRef) (aggregate : Value × String) : Prop :=
  aggregate.1.same ref.field = true ∧
    (ref.aggregate = .null ∨ (Value.text aggregate.2).same ref.aggregate = true)

/-- A reference stands for the base of the first measure that it names. -/
def ResolvesTo (measures : List Measure) (ref : OrderRef) (base : MeasureRef) : Prop :=
  ∃ before measure after, measures = before ++ measure :: after ∧ ref.Names measure.asked ∧
    base = measure.base ∧ ∀ earlier ∈ before, ¬ref.Names earlier.asked

/-- A reference as it is reported. -/
def target (ref : OrderRef) : String :=
  if ref.aggregate.isNull then ref.field.plain else ref.field.plain ++ "." ++ ref.aggregate.plain

end OrderRef

/-- The keywords for the directions, in any case. -/
inductive Direction.Spelled : Value → Option Direction → Prop
  | absent : Spelled .null none
  | ascending {keyword : String} (lowered : Text.lower keyword = "asc") :
      Spelled (.text keyword) (some .ascending)
  | descending {keyword : String} (lowered : Text.lower keyword = "desc") :
      Spelled (.text keyword) (some .descending)

namespace Dimension

/-- A dimension refers to what stands inside its limit. Where there is nothing, or a value that counts
as nothing, it refers to what stands outside. -/
inductive Refers (dimension : Dimension) : Option OrderRef → Prop
  | inside {limit : Limit} {ref : OrderRef} (limited : dimension.limit = some limit)
      (given : limit.orderBy = .ref ref) : Refers dimension (some ref)
  | outside (silent : ∀ limit ∈ dimension.limit,
      limit.orderBy = .absent ∨ ∃ value, limit.orderBy = .other value ∧ value.truthy = false) :
      Refers dimension dimension.orderBy

/-- The ordering that a dimension is written with. -/
structure Orders (measures : List Measure) (dimension : Dimension) (order : MemberOrder) : Prop where
  direction : Direction.Spelled dimension.order order.direction
  limit : order.limit = dimension.limit.map Limit.count
  limited : order.limit ≠ some 0
  reference : ∃ ref, dimension.Refers ref ∧
    Option.Rel (OrderRef.ResolvesTo measures) ref order.orderBy

end Dimension

/-- A dimension or a total of a clause, as written. -/
inductive Atom where
  | dimension (dimension : Dimension)
  | total (total : Total)

/-- What a node shows: the field that it stands for with its ordering, or a total, and the label. -/
def Node.mark (node : Node) : Place × Value := (node.place, node.label)

/-- The mark that an atom asks for. -/
inductive Atom.Shows (schema : Schema) (measures : List Measure) : Atom → Place × Value → Prop
  | dimension {dimension : Dimension} {field : String} {order : MemberOrder}
      (name : dimension.name = .text field) (known : schema.hasField field = true)
      (ordered : dimension.Orders measures order) :
      Shows schema measures (.dimension dimension) (.dimension field order, dimension.label)
  | total (total : Total) : Shows schema measures (.total total) (.total, total.label)

/-- Every outer sequence with every inner one behind it; a side without sequences is passed over. -/
def nestings {α : Type} (outer inner : List (List α)) : List (List α) :=
  if outer.isEmpty then inner
  else if inner.isEmpty then outer
  else outer.flatMap fun first => inner.map (first ++ ·)

namespace Item

variable {β : Type}

mutual

/-- The sequences of a clause: those of its groups, one after the other. -/
def clauseSequences : AxisClause β → List (List Atom)
  | [] => []
  | group :: rest => groupSequences group ++ clauseSequences rest

/-- The sequences of a group: the product of its items, bindings left out. -/
def groupSequences : Group β → List (List Atom)
  | [] => []
  | binding _ :: rest => groupSequences rest
  | item :: rest => nestings (sequences item) (groupSequences rest)

def sequences : Item β → List (List Atom)
  | dimension d => [[.dimension d]]
  | total t => [[.total t]]
  | binding _ => []
  | axis groups => clauseSequences groups

end

end Item

/-! ### Views of forests -/

namespace Forest

section Views

variable {α β : Type} (view : α → β)

/-- What the branches of a forest show through a view of its nodes. -/
def views (forest : Forest α) : List (List β) := forest.branches.map (List.map view)

theorem isEmpty_views (forest : Forest α) : (forest.views view).isEmpty = forest.isEmpty := by
  rw [Bool.eq_iff_iff, List.isEmpty_iff, views, List.map_eq_nil_iff, branches_eq_nil, isEmpty_iff]

theorem views_append (left right : Forest α) :
    (left.append right).views view = left.views view ++ right.views view := by
  rw [views, branches_append, map_append, views, views]

variable {view}

theorem views_map {f : α → α} (kept : ∀ node, view (f node) = view node) (forest : Forest α) :
    (forest.map f).views view = forest.views view := by
  rw [views, branches_map, map_map, views]
  apply map_congr_left
  intro branch _
  rw [Function.comp_apply, map_map]
  exact map_congr_left fun node _ => kept node

theorem views_mapLeaves {f : α → α} {g : β → β} (along : ∀ node, view (f node) = g (view node))
    (forest : Forest α) :
    (forest.mapLeaves f).views view = (forest.views view).map (modifyLast g) := by
  rw [views, branches_mapLeaves, views, map_map, map_map]
  apply map_congr_left
  intro branch member
  obtain none | ⟨front, last, rfl⟩ := eq_nil_or_concat branch
  · exact absurd none (ne_nil_of_mem_branches member)
  · simp [concat_eq_append, modifyLast_concat, along]

theorem views_graft {copy : Nat → Forest α} {right : Forest α}
    (copied : ∀ leaf, (copy leaf).views view = right.views view) {left : Forest α}
    (inhabited : left.isEmpty = false) :
    (graft copy 0 left).views view = nestings (left.views view) (right.views view) := by
  -- A branch continues into all branches of its copy, or stays as it is if the copy is empty.
  have continued (branch : List α) (leaf : Nat) :
      (continuations branch (copy leaf)).map (List.map view) =
        if (right.views view).isEmpty then [branch.map view]
        else (right.views view).map (branch.map view ++ ·) := by
    have empty : (copy leaf).isEmpty = (right.views view).isEmpty := by
      rw [← isEmpty_views view, copied]
    rw [continuations, empty]
    split
    · rfl
    · rw [← copied leaf, views, map_map, map_map]
      apply map_congr_left
      intro rest _
      simp
  -- The graft counts the leaves; what is shown does not depend on the count.
  have indexed : left.views view = (left.branches.zipIdx 0).map fun entry => entry.1.map view := by
    conv_lhs => rw [views, ← zipIdx_map_fst 0 left.branches, map_map]
    rfl
  rw [nestings, isEmpty_views, inhabited, indexed, views, branches_graft, map_flatMap]
  simp only [continued, Bool.false_eq_true, ↓reduceIte]
  split
  · rw [map_eq_flatMap]
  · rw [flatMap_map]

end Views

end Forest

theorem Node.mark_shift (places : Nat) (node : Node) : (node.shift places).mark = node.mark := rfl

namespace Part

private theorem marks_beside (left right : Part) : (left.beside right).forest.views Node.mark =
    left.forest.views Node.mark ++ right.forest.views Node.mark := by
  rw [beside, Forest.views_append, Forest.views_map (Node.mark_shift _)]

private theorem marks_mapLeaves_bind (names : List String) (forest : Forest Node) :
    (forest.mapLeaves (Node.bind names)).views Node.mark = forest.views Node.mark := by
  have kept (node : Node) : (node.bind names).mark = id node.mark := rfl
  rw [Forest.views_mapLeaves kept]
  refine map_id'' (fun marks => ?_) _
  obtain rfl | ⟨front, last, rfl⟩ := eq_nil_or_concat marks
  · rfl
  · rw [concat_eq_append, modifyLast_concat]
    rfl

private theorem marks_bind (part : Part) (names : List String) :
    (part.bind names).forest.views Node.mark = part.forest.views Node.mark := by
  unfold bind
  split
  · rfl
  · exact marks_mapLeaves_bind names part.forest

private theorem marks_nest (left right : Part) : (left.nest right).forest.views Node.mark =
    nestings (left.forest.views Node.mark) (right.forest.views Node.mark) := by
  unfold nest
  by_cases empty : left.forest.isEmpty
  · have none : left.forest.views Node.mark = [] := by
      rw [← List.isEmpty_iff, Forest.isEmpty_views, empty]
    simp [empty, nestings, none]
  · simp only [empty, Bool.false_eq_true, ↓reduceIte]
    rw [Forest.views_graft fun leaf => Forest.views_map (Node.mark_shift _) _, marks_mapLeaves_bind]
    simpa [Forest.isEmpty_mapLeaves] using empty

end Part

/-! ### Clauses -/

theorem isEmpty_eq_of_forall₂ {α β : Type} {R : α → β → Prop} {xs : List α} {ys : List β}
    (related : Forall₂ R xs ys) : xs.isEmpty = ys.isEmpty := by
  cases related <;> rfl

theorem forall₂_nestings {α β : Type} {R : α → β → Prop} {outer inner : List (List α)}
    {outer' inner' : List (List β)} (first : Forall₂ (Forall₂ R) outer outer')
    (second : Forall₂ (Forall₂ R) inner inner') :
    Forall₂ (Forall₂ R) (nestings outer inner) (nestings outer' inner') := by
  unfold nestings
  rw [isEmpty_eq_of_forall₂ first, isEmpty_eq_of_forall₂ second]
  split
  · exact second
  · split
    · exact first
    · refine rel_flatMap first fun x x' along => ?_
      exact rel_map (fun y y' rest => rel_append along rest) second

namespace Dimension

variable {dimension : Dimension} {measures : List Measure} {field : String}

private theorem spelled_of_readDirection {order : Value} {direction : Option Direction}
    (read : readDirection order field = .ok direction) : Direction.Spelled order direction := by
  cases order with
  | null =>
    cases read
    exact .absent
  | text keyword =>
    simp only [readDirection, Value.asText, Outcome.ok_bind] at read
    split at read
    next lowered =>
      cases read
      exact .ascending lowered
    · split at read
      next lowered =>
        cases read
        exact .descending lowered
      · cases read
  | _ => cases read

/-- The first measure that a reference names, or else the reference is reported. -/
theorem resolveOrder_cases (measures : List Measure) (field : String) (ref : OrderRef) :
    (∃ base, ref.ResolvesTo measures base ∧ resolveOrder measures field ref = .ok base) ∨
    (∀ measure ∈ measures, ¬ref.Names measure.asked) ∧
      resolveOrder measures field ref =
        .error (.compile (.orderedByForeignMeasure field ref.target)) := by
  have named (measure : Measure) : ((measure.field.elim .null Value.text).same ref.field &&
      (ref.aggregate.isNull || (Value.text measure.aggregate).same ref.aggregate)) ↔
        ref.Names measure.asked := by
    rw [Bool.and_eq_true, Bool.or_eq_true, Value.isNull_iff]
    rfl
  unfold resolveOrder
  simp only
  split
  next measure found =>
    obtain ⟨own, before, after, split, earlier⟩ := find?_eq_some_iff_append.mp found
    refine .inl ⟨_, ⟨before, measure, after, split, (named measure).mp own, rfl, ?_⟩, rfl⟩
    intro other first names
    simpa [(named other).mpr names] using earlier other first
  next none =>
    refine .inr ⟨fun measure listed own => ?_, rfl⟩
    exact find?_eq_none.mp none measure listed ((named measure).mpr own)

theorem refers_iff {ref : Option OrderRef} :
    dimension.Refers ref ↔ dimension.orderTarget = ref.elim .absent OrderTarget.ref := by
  have same {a b : Option OrderRef} (equal : a.elim .absent OrderTarget.ref = b.elim .absent .ref) :
      a = b := by
    cases a <;> cases b <;> cases equal <;> rfl
  constructor
  · intro refers
    cases refers with
    | inside limited given => simp [orderTarget, limited, given]
    | outside silent =>
      unfold orderTarget
      split
      · rfl
      next limit limited =>
        rcases silent limit limited with given | ⟨value, given, falsy⟩
        · simp [given]
        · simp [given, falsy]
  · intro given
    unfold orderTarget at given
    split at given
    next limited =>
      obtain rfl := same given
      exact .outside (by simp [limited])
    next limit limited =>
      split at given
      next absent =>
        obtain rfl := same given
        exact .outside (by simp [limited, absent])
      next own inside =>
        obtain rfl := same (a := some own) given
        exact .inside limited inside
      next value inside =>
        split at given
        · cases ref <;> cases given
        next falsy =>
          obtain rfl := same given
          exact .outside (by simpa [limited, inside] using falsy)

private theorem orders_of_compileOrdering {order : MemberOrder}
    (compiled : dimension.compileOrdering measures field = .ok order) :
    dimension.Orders measures order := by
  obtain ⟨direction, read, compiled⟩ := Outcome.bind_eq_ok.mp compiled
  have spelled := spelled_of_readDirection read
  simp only at compiled
  split at compiled
  · cases compiled
  next limited =>
    cases given : dimension.orderTarget with
    | absent =>
      rw [given] at compiled
      cases compiled
      exact ⟨spelled, rfl, limited, none, refers_iff.mpr given, .none⟩
    | ref ref =>
      rw [given] at compiled
      obtain ⟨base, found, compiled⟩ := Outcome.bind_eq_ok.mp compiled
      cases compiled
      rcases resolveOrder_cases measures field ref with ⟨_, resolves, own⟩ | ⟨_, missed⟩
      · cases found.symm.trans own
        exact ⟨spelled, rfl, limited, some ref, refers_iff.mpr given, .some resolves⟩
      · cases found.symm.trans missed
    | other value =>
      rw [given] at compiled
      cases compiled

end Dimension

namespace Item

variable {schema : Schema} {measures : List Measure}

theorem shows_of_compileDimension {d : Dimension} {place : Place} {label : Value}
    (built : compileDimension schema measures d = .ok (.leaf place label)) :
    Atom.Shows schema measures (.dimension d) (place, label) := by
  unfold compileDimension at built
  obtain ⟨named, looked, built⟩ := Outcome.bind_eq_ok.mp built
  cases named with
  | none => cases built
  | some field =>
    obtain ⟨order, ordered, built⟩ := Outcome.bind_eq_ok.mp built
    cases built
    obtain ⟨key, keyed, looked⟩ := Outcome.bind_eq_ok.mp looked
    -- Only texts are names of fields, so the key that was looked up is the name itself.
    have name : d.name = key := by
      unfold Value.asKey at keyed
      split at keyed
      · cases keyed; rfl
      · cases keyed
    split at looked
    next s =>
      have found : (if schema.hasField s then some s else none) = some field :=
        Outcome.pure_eq_ok.mp looked
      split at found
      next known =>
        cases found
        exact .dimension name known (Dimension.orders_of_compileOrdering ordered)
      · cases found
    · cases looked

theorem shows_of_compileTotal {t : Total} {place : Place} {label : Value}
    (built : compileTotal t = .ok (.leaf place label)) :
    Atom.Shows schema measures (.total t) (place, label) := by
  unfold compileTotal at built
  split at built
  · cases built
  · cases built
    exact .total t

/-- A binding has no sequences, so it need not be told apart in a product. -/
theorem groupSequences_cons {β : Type} (item : Item β) (rest : Group β) :
    groupSequences (item :: rest) = nestings (sequences item) (groupSequences rest) := by
  cases item with
  | binding b => simp [groupSequences, sequences, nestings]
  | _ => rw [groupSequences]; simp

theorem compileClause_shows {clause : AxisClause (List String)} {part : Part}
    (built : compileClause schema measures clause = .ok part) :
    Forall₂ (Forall₂ (Atom.Shows schema measures)) (clauseSequences clause)
      (part.forest.views Node.mark) := by
  refine compile_induction
    (C := fun clause part =>
      Forall₂ (Forall₂ (Atom.Shows schema measures)) (clauseSequences clause)
        (part.forest.views Node.mark))
    (G := fun group part =>
      Forall₂ (Forall₂ (Atom.Shows schema measures)) (groupSequences group) (part.forest.views Node.mark))
    (I := fun item part =>
      Forall₂ (Forall₂ (Atom.Shows schema measures)) (sequences item) (part.forest.views Node.mark))
    ?_ ?_ ?_ .nil ?_ .nil ?_ ?_ built
  · exact fun _ _ _ built => .cons (.cons (shows_of_compileDimension built) .nil) .nil
  · exact fun _ _ _ built => .cons (.cons (shows_of_compileTotal built) .nil) .nil
  · exact fun _ _ inside => inside
  · intro group rest first others inside behind
    rw [clauseSequences, Part.marks_beside, Part.marks_bind]
    exact rel_append inside behind
  · exact fun _ _ _ behind => behind
  · intro item rest first others _ inside behind
    rw [groupSequences_cons, Part.marks_nest]
    exact forall₂_nestings inside behind

end Item

/-- Without sequences there is still one branch, the empty one. -/
def orEmptySequence {α : Type} (sequences : List (List α)) : List (List α) :=
  if sequences.isEmpty then [[]] else sequences

/-- The branches of an axis are those of its forest; an empty axis has one branch without nodes. -/
theorem Axis.forall₂_branches {α β : Type} {R : α → β → Prop} {view : Node → β} (axis : Axis)
    {sequences : List (List α)} (shown : Forall₂ (Forall₂ R) sequences (axis.forest.views view)) :
    Forall₂ (Forall₂ R) (orEmptySequence sequences) (axis.branches.map (map view)) := by
  unfold branches orEmptySequence isEmpty
  rw [isEmpty_eq_of_forall₂ shown, Forest.isEmpty_views]
  split
  · exact .cons .nil .nil
  · exact shown

/-- The branches of an axis are the sequences of its clause, in order: node by node they stand for the
dimensions and totals of the sequence, with their labels and orderings. -/
theorem Axis.branches_show_clause {schema : Schema} {measures : List Measure}
    {clause : Option (AxisClause (List String))} {axis : Axis}
    (built : Axis.ofClause schema measures clause = .ok axis) :
    List.Forall₂ (List.Forall₂ (Atom.Shows schema measures))
      (orEmptySequence (Item.clauseSequences (clause.getD [])))
      (axis.branches.map (List.map Node.mark)) := by
  obtain ⟨part, compiled, rfl⟩ := Axis.ofClause_eq_ok built
  exact Axis.forall₂_branches ⟨part.forest, part.names⟩ (Item.compileClause_shows compiled)

/-- Two groups in parentheses around a group that only binds, one of them with the two last jobs by
their pay: the product is the same as without the group that binds. -/
theorem Axis.branches_show_clause_around_binding :
    let pay : Measure := ⟨"sum_pay", some "pay", "sum", none, none, .null⟩
    let jobs : Item (List String) :=
      .dimension { name := "job", limit := some ⟨-2, .ref { field := "pay" }⟩, order := "Desc" }
    let total : Item (List String) := .total { label := "All" }
    let clause : AxisClause (List String) :=
      [[.axis [[jobs], [total]], .axis [[.binding ["count"]]], .axis [[total], [.column "sex"]]]]
    let schema := Schema.ofNames ["job", "sex"] []
    let job : Place := .dimension "job" ⟨some ⟨some "pay", "sum"⟩, some .descending, some (-2)⟩
    let sex : Place := .dimension "sex" .plain
    ∃ axis, Axis.ofClause schema [.rowCount, pay] (some clause) = .ok axis ∧
      axis.branches.map (List.map Node.place) =
        [[job, .total], [job, sex], [.total, .total], [.total, sex]] ∧
      List.Forall₂ (List.Forall₂ (Atom.Shows schema [.rowCount, pay]))
        (orEmptySequence (Item.clauseSequences clause)) (axis.branches.map (List.map Node.mark)) := by
  intro pay jobs total clause schema job sex
  obtain ⟨axis, built, places⟩ : ∃ axis, Axis.ofClause schema [.rowCount, pay] (some clause) =
      .ok axis ∧ axis.branches.map (List.map Node.place) =
        [[job, .total], [job, sex], [.total, .total], [.total, sex]] := by
    decide +kernel
  exact ⟨axis, built, places, Axis.branches_show_clause built⟩

end Crosstab
