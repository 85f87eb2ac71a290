import Crosstab.Proofs.Axis.Related
import Crosstab.Proofs.Statement.Compilation

/-!
# Statements without some of their rankings

Without some rankings that have no limit, a statement compiles to the same table but for the
orderings of the nodes concerned.
-/
namespace Crosstab

open Outcome Item List Dimension

/-! ### Nodes -/

/-- The same node, possibly without a ranking that was not limited. -/
inductive Node.Unranks : Node → Node → Prop
  | same (node : Node) : Unranks node node
  | plain (id : Nat) (field : String) {order : MemberOrder} (label : Value) (measures : List String)
      (ranked : order.byValue = true) (unlimited : order.limit = none) :
      Unranks ⟨id, .dimension field order, label, measures⟩
        ⟨id, .dimension field .plain, label, measures⟩

private theorem compatible_unranks : Node.Compatible id Node.Unranks where
  injective := Function.injective_id
  leaf _ _ := .same _
  shift places _ _ unranks := by
    cases unranks with
    | same => exact .same _
    | plain id field label measures ranked unlimited =>
      exact .plain _ field label measures ranked unlimited
  bind names _ _ unranks := by
    rw [map_id]
    cases unranks with
    | same => exact .same _
    | plain id field label measures ranked unlimited => exact .plain id field label _ ranked unlimited

/-- Drops the rankings of some nodes that are not limited. -/
structure Unranking where
  node : Node → Node
  unranks : ∀ n : Node, n.Unranks (node n)

/-! ### Clauses -/

def Dimension.plain (dimension : Dimension) : Dimension :=
  { dimension with order := .null, orderBy := none }

/-- The same item, with some dimensions plain that are ordered by value and not limited. -/
inductive Item.Unranks {β : Type} : Item β → Item β → Prop
  | same (item : Item β) : Unranks item item
  | dimension {d : Dimension} (unlimited : d.limit = none) (ranked : d.orderBy.isSome = true) :
      Unranks (.dimension d) (.dimension d.plain)
  | axis {groups groups' : AxisClause β}
      (each : List.Forall₂ (List.Forall₂ Unranks) groups groups') :
      Unranks (.axis groups) (.axis groups')

abbrev Group.Unranks {β : Type} : Group β → Group β → Prop := List.Forall₂ Item.Unranks

abbrev AxisClause.Unranks {β : Type} : AxisClause β → AxisClause β → Prop :=
  List.Forall₂ Group.Unranks

/-- The same statement, with some dimensions plain that are ordered by value and not limited. -/
structure Statement.Unranks (statement plain : Statement) : Prop where
  rows : AxisClause.Unranks statement.rows plain.rows
  cols : Option.Rel AxisClause.Unranks statement.cols plain.cols
  filter : plain.filter = statement.filter
  includeNulls : plain.includeNulls = statement.includeNulls

namespace Item

/-- The same dimension, or the plain one in place of one that is ordered by value and not limited. -/
def DropsRanking (d d' : Dimension) : Prop :=
  d' = d ∨ d.limit = none ∧ d.orderBy.isSome = true ∧ d' = d.plain

section

variable {β : Type} {clause clause' : AxisClause β} (unranks : AxisClause.Unranks clause clause')
include unranks

theorem corresponds_of_unranks : ClauseCorresponds DropsRanking Eq clause clause' := by
  refine clause_induction
    (C := fun clause => ∀ clause', AxisClause.Unranks clause clause' →
      ClauseCorresponds DropsRanking Eq clause clause')
    (G := fun group => ∀ group', Group.Unranks group group' →
      List.Forall₂ (Corresponds DropsRanking Eq) group group')
    (I := fun item => ∀ item', item.Unranks item' → Corresponds DropsRanking Eq item item')
    ?_ ?_ ?_ ?_ ?_ ?_ ?_ ?_ clause clause' unranks
  · intro d _ unranks
    cases unranks with
    | same => exact .dimension (.inl rfl)
    | dimension unlimited ranked => exact .dimension (.inr ⟨unlimited, ranked, rfl⟩)
  · rintro t _ ⟨⟩
    exact .total t
  · rintro b _ ⟨⟩
    exact .binding rfl
  · intro groups inside _ unranks
    cases unranks with
    | same =>
      exact .axis (inside _ (forall₂_same.mpr fun _ _ => forall₂_same.mpr fun _ _ => .same _))
    | axis each => exact .axis (inside _ each)
  · rintro _ ⟨⟩
    exact .nil
  · intro group rest inside behind _ unranks
    cases unranks with | cons first others => exact .cons (inside _ first) (behind _ others)
  · rintro _ ⟨⟩
    exact .nil
  · intro item rest inside behind _ unranks
    cases unranks with | cons first others => exact .cons (inside _ first) (behind _ others)

private theorem clauseBindings_eq : clauseBindings clause' = clauseBindings clause := by
  have related := clauseBindings_related (corresponds_of_unranks unranks)
  rw [forall₂_eq_eq_eq] at related
  exact related.symm

/-- Bindings are labelled alike, whatever the orderings of the dimensions between them. -/
theorem relabelClause_unranks (labels : List (List String)) :
    ClauseCorresponds DropsRanking (Renames id) (relabelClause [] clause labels).1
        (relabelClause [] clause' labels).1 ∧
      (relabelClause [] clause' labels).2 = (relabelClause [] clause labels).2 := by
  obtain ⟨relabelled, left⟩ := relabelClause_related (L := Renames id) [] [] rfl
    (corresponds_of_unranks unranks) (forall₂_same.mpr fun names _ => map_id names)
  refine ⟨relabelled, ?_⟩
  have same : Renames id = Eq := by
    funext names names'
    rw [Renames, map_id]
  rw [same, forall₂_eq_eq_eq] at left
  exact left.symm

end

variable {schema : Schema} {measures : List Measure}

/-- A dimension that was ordered by value compiles without its ordering too. -/
theorem compileDimension_unranks {d : Dimension} (unlimited : d.limit = none)
    (ranked : d.orderBy.isSome) {part : Part}
    (built : compileDimension schema measures d = .ok part) :
    ∃ part', compileDimension schema measures d.plain = .ok part' ∧
      part.Related id Node.Unranks part' := by
  unfold compileDimension at built ⊢
  obtain ⟨named, looked, built⟩ := bind_eq_ok.mp built
  cases named with
  | none => cases built
  | some field =>
    obtain ⟨order, ordered, built⟩ := bind_eq_ok.mp built
    cases built
    obtain ⟨ref, target⟩ := Option.isSome_iff_exists.mp ranked
    have plain : d.plain.compileOrdering measures field = .ok .plain := by
      simp [compileOrdering, plain, readDirection, orderTarget, unlimited, MemberOrder.plain]
    have shape : order.byValue ∧ order.limit = none := by
      obtain ⟨direction, _, ordered⟩ := bind_eq_ok.mp ordered
      simp only [unlimited, orderTarget, target, Option.map_none, reduceCtorEq, ↓reduceIte,
        Option.elim_some] at ordered
      obtain ⟨resolved, _, ordered⟩ := bind_eq_ok.mp ordered
      cases ordered
      exact ⟨rfl, rfl⟩
    refine ⟨.leaf (.dimension field .plain) d.label, ?_, ?_, rfl⟩
    · rw [show d.plain.name = d.name from rfl, looked]
      simp only [plain, ok_bind]
      rfl
    · exact .cons (.plain 0 field d.label [] shape.1 shape.2) .nil .nil

end Item

/-! ### Tables -/

/-- The axis whose nodes have some rankings dropped. -/
def Axis.unranked (unranking : Unranking) (axis : Axis) : Axis :=
  ⟨axis.forest.map unranking.node, axis.measures⟩

/-- The table whose nodes have some rankings dropped, on either side. -/
def Table.unranked (unranking : Side → Unranking) (table : Table) : Table :=
  { table with
    rows := table.rows.unranked (unranking .rows)
    cols := table.cols.unranked (unranking .cols) }

private theorem Axis.exists_ofClause_unranked {schema : Schema} {measures : List Measure}
    {clause clause' : Option (AxisClause (List String))}
    (corresponds : Item.ClauseCorresponds Item.DropsRanking (Renames id) (clause.getD [])
      (clause'.getD [])) {axis : Axis}
    (built : Axis.ofClause schema measures clause = .ok axis) :
    ∃ unranking, Axis.ofClause schema measures clause' = .ok (axis.unranked unranking) := by
  have numbered := Axis.isNumbered_of_ofClause built
  obtain ⟨part, compiled, rfl⟩ := Axis.ofClause_eq_ok built
  have leaves : ∀ d d' place label, Item.DropsRanking d d' →
      compileDimension schema measures d = .ok (.leaf place label) →
      ∃ part', compileDimension schema measures d' = .ok part' ∧
        (Part.leaf place label).Related id Node.Unranks part' := by
    rintro d _ place label (rfl | ⟨unlimited, ranked, rfl⟩) built
    · exact ⟨_, built, .cons (.same _) .nil .nil, rfl⟩
    · exact compileDimension_unranks unlimited ranked built
  obtain ⟨part', compiled', related⟩ := exists_compileClause_related compatible_unranks
    leaves corresponds compiled
  have unique : part.forest.walk.Nodup :=
    List.Nodup.of_map Node.id (numbered.nodup_iff.mpr nodup_range)
  obtain ⟨node, drops, forest⟩ := related.forest.exists_map .same unique
  refine ⟨⟨node, drops⟩, bind_eq_ok.mpr ⟨part', compiled', ?_⟩⟩
  rw [forest, related.names, map_id]
  rfl

namespace Statement.Unranks

variable {statement plain : Statement} (unranks : statement.Unranks plain)
include unranks

private theorem bindings_eq : plain.bindings = statement.bindings := by
  rw [Statement.bindings, Statement.bindings, clauseBindings_eq unranks.rows]
  obtain ⟨first, second⟩ | ⟨_, _, first, second, related⟩ := cases_of_rel unranks.cols
  · rw [first, second]
  · rw [first, second, Option.getD_some, Option.getD_some, clauseBindings_eq related]

private theorem named (names : List (List String)) (side : Side) :
    Item.ClauseCorresponds Item.DropsRanking (Renames id) ((statement.named names side).getD [])
      ((plain.named names side).getD []) := by
  obtain ⟨rowClause, left⟩ := relabelClause_unranks unranks.rows names
  cases side with
  | rows => exact rowClause
  | cols =>
    rw [Statement.named, Statement.named, left]
    obtain ⟨first, second⟩ | ⟨_, _, first, second, related⟩ := cases_of_rel unranks.cols
    · rw [first, second]
      exact .nil
    · rw [first, second]
      exact (relabelClause_unranks related _).1

end Statement.Unranks

/-- With some rankings dropped a statement compiles to the same table, with these rankings
dropped. -/
theorem Table.exists_compile_unranked {schema : Schema} {includeNulls : Value}
    {statement plain : Statement} (unranks : statement.Unranks plain) {table : Table}
    (compiled : Table.compile schema includeNulls statement = .ok table) :
    ∃ unranking, Table.compile schema includeNulls plain = .ok (table.unranked unranking) := by
  obtain ⟨measures, names, made⟩ := compile_eq_ok_iff.mp compiled
  choose unranking built using fun side =>
    Axis.exists_ofClause_unranked (unranks.named names side) (made.axis side)
  refine ⟨unranking, compile_eq_ok_iff.mpr ⟨measures, names, ?_, ?_, made.measures, fun side => ?_, ?_⟩⟩
  · exact unranks.filter ▸ made.filter
  · exact unranks.bindings_eq ▸ made.bound
  · cases side
    · exact built .rows
    · exact built .cols
  · exact unranks.includeNulls ▸ made.includeNulls

end Crosstab
