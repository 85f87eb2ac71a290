import Crosstab.Proofs.Outcome
import Crosstab.Table

/-!
# Compilation

What a statement is compiled to, stage by stage. The axes are built from its clauses with names in
place of the bindings.
-/
namespace Crosstab

open Outcome Item Crosstab.Measure

namespace Statement

variable (statement : Statement)

/-- The clause of a side; an absent one is empty. -/
def clause : Side → AxisClause Binding
  | .rows => statement.rows
  | .cols => statement.cols.getD []

def bindings : List Binding :=
  Item.clauseBindings statement.rows ++ Item.clauseBindings (statement.cols.getD [])

/-- The clause of a side with names in place of its bindings. -/
def named (names : List (List String)) : Side → Option (AxisClause (List String))
  | .rows => some (relabelClause [] statement.rows names).1
  -- The rows take their names first, and the columns go on with the rest.
  | .cols => statement.cols.map fun clause =>
    (relabelClause [] clause (relabelClause [] statement.rows names).2).1

theorem exists_relabel (names : List (List String)) (side : Side) : ∃ labels,
    (statement.named names side).getD [] = (relabelClause [] (statement.clause side) labels).1 := by
  cases side with
  | rows => exact ⟨names, rfl⟩
  | cols =>
    refine ⟨(relabelClause [] statement.rows names).2, ?_⟩
    unfold named clause
    cases statement.cols <;> rfl

end Statement

/-- The number of rows stands in where there are no measures. -/
def Measure.orRowCount (measures : List Measure) : List Measure :=
  if measures.isEmpty then [rowCount] else measures

namespace Table

/-- A table as it is compiled from a statement, whose bindings make the measures and have the
names. -/
structure CompiledFrom (schema : Schema) (includeNulls : Value) (statement : Statement)
    (measures : List Measure) (names : List (List String)) (table : Table) : Prop where
  filter : statement.filter.mapM (FilterTerm.compile schema) = .ok table.filter
  bound : bindAll schema [] statement.bindings = .ok (measures, names)
  measures : table.measures = orRowCount measures
  axis : ∀ side, Axis.ofClause schema table.measures (statement.named names side) =
    .ok (table.axis side)
  includeNulls : table.includeNulls =
    if statement.includeNulls.truthy then statement.includeNulls else includeNulls

variable {schema : Schema} {includeNulls : Value} {statement : Statement}

theorem compile_eq_ok_iff {table : Table} : Table.compile schema includeNulls statement = .ok table ↔
    ∃ measures names, table.CompiledFrom schema includeNulls statement measures names := by
  constructor
  · intro compiled
    obtain ⟨filter, filtered, compiled⟩ := bind_eq_ok.mp compiled
    obtain ⟨⟨measures, names⟩, bound, compiled⟩ := bind_eq_ok.mp compiled
    obtain ⟨rows, builtRows, compiled⟩ := bind_eq_ok.mp compiled
    obtain ⟨cols, builtCols, compiled⟩ := bind_eq_ok.mp compiled
    cases compiled
    exact ⟨measures, names, filtered, bound, rfl, Side.rec builtRows builtCols, rfl⟩
  · rintro ⟨measures, names, made⟩
    obtain ⟨rows, cols, _, filter, _⟩ := table
    obtain ⟨filtered, bound, rfl, built, rfl⟩ := made
    exact bind_eq_ok.mpr ⟨filter, filtered, bind_eq_ok.mpr ⟨_, bound,
      bind_eq_ok.mpr ⟨rows, built .rows, bind_eq_ok.mpr ⟨cols, built .cols, rfl⟩⟩⟩⟩

theorem compile_eq {filter : Option Filter} {measures : List Measure} {names : List (List String)}
    (filtered : statement.filter.mapM (FilterTerm.compile schema) = .ok filter)
    (bound : bindAll schema [] statement.bindings = .ok (measures, names)) :
    Table.compile schema includeNulls statement = (do
      let rows ← Axis.ofClause schema (orRowCount measures) (statement.named names .rows)
      let cols ← Axis.ofClause schema (orRowCount measures) (statement.named names .cols)
      let includeNulls :=
        if statement.includeNulls.truthy then statement.includeNulls else includeNulls
      return { rows, cols, measures := orRowCount measures, filter, includeNulls }) := by
  have listed : bindAll schema []
      (clauseBindings statement.rows ++ clauseBindings (statement.cols.getD [])) =
        .ok (measures, names) := bound
  unfold Table.compile
  simp only [filtered, listed, ok_bind]
  rfl

end Table

end Crosstab
