import Crosstab.Plan
import Crosstab.Proofs.Axis.Denotation
import Crosstab.Proofs.Distinct
import Crosstab.Proofs.Measure.Binding
import Crosstab.Proofs.Statement.Compilation

/-!
# Compiled tables

What later stages rely on in a table that a statement was compiled to.
-/
namespace Crosstab

open Outcome Crosstab.Measure List

variable {measures : List Measure} {dimension : Dimension} {order : MemberOrder}

private theorem Dimension.Orders.orderBy_mem (orders : dimension.Orders measures order) {ref : MeasureRef}
    (ordered : order.orderBy = some ref) : ref ∈ measures.map base := by
  obtain ⟨_, _, related⟩ := orders.reference
  rw [ordered] at related
  cases related with
  | some resolves =>
    obtain ⟨before, measure, after, rfl, _, rfl, _⟩ := resolves
    simp

namespace Axis

variable {schema : Schema} {measures : List Measure}
  {clause : Option (AxisClause (List String))} {axis : Axis}

variable {node : Node}

section

variable (built : Axis.ofClause schema measures clause = .ok axis)
  (member : node ∈ axis.forest.walk)
include built member

/-- The nodes of an axis are totals, or dimensions of known fields with the ordering of a written one. -/
theorem place_of_ofClause :
    node.place = .total ∨ ∃ (dimension : Dimension) (field : String) (order : MemberOrder),
      dimension.Orders measures order ∧ node.place = .dimension field order ∧
        schema.hasField field := by
  obtain ⟨part, compiled, rfl⟩ := Axis.ofClause_eq_ok built
  -- Every node lies on a branch, and the branches show the clause, so the ordering of the node is
  -- that of a dimension of the clause.
  obtain ⟨branch, inside, along⟩ := Forest.exists_branch_of_mem_walk member
  have shown := Item.compileClause_shows compiled
  obtain ⟨sequence, _, shown⟩ := exists_left_of_forall₂ shown (mem_map_of_mem inside)
  obtain ⟨atom, _, shown⟩ := exists_left_of_forall₂ shown (mem_map_of_mem along)
  generalize marked : node.mark = mark at shown
  have place : node.place = mark.1 := congrArg Prod.fst marked
  rw [place]
  cases shown with
  | total total => exact .inl rfl
  | dimension _ known orders => exact .inr ⟨_, _, _, orders, rfl, known⟩

theorem orderBy_mem_of_ofClause {ref : MeasureRef} (ordered : node.order.orderBy = some ref)
    : ref ∈ measures.map base := by
  unfold Node.order at ordered
  rcases place_of_ofClause built member with total | ⟨dimension, field, order, orders, place, _⟩
  · rw [total] at ordered
    cases ordered
  · rw [place] at ordered
    exact orders.orderBy_mem ordered

theorem limit_ne_zero_of_ofClause : node.order.limit ≠ some 0 := by
  unfold Node.order
  rcases place_of_ofClause built member with total | ⟨dimension, field, order, orders, place, _⟩
  · rw [total]
    exact fun zero => nomatch zero
  · rw [place]
    exact orders.limited

end

end Axis

namespace Table

/-- A table as compilation leaves it. -/
structure WellFormed (schema : Schema) (table : Table) : Prop where
  axis : ∀ side, ∃ clause, Axis.ofClause schema table.measures clause = .ok (table.axis side)
  names : (table.measures.map Measure.name).Nodup
  aggregates : ∀ measure ∈ table.measures, Aggregate.isValid measure.aggregate = true

variable {includeNulls : Value} {statement : Statement}

theorem wellFormed_of_compile (compiled : Table.compile schema includeNulls statement = .ok table) :
    table.WellFormed schema := by
  obtain ⟨measures, names, made⟩ := compile_eq_ok_iff.mp compiled
  refine ⟨fun side => ⟨_, made.axis side⟩, ?_, ?_⟩
  -- A table without measures counts rows.
  · rw [made.measures, orRowCount]
    split
    · exact nodup_singleton _
    · exact nodup_names_of_bindAll made.bound
  · rw [made.measures, orRowCount]
    split
    · intro measure member
      rw [mem_singleton.mp member]
      decide
    · exact isValid_of_bindAll made.bound

variable {schema : Schema} {table : Table}

theorem WellFormed.isNumbered (wellFormed : table.WellFormed schema) (side : Side) :
    (table.axis side).forest.IsNumbered := by
  obtain ⟨clause, built⟩ := wellFormed.axis side
  exact Axis.isNumbered_of_ofClause built

theorem mem_measures_of_mem_cellMeasures {rowBranch colBranch : List Node} {measure : Measure}
    (member : measure ∈ table.cellMeasures rowBranch colBranch) : measure ∈ table.measures := by
  unfold cellMeasures at member
  simp only at member
  split at member
  · exact member
  · obtain ⟨name, _, found⟩ := mem_filterMap.mp member
    exact mem_of_find?_eq_some found

end Table

end Crosstab
