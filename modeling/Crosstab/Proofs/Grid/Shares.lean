import Crosstab.Proofs.Grid.UnlimitedBranches
import Mathlib.Algebra.BigOperators.Ring.List
import Mathlib.Algebra.Field.Rat
import Mathlib.Data.Int.Cast.Lemmas

/-!
# Shares

A share divides a number of its crossing by that of one leaf alone. The numerators along an
unlimited branch add up to the denominator.
-/
namespace Crosstab

open List ResolvedTable Value Step

variable {source : List Row} {measure : Measure}

/-- A count of rows, or a sum over a field that holds integers, is a sum over rows. -/
theorem Source.exists_weight {ref : MeasureRef}
    (additive : ref.field = none ∨
      ∃ field, ref = ⟨some field, "sum"⟩ ∧ HoldsIntegers field source) :
    ∃ weight : Row → Int, ∀ rows ⊆ source, ∃ n,
      aggregate ref rows = .ok (ofInt? n) ∧ n.getD 0 = (rows.map weight).sum := by
  rcases additive with bare | ⟨field, rfl, holds⟩
  · refine ⟨fun _ => 1, fun rows _ => ⟨some rows.length, ?_, by simp⟩⟩
    rw [aggregate, bare]
    rfl
  -- A row without a number has no integers, and so adds nothing.
  · refine ⟨fun row => (integers field [row]).sum, fun rows within => ?_⟩
    refine ⟨_, aggregate_integers .sum (holds.of_subset within), ?_⟩
    have whole (numbers : List Int) : (total? numbers).getD 0 = numbers.sum := by
      cases numbers <;> rfl
    rw [whole]
    clear within
    induction rows with
    | nil => rfl
    | cons row rows ih =>
      have split : integers field (row :: rows) = integers field [row] ++ integers field rows := by
        unfold integers
        rw [← filterMap_append, singleton_append]
      rw [split, sum_append, ih, map_cons, sum_cons]

private theorem Table.rowsWith_append_comm (table : Table) (source : List Row)
    (pairs others : List (String × Value)) :
    table.rowsWith source (pairs ++ others) = table.rowsWith source (others ++ pairs) := by
  apply filter_congr
  intro row _
  rw [all_append, all_append, Bool.and_comm (pairs.all _)]

theorem Table.directAggregate_weighs (table : Table) {weight : Row → Int}
    (adds : ∀ rows ⊆ source, ∃ n,
      Source.aggregate measure.base rows = .ok (ofInt? n) ∧
        n.getD 0 = (rows.map weight).sum) (pairs : List (String × Value)) :
    ∃ n, table.directAggregate source measure pairs = .ok (ofInt? n) ∧
      n.getD 0 = table.weigh source weight pairs := by
  unfold directAggregate weigh
  simp only
  split
  next empty =>
    rw [Bool.and_eq_true, List.isEmpty_iff] at empty
    refine ⟨none, rfl, ?_⟩
    rw [empty.2]
    rfl
  · obtain ⟨n, told, weighs⟩ := adds (table.rowsWith source pairs) (filter_subset_self _)
    refine ⟨n, ?_, weighs⟩
    rw [told]
    cases n <;> rfl

private theorem ResolvedTable.readMeasure_share {resolved : ResolvedTable} {plan : QueryPlan}
    {results : Results} {row col : Leaf} {part whole : Value}
    (numerator : readColumn plan results measure (row.crossValues col)
      (resolved.cellRequest row.branch col.branch) = .ok part) {request : QueryRequest}
    (divided : resolved.denominatorRequest row.branch col.branch measure = some request)
    (denominator : readColumn plan results measure (row.crossValues col) request = .ok whole) :
    resolved.readMeasure plan results row col measure =
      if part.isNull then .ok part else share part whole := by
  unfold readMeasure
  simp only [numerator, divided, denominator, Outcome.ok_bind]
  rfl

/-- A leaf of one side and one of the other, the row first. -/
def Side.cross {α : Type} : Side → α → α → α × α
  | .rows, own, other => (own, other)
  | .cols, own, other => (other, own)

namespace Tabulation

variable {schema : Schema} {settings : Settings} {statement : Statement} {source : List Row}
  {t : Tabulation schema settings statement source}

/-- How a share comes about where two leaves cross: what is read for its numerator, what is read for
its denominator, and what fills the cell. -/
structure ReadsShare (t : Tabulation schema settings statement source) (measure : Measure)
    (row col : Leaf) (part whole : Value) : Prop where
  numerator : readColumn t.plan t.results measure (row.crossValues col)
    (t.resolved.cellRequest row.branch col.branch) = .ok part
  denominator : ∃ request,
    t.resolved.denominatorRequest row.branch col.branch measure = some request ∧
      readColumn t.plan t.results measure (row.crossValues col) request = .ok whole
  quotient : ∃ values, (t.resolved.assembly settings t.plan t.results).Fills row col values ∧
    ∃ value ∈ values, value.measure = measure.name ∧
      (if part.isNull then .ok part else share part whole) = .ok value.raw

private theorem usable_crossValues {row col : List Step} (reachesRow : t.Reaches .rows row)
    (reachesCol : t.Reaches .cols col) :
    ∀ field ∈ fieldsOf (row.map Prod.fst) ++ fieldsOf (col.map Prod.fst),
      (((Leaf.ofSteps row).crossValues (.ofSteps col)).get field).hashable := by
  rw [← map_fst_pairs, ← map_fst_pairs, ← map_append, forall_mem_map, forall_mem_append]
  constructor
  · intro pair paired
    rw [get_crossValues_of_row reachesRow reachesCol pair paired]
    exact reachesRow.usable_pairs pair paired
  · intro pair paired
    rw [get_crossValues_of_col reachesCol pair paired]
    exact reachesCol.usable_pairs pair paired

namespace AnsweredAsAsked

variable (asked : t.AnsweredAsAsked)

include asked

variable {request : QueryRequest} {measure : Measure} {side : Side}

private theorem faithful (requested : request ∈ t.resolved.requests) : t.Faithful request := by
  intro query member key
  obtain ⟨fields, selects⟩ := asked.keys.query_as_asked t.answers member requested key
  exact ⟨fields, selects, asked.columns query member⟩

private theorem exists_readColumn (requested : request ∈ t.resolved.requests) (measure : Measure)
    {values : Row} (usable : ∀ field ∈ request.fields, (values.get field).hashable) :
    ∃ v, readColumn t.plan t.results measure values request = .ok v := by
  obtain ⟨query, records, serves⟩ := asked.answeredBy.exists_serves requested rfl
  have stands := (Source.tells_of_recordsOf serves.told serves.columns).toRecords
  have usableRecords : (records.all fun row =>
      (row.project query.fields).all hashable) := by
    rw [all_eq_true]
    intro record told
    rw [Row.project, all_map, all_eq_true]
    exact fun field grouped => stands.hashable told grouped
  have usableWanted : (query.fields.map values.get).all hashable := by
    rw [all_map, all_eq_true]
    intro field grouped
    rw [serves.fields, mem_sortedTexts] at grouped
    exact usable field grouped
  rw [readColumn, findRow, QueryPlan.query?, serves.found, serves.looked]
  simp only [usableRecords, usableWanted, Bool.and_self, ↓reduceIte]
  exact ⟨_, rfl⟩

/-- A share is read from two requests, and both tell what the source has. -/
theorem exists_readsShare (across : measure.across = some side) {row col : List Step}
    (reachesRow : t.Reaches .rows row) (reachesCol : t.Reaches .cols col)
    (inRows : Leaf.ofSteps row ∈ t.rows.2) (inCols : Leaf.ofSteps col ∈ t.cols.2)
    (shown : measure ∈ t.table.cellMeasures (row.map Prod.fst) (col.map Prod.fst)) :
    ∃ part whole, t.ReadsShare measure (.ofSteps row) (.ofSteps col) part whole ∧
      t.table.directAggregate source measure (pairs row ++ pairs col) = .ok part ∧
      t.table.directAggregate source measure (match side with
        | .rows => pairs col
        | .cols => pairs row) = .ok whole := by
  have usable := usable_crossValues reachesRow reachesCol
  have requested (request : QueryRequest) (own : request ∈
      t.resolved.crossingRequests (row.map Prod.fst) (col.map Prod.fst)) :=
    mem_requests_of_crossing reachesRow reachesCol own
  have faithful := fun request own => asked.faithful (requested request own)
  rw [← t.resolved_table] at shown
  -- The number of the crossing.
  obtain ⟨part, numerator⟩ := asked.exists_readColumn (requested _ mem_cons_self) measure usable
  -- The number of the leaf that is kept.
  obtain ⟨request, divided, fields⟩ : ∃ request, t.resolved.denominatorRequest (row.map Prod.fst)
      (col.map Prod.fst) measure = some request ∧
        request.fields ⊆ fieldsOf (row.map Prod.fst) ++ fieldsOf (col.map Prod.fst) := by
    rw [denominatorRequest, across]
    cases side with
    | rows => exact ⟨_, rfl, subset_append_right _ _⟩
    | cols => exact ⟨_, rfl, subset_append_left _ _⟩
  have own : request ∈ t.resolved.crossingRequests (row.map Prod.fst) (col.map Prod.fst) :=
    mem_cons_of_mem _ (mem_filterMap.mpr ⟨measure, shown, divided⟩)
  obtain ⟨whole, denominator⟩ := asked.exists_readColumn (requested _ own) measure
    fun field among => usable field (fields among)
  refine ⟨part, whole, ⟨numerator, ⟨request, divided, denominator⟩, ?_⟩, ?_, ?_⟩
  · obtain ⟨⟨values, fills⟩, _⟩ :=
      fills_last t.assembled t.expandedRows t.expandedCols inRows inCols
    rw [t.resolved_table] at shown
    obtain ⟨value, listed, name, read⟩ :=
      exists_right_of_forall₂ (lists_of_fills reachesRow reachesCol fills) shown
    rw [readMeasure_share numerator divided denominator] at read
    exact ⟨values, fills, value, listed, name, read⟩
  · exact directAggregate_of_read_cell asked.numbers reachesRow reachesCol faithful shown numerator
  · exact directAggregate_of_read_denominator asked.numbers reachesRow reachesCol faithful shown
      across divided denominator

/-- What a share across a side reads where a leaf of that side meets a kept leaf of the other. -/
theorem exists_part (across : measure.across = some side) {weight : Row → Int}
    (adds : ∀ rows ⊆ source, ∃ n,
      Source.aggregate measure.base rows = .ok (ofInt? n) ∧
        n.getD 0 = (rows.map weight).sum) {kept leaf : Leaf}
    (there : kept ∈ (t.expanded side.other).2) (here : leaf ∈ (t.expanded side).2)
    (shown : measure ∈ t.table.cellMeasures (side.cross leaf.branch kept.branch).1
      (side.cross leaf.branch kept.branch).2) {whole : Option Int}
    (direct : t.table.directAggregate source measure kept.pairs = .ok (ofInt? whole)) :
    ∃ part, t.ReadsShare measure (side.cross leaf kept).1 (side.cross leaf kept).2
        (ofInt? part) (ofInt? whole) ∧
      part.getD 0 = t.table.weigh source weight (kept.pairs ++ leaf.pairs) := by
  obtain ⟨keptSteps, rfl, reachesKept⟩ := asked.exists_reaches there
  obtain ⟨steps, rfl, reaches⟩ := asked.exists_reaches here
  rw [Leaf.pairs_ofSteps] at direct ⊢
  rw [Leaf.pairs_ofSteps]
  cases side with
  | rows =>
    obtain ⟨part, denominator, reads, direct', wholly⟩ :=
      asked.exists_readsShare across reaches reachesKept here there shown
    cases direct.symm.trans wholly
    obtain ⟨n, told, weighs⟩ := t.table.directAggregate_weighs adds (pairs steps ++ pairs keptSteps)
    cases direct'.symm.trans told
    refine ⟨n, reads, ?_⟩
    -- The pairs of the row come first, and here the kept leaf is a column.
    rw [weighs, Table.weigh, Table.rowsWith_append_comm]
    rfl
  | cols =>
    obtain ⟨part, denominator, reads, direct', wholly⟩ :=
      asked.exists_readsShare across reachesKept reaches there here shown
    cases direct.symm.trans wholly
    obtain ⟨n, told, weighs⟩ := t.table.directAggregate_weighs adds (pairs keptSteps ++ pairs steps)
    cases direct'.symm.trans told
    exact ⟨n, reads, weighs⟩

end AnsweredAsAsked

/-- Shares of a whole that is not zero make up one, if their numerators add up to the whole. -/
theorem sum_quotients {parts : List (Option Int)} {whole : Option Int}
    (total : (parts.map fun part => part.getD 0).sum = whole.getD 0) (some : whole.getD 0 ≠ 0) :
    (parts.map fun part => (part.getD 0 : ℚ) / (whole.getD 0 : ℚ)).sum = 1 := by
  have cast : (parts.map fun part => ((part.getD 0 : Int) : ℚ)).sum = (whole.getD 0 : ℚ) := by
    have summed := map_list_sum (Int.castAddHom ℚ) (parts.map fun part => part.getD 0)
    rw [total, map_map] at summed
    exact summed.symm
  simp only [div_eq_mul_inv]
  rw [sum_map_mul_right, cast]
  exact mul_inv_cancel₀ (Int.cast_ne_zero.mpr some)

/-- Shares across a side of a count or of a sum of integers. Below a kept leaf of the other side,
the numerators of the leaves of an unlimited branch add up to the denominator that all of them
divide by, where null adds nothing, so the shares make up one unless that denominator is zero. -/
theorem shares_add_up (asked : t.AnsweredAsAsked) {measure : Measure} {side : Side}
    (across : measure.across = some side)
    (additive : measure.base.field = none ∨
      ∃ field, measure.base = ⟨some field, "sum"⟩ ∧ Source.HoldsIntegers field source)
    {kept : Leaf} (there : kept ∈ (t.expanded side.other).2) {branch : List Node}
    (inside : branch ∈ (t.table.axis side).branches)
    (unlimited : ∀ node ∈ branch, node.order.limit = none)
    (shown : measure ∈ t.table.cellMeasures (side.cross branch kept.branch).1
      (side.cross branch kept.branch).2) :
    ∃ (whole : Option Int) (parts : List (Option Int)),
      t.table.directAggregate source measure kept.pairs = .ok (Value.ofInt? whole) ∧
      List.Forall₂ (fun leaf part => t.ReadsShare measure (side.cross leaf kept).1
          (side.cross leaf kept).2 (Value.ofInt? part) (Value.ofInt? whole))
        ((t.expanded side).2.filter fun leaf => leaf.branch.map Node.id = branch.map Node.id)
        parts ∧
      (parts.map fun part => part.getD 0).sum = whole.getD 0 ∧
      (whole.getD 0 ≠ 0 →
        (parts.map fun part => (part.getD 0 : ℚ) / (whole.getD 0 : ℚ)).sum = 1) := by
  obtain ⟨weight, adds⟩ := Source.exists_weight additive
  obtain ⟨whole, direct, wholeWeighs⟩ := t.table.directAggregate_weighs adds kept.pairs
  have numbered := (Table.wellFormed_of_compile t.compiled).isNumbered side
  have each : ∀ leaf ∈ (t.expanded side).2.filter
      fun leaf => leaf.branch.map Node.id = branch.map Node.id, ∃ part,
        t.ReadsShare measure (side.cross leaf kept).1 (side.cross leaf kept).2 (Value.ofInt? part)
          (Value.ofInt? whole) ∧
        part.getD 0 = t.table.weigh source weight (kept.pairs ++ leaf.pairs) := by
    intro leaf listed
    obtain ⟨here, ids⟩ := List.mem_filter.mp listed
    have along := Expansion.branch_mem (t.expandAxis_eq side) here
    rw [t.resolved_table] at along
    have onBranch : leaf.branch = branch :=
      Axis.branch_eq_of_ids_eq numbered along inside (of_decide_eq_true ids)
    exact asked.exists_part across adds there here (onBranch ▸ shown) direct
  obtain ⟨parts, related⟩ := exists_forall₂ each
  have weights : (parts.map fun part => part.getD 0) =
      ((t.expanded side).2.filter fun leaf => leaf.branch.map Node.id = branch.map Node.id).map
        fun leaf => t.table.weigh source weight (kept.pairs ++ leaf.pairs) := by
    rw [← List.forall₂_eq_eq_eq, List.forall₂_map_left_iff, List.forall₂_map_right_iff]
    exact related.flip.imp fun _ _ both => both.2
  have total : (parts.map fun part => part.getD 0).sum = whole.getD 0 := by
    obtain ⟨steps, rfl, reaches⟩ := asked.exists_reaches there
    rw [weights, wholeWeighs, Leaf.pairs_ofSteps]
    exact asked.sumOn_branch inside unlimited reaches weight
  exact ⟨whole, parts, direct, related.imp fun _ _ both => both.1, total, sum_quotients total⟩

/-- Shares of pay by town and year for the job with the highest pay, where the towns stand in the
order of their pay and nothing is known of the pay in Bath of one year. -/
theorem shares_of_top_job_add_up :
    let schema := Schema.ofNames ["job", "town", "year"] ["pay"]
    let town : Dimension := { name := "town", order := "DESC", orderBy := some ⟨"pay", "sum"⟩ }
    let statement : Statement :=
      { rows := [[.leading (-1) "job" "pay" "sum"], [.overall]]
        cols := some [[.dimension town, .column "year", .share "pay" ["sum"] "COLS"]] }
    let source := Row.table ["job", "town", "year", "pay"] [["cook", "York", "1901", 5],
      ["cook", "Bath", "1902", 10], ["cook", "Bath", "1901", .null], ["cook", "Bath", "1902", 5],
      ["clerk", "York", "1901", 12], [.null, "York", "1901", 100]]
    let shares := [("town=York / year=1901", ["0.25"]), ("town=Bath / year=1901", ["None"]),
      ("town=Bath / year=1902", ["0.75"])]
    ∃ t : Tabulation schema {} statement source, ∃ measure : Measure,
      ∃ kept ∈ t.rows.2, ∃ branch ∈ t.table.cols.branches,
        kept.path.label = "job=cook" ∧
        (t.cols.2.filter fun leaf => leaf.branch.map Node.id = branch.map Node.id).map
          (fun leaf => (leaf.path.label,
            (t.grid.valuesAt kept.path leaf.path).map fun value => value.raw.plain)) = shares ∧
        ∃ (whole : Option Int) (parts : List (Option Int)),
          t.table.directAggregate source measure kept.pairs = .ok (Value.ofInt? whole) ∧
          List.Forall₂ (fun leaf part => t.ReadsShare measure kept leaf (Value.ofInt? part)
              (Value.ofInt? whole))
            (t.cols.2.filter fun leaf => leaf.branch.map Node.id = branch.map Node.id) parts ∧
          (parts.map fun part => part.getD 0).sum = whole.getD 0 ∧
          (whole.getD 0 ≠ 0 →
            (parts.map fun part => (part.getD 0 : ℚ) / (whole.getD 0 : ℚ)).sum = 1) := by
  intro schema town statement source shares
  obtain ⟨t, asked, kept, there, branch, inside, measure, listed, label, across, base, unlimited,
      cells⟩ : ∃ t : Tabulation schema {} statement source, t.AnsweredAsAsked ∧
        ∃ kept ∈ t.rows.2, ∃ branch ∈ t.table.cols.branches,
          ∃ measure ∈ t.table.cellMeasures kept.branch branch,
            kept.path.label = "job=cook" ∧ measure.across = some .cols ∧
            measure.base = ⟨some "pay", "sum"⟩ ∧ (∀ node ∈ branch, node.order.limit = none) ∧
            (t.cols.2.filter fun leaf => leaf.branch.map Node.id = branch.map Node.id).map
              (fun leaf => (leaf.path.label,
                (t.grid.valuesAt kept.path leaf.path).map fun value => value.raw.plain)) = shares :=
    exists_of_run (by decide +kernel)
  have holds : Source.HoldsIntegers "pay" source := by decide
  exact ⟨t, measure, kept, there, branch, inside, label, cells,
    shares_add_up asked across (.inr ⟨"pay", base, holds⟩) there inside unlimited listed⟩

end Tabulation

end Crosstab
