import Crosstab.Proofs.Plan
import Crosstab.Proofs.Row
import Crosstab.Source

/-!
# Columns of results

A result row has one column for each grouped field and each aggregate. Where the names keep them
apart, the row tells all of their values.
-/
namespace Crosstab

open List MeasureRef

/-! ### Names of functions -/

namespace Aggregate

variable {name : String}

private theorem underscore_not_mem_of_percentile {percent : Nat}
    (read : percentile? name = some percent) :
    '_' ∉ name.toList := by
  unfold percentile? at read
  split at read
  next rest spelled =>
    rw [spelled]
    simp only [Option.ite_none_left_eq_some, Bool.or_eq_true, not_or, Bool.not_eq_true,
      any_eq_false] at read
    obtain ⟨⟨_, digits⟩, _⟩ := read
    -- All that stands behind the first letter is digits, but for one final line break.
    have tail (front : List Char)
        (digits : ∀ digit ∈ front.map Text.digit?, digit.isNone = false) : '_' ∉ front := by
      intro member
      have digit := digits _ (mem_map_of_mem member)
      cases digit
    rw [mem_cons, not_or]
    refine ⟨by decide, ?_⟩
    split at digits
    next front reversed =>
      have split : rest = front.reverse ++ ['\n'] := by
        rw [← reverse_cons, ← reversed, reverse_reverse]
      rw [split, mem_append, not_or]
      exact ⟨tail _ digits, by decide⟩
    · exact tail _ digits
  · cases read

private theorem underscore_not_mem_of_isValid (valid : isValid name) : '_' ∉ name.toList := by
  unfold isValid at valid
  rw [Bool.or_eq_true] at valid
  rcases valid with base | percentile
  · have listed : ∀ name ∈ baseNames, '_' ∉ name.toList := by decide
    exact listed name (contains_iff_mem.mp base)
  · cases read : percentile? name with
    | none => simp [read] at percentile
    | some percent => exact underscore_not_mem_of_percentile read

end Aggregate

namespace MeasureRef

/-- What the column shows of the field: underscores for dots, and nothing if there is no field. -/
def shownField (ref : MeasureRef) : String :=
  (ref.field.getD "").map fun c => if c = '.' then '_' else c

/-- The part of a column behind the function. -/
private def columnTail (shown : List Char) : List Char :=
  if shown.isEmpty then [] else '_' :: shown

private theorem toList_column (ref : MeasureRef) :
    ref.column.toList = ref.aggregate.toList ++ columnTail ref.shownField.toList := by
  unfold column Aggregate.column shownField columnTail
  cases ref.field with
  | none => simp
  | some field =>
    by_cases empty : field.isEmpty
    · have none : field = "" := by simpa using empty
      simp [none]
    · have some : field ≠ "" := by simpa using empty
      simp [some]

private theorem column_eq (ref : MeasureRef) : ref.column =
    if ref.shownField = "" then ref.aggregate else ref.aggregate ++ "_" ++ ref.shownField := by
  rw [← String.toList_inj, toList_column, columnTail]
  by_cases empty : ref.shownField = ""
  · simp [empty]
  · simp [empty]

private theorem columnTail_injective {a b : List Char} (same : columnTail a = columnTail b) :
    a = b := by
  unfold columnTail at same
  cases a <;> cases b <;> simp_all

private theorem column_eq_iff {a b : MeasureRef} (first : Aggregate.isValid a.aggregate)
    (second : Aggregate.isValid b.aggregate) :
    a.column = b.column ↔ a.aggregate = b.aggregate ∧ a.shownField = b.shownField := by
  -- Functions have no underscore, so what comes before the first one is the function.
  have function (ref : MeasureRef) (valid : Aggregate.isValid ref.aggregate) :
      ref.column.toList.takeWhile (· != '_') = ref.aggregate.toList := by
    have free : ∀ c ∈ ref.aggregate.toList, (c != '_') := by
      intro c member
      have absent := Aggregate.underscore_not_mem_of_isValid valid
      simp only [bne_iff_ne]
      rintro rfl
      exact absent member
    rw [toList_column, takeWhile_append_of_pos free, columnTail]
    split <;> simp
  constructor
  · intro same
    have functions : a.aggregate = b.aggregate := by
      rw [← String.toList_inj, ← function a first, ← function b second, same]
    refine ⟨functions, ?_⟩
    have spelled := congrArg String.toList same
    rw [toList_column, toList_column, functions, append_cancel_left_eq] at spelled
    exact String.toList_inj.mp (columnTail_injective spelled)
  · rintro ⟨functions, fields⟩
    rw [← String.toList_inj, toList_column, toList_column, functions, fields]

end MeasureRef

/-! ### Columns of a query -/

namespace GroupingQuery

/-- The columns of a result row: the grouped fields, then the aggregates. -/
def columns (query : GroupingQuery) : List String := query.fields ++ query.aggregates.map column

/-- The names of the fields keep the columns apart. -/
structure NamesApart (query : GroupingQuery) : Prop where
  /-- No function is applied to two fields that differ only in dots for underscores. -/
  measured : ∀ a ∈ query.aggregates, ∀ b ∈ query.aggregates,
    a.aggregate = b.aggregate → a.shownField = b.shownField → a = b
  /-- No grouped field is written like a function with what is shown of its field behind it. -/
  grouped : ∀ field ∈ query.fields, ∀ ref ∈ query.aggregates,
    field ≠ if ref.shownField = "" then ref.aggregate else ref.aggregate ++ "_" ++ ref.shownField

/-- A query as merging leaves it, for aggregates that exist. -/
structure WellFormed (query : GroupingQuery) : Prop where
  fields : query.fields.Nodup
  aggregates : query.aggregates.Nodup
  valid : ∀ ref ∈ query.aggregates, Aggregate.isValid ref.aggregate = true

private theorem nodup_columns_iff {query : GroupingQuery} (wellFormed : query.WellFormed) :
    query.columns.Nodup ↔ query.NamesApart := by
  rw [columns, nodup_append, nodup_map_iff_inj_on wellFormed.aggregates]
  constructor
  · rintro ⟨_, injective, disjoint⟩
    refine ⟨?_, ?_⟩
    · intro a first b second functions shown
      exact injective a first b second ((column_eq_iff (wellFormed.valid a first)
        (wellFormed.valid b second)).mpr ⟨functions, shown⟩)
    · intro field member ref asked
      rw [← column_eq]
      exact disjoint field member _ (mem_map_of_mem asked)
  · intro apart
    refine ⟨wellFormed.fields, ?_, ?_⟩
    · intro a first b second same
      obtain ⟨functions, shown⟩ := (column_eq_iff (wellFormed.valid a first)
        (wellFormed.valid b second)).mp same
      exact apart.measured a first b second functions shown
    · intro field member column listed
      obtain ⟨ref, asked, rfl⟩ := mem_map.mp listed
      rw [column_eq]
      exact apart.grouped field member ref asked

end GroupingQuery

/-! ### Result rows -/

namespace Source

variable {rows : List Row} {refs : List MeasureRef} {start record : Row} {query : GroupingQuery}
  {values : List Value}

/-- Aggregates under new columns come one after the other behind a row. -/
private theorem foldlM_set (unique : (start.map Prod.fst ++ refs.map column).Nodup)
    (returned : refs.foldlM (fun (row : Row) ref => do
      return row.set ref.column (← aggregate ref rows)) start = .ok record) :
    ∃ results, List.Forall₂ (fun ref result => aggregate ref rows = .ok result) refs results ∧
      record = start ++ (refs.map column).zip results := by
  induction refs generalizing start with
  | nil =>
    cases returned
    exact ⟨[], .nil, by simp⟩
  | cons ref refs ih =>
    obtain ⟨row, first, returned⟩ := Outcome.bind_eq_ok.mp returned
    obtain ⟨result, aggregated, first⟩ := Outcome.bind_eq_ok.mp first
    cases first
    -- A new column goes to the end of the row, so nothing that was set before is lost.
    have new : ref.column ∉ start.map Prod.fst := by
      intro member
      exact (nodup_append.mp unique).2.2 _ member _ mem_cons_self rfl
    rw [Row.set_of_not_mem new] at returned
    obtain ⟨results, related, rfl⟩ := ih (by simpa using unique) returned
    exact ⟨result :: results, .cons aggregated related, by simp⟩

/-- Where the columns are distinct, the row of a group reads back as the values of the group and as
its aggregates. -/
theorem groupRow_reads (unique : query.columns.Nodup)
    (lengths : query.fields.length = values.length)
    (returned : groupRow query values rows = .ok record) :
    record.project query.fields = values ∧
      ∀ ref ∈ query.aggregates, aggregate ref rows = .ok (record.get ref.column) := by
  have keys : (query.fields.zip values).map Prod.fst = query.fields :=
    map_fst_zip (Nat.le_of_eq lengths)
  obtain ⟨results, related, rfl⟩ := foldlM_set (by rw [keys]; exact unique) returned
  -- The row is all columns paired with grouped values and aggregates, and reads back as these.
  have paired : query.fields.zip values ++ (query.aggregates.map column).zip results =
      query.columns.zip (values ++ results) := (zip_append lengths).symm
  have whole := Row.project_zip unique (by
    rw [GroupingQuery.columns, length_append, length_append, lengths, length_map,
      related.length_eq] : query.columns.length = (values ++ results).length)
  rw [← paired, GroupingQuery.columns, Row.project, map_append] at whole
  obtain ⟨grouped, aggregated⟩ := append_inj whole (by rw [length_map, lengths])
  refine ⟨grouped, ?_⟩
  rw [map_map] at aggregated
  rw [← aggregated, forall₂_map_right_iff, forall₂_same] at related
  exact related

/-- What setting any of the columns keeps is kept by setting all of them. -/
theorem foldlM_set_keeps {P : Row → Prop}
    (kept : ∀ ref ∈ refs, ∀ row value, P row → P (row.set ref.column value))
    (returned : refs.foldlM (fun (row : Row) ref => do
      return row.set ref.column (← aggregate ref rows)) start = .ok record) (holds : P start) :
    P record := by
  induction refs generalizing start with
  | nil =>
    cases returned
    exact holds
  | cons ref refs ih =>
    obtain ⟨row, first, returned⟩ := Outcome.bind_eq_ok.mp returned
    obtain ⟨result, _, first⟩ := Outcome.bind_eq_ok.mp first
    cases first
    rw [forall_mem_cons] at kept
    exact ih kept.2 returned (kept.1 start result holds)

/-- The row of a group has all columns exactly where they are distinct. -/
theorem map_fst_groupRow_iff (fields : query.fields.Nodup)
    (lengths : query.fields.length = values.length)
    (returned : groupRow query values rows = .ok record) :
    record.map Prod.fst = query.columns ↔ query.columns.Nodup := by
  have keys : (query.fields.zip values).map Prod.fst = query.fields :=
    map_fst_zip (Nat.le_of_eq lengths)
  constructor
  -- Setting a column never doubles one, so a row that has all columns has them once.
  · intro all
    rw [← all]
    exact foldlM_set_keeps (P := fun row => (row.map Prod.fst).Nodup)
      (fun _ _ _ _ unique => Row.nodup_keys_set unique _ _) returned (by rw [keys]; exact fields)
  · intro unique
    obtain ⟨results, related, rfl⟩ := foldlM_set (by rw [keys]; exact unique) returned
    rw [map_append, keys, map_fst_zip, GroupingQuery.columns]
    rw [length_map, related.length_eq]

end Source

/-! ### Queries of plans -/

private theorem Answers.wellFormed {requests : List QueryRequest} {queries : List GroupingQuery}
    (answers : Answers requests queries)
    (valid : ∀ request ∈ requests, ∀ ref ∈ request.aggregates, Aggregate.isValid ref.aggregate) :
    ∀ query ∈ queries, query.WellFormed := by
  intro query member
  obtain ⟨request, _, _, fields, _⟩ := answers.exists_request member
  refine ⟨?_, answers.unique query member, ?_⟩
  · rw [fields]
    exact nodup_sortedTexts _
  · intro ref asked
    obtain ⟨request, there, _, asked⟩ := (answers.aggregates query member ref).mp asked
    exact valid request there ref asked

private theorem QueryPlan.wellFormed_queries {schema : Schema} {table : Table}
    (wellFormed : table.WellFormed schema) {discovery : DiscoveryPlan}
    (discovered : table.discover = .ok discovery) {found : Results} {resolved : ResolvedTable}
    (fixed : table.resolve discovery found = .ok resolved) {plan : QueryPlan}
    (planned : resolved.plan = .ok plan) :
    ∀ query ∈ plan.discoveryQueries ++ plan.mainQueries, query.WellFormed := by
  obtain ⟨_, ranking, _⟩ := Table.discover_eq_ok discovered
  obtain ⟨own, asked, _⟩ := Table.resolve_eq_ok fixed
  obtain ⟨_, _, earlier, crossing, _⟩ := ResolvedTable.plan_eq_ok planned
  have valid {ref : MeasureRef} (known : ref ∈ table.measures.map Measure.base) :
      Aggregate.isValid ref.aggregate := by
    obtain ⟨measure, member, rfl⟩ := mem_map.mp known
    exact wellFormed.aggregates measure member
  intro query member
  rw [mem_append, earlier, asked] at member
  -- Discovery asks for what orderings refer to, the plan for what cells show.
  rcases member with ranked | filled
  · refine ranking.wellFormed ?_ query ranked
    intro request there ref within
    obtain ⟨⟨side, visit⟩, pending, rfl⟩ := mem_map.mp there
    rw [Table.rankingRequest, Option.mem_toList] at within
    obtain ⟨clause, built⟩ := wellFormed.axis side
    have inside := Axis.node_mem_walk_of_pending (Table.mem_pendingVisits.mp pending)
    exact valid (Axis.orderBy_mem_of_ofClause built inside within)
  · refine crossing.wellFormed ?_ query filled
    intro request there ref within
    obtain ⟨rowBranch, _, colBranch, _, there⟩ := ResolvedTable.mem_requests.mp there
    exact valid (own ▸ ResolvedTable.aggregates_of_mem_crossingRequests there within)

/-- In every query of discovery and of the plan the columns are distinct exactly where the names of
the fields keep apart. Only then does a result row have all columns, and then it tells every grouped
value and every aggregate. -/
theorem QueryPlan.columns_distinct_iff_names_apart {schema : Schema} {includeNulls : Value}
    {statement : Statement} {table : Table} {discovery : DiscoveryPlan} {found : Results}
    {resolved : ResolvedTable} {plan : QueryPlan}
    (compiled : Table.compile schema includeNulls statement = .ok table)
    (discovered : table.discover = .ok discovery)
    (fixed : table.resolve discovery found = .ok resolved) (planned : resolved.plan = .ok plan)
    {query : GroupingQuery} (member : query ∈ plan.discoveryQueries ++ plan.mainQueries) :
    (query.columns.Nodup ↔ query.NamesApart) ∧
      ∀ values rows record, values.length = query.fields.length →
        Source.groupRow query values rows = .ok record →
          (record.map Prod.fst = query.columns ↔ query.NamesApart) ∧
            (query.NamesApart → record.project query.fields = values ∧
              ∀ ref ∈ query.aggregates,
                Source.aggregate ref rows = .ok (record.get ref.column)) := by
  have wellFormed := QueryPlan.wellFormed_queries (Table.wellFormed_of_compile compiled) discovered
    fixed planned query member
  have distinct := GroupingQuery.nodup_columns_iff wellFormed
  refine ⟨distinct, ?_⟩
  intro values rows record lengths returned
  refine ⟨?_, ?_⟩
  · rw [← distinct]
    exact Source.map_fst_groupRow_iff wellFormed.fields lengths.symm returned
  · intro apart
    exact Source.groupRow_reads (distinct.mpr apart) lengths.symm returned

/-- Jobs ranked by a sum that a mean is shown of: all columns of both queries differ. -/
theorem QueryPlan.columns_distinct_for_ranked_jobs :
    let schema := Schema.ofNames ["job"] ["pay.net"]
    let job : Dimension := { name := "job", orderBy := some ⟨"pay.net", "sum"⟩ }
    let statement : Statement :=
      { rows := [[.dimension job, .measure "pay.net" ["sum", "mean"]]] }
    let found : Results := [("job#job is-not-null", [[("job", "cook"), ("sum_pay_net", 3)]])]
    ∃ table discovery resolved plan,
      Table.compile schema .null statement = .ok table ∧
      table.discover = .ok discovery ∧ table.resolve discovery found = .ok resolved ∧
      resolved.plan = .ok plan ∧
      (plan.discoveryQueries ++ plan.mainQueries).map GroupingQuery.columns =
        [["job", "sum_pay_net"], ["job", "sum_pay_net", "mean_pay_net"]] ∧
      ∀ query ∈ plan.discoveryQueries ++ plan.mainQueries, query.NamesApart := by
  intro schema job statement found
  obtain ⟨table, compiled, discovery, discovered, resolved, fixed, plan, planned, columns, unique⟩ :
      ∃ table, Table.compile schema .null statement = .ok table ∧
        ∃ discovery, table.discover = .ok discovery ∧
        ∃ resolved, table.resolve discovery found = .ok resolved ∧
        ∃ plan, resolved.plan = .ok plan ∧
          (plan.discoveryQueries ++ plan.mainQueries).map GroupingQuery.columns =
            [["job", "sum_pay_net"], ["job", "sum_pay_net", "mean_pay_net"]] ∧
          ∀ query ∈ plan.discoveryQueries ++ plan.mainQueries, query.columns.Nodup := by
    decide +kernel
  refine ⟨table, discovery, resolved, plan, compiled, discovered, fixed, planned, columns, ?_⟩
  intro query member
  have distinct := QueryPlan.columns_distinct_iff_names_apart compiled discovered fixed planned member
  exact distinct.1.mp (unique query member)

/-- A dimension named like the count of rows loses its members to the counts; sums of two fields that
differ in a dot share a column. -/
theorem QueryPlan.columns_clash :
    let planned (schema : Schema) (rows : AxisClause Binding) : Outcome QueryPlan := do
      let table ← Table.compile schema .null { rows }
      let discovery ← table.discover
      let resolved ← table.resolve discovery []
      resolved.plan
    let source := Row.table ["count"] [["a"], ["b"], ["b"]]
    let answers (plan : QueryPlan) : Outcome (List (List (List (String × String)))) :=
      plan.mainQueries.mapM fun query => do
        return (← Source.answer source query).map fun record =>
          record.map fun entry => (entry.1, entry.2.plain)
    let grouped := planned (.ofNames ["count"] []) [[.column "count"]]
    let measured := planned (.ofNames [] ["a.b", "a_b"])
      [[.measure "a.b" ["sum"]], [.measure "a_b" ["sum"]]]
    grouped.toOption.map (·.mainQueries.map GroupingQuery.columns) = some [["count", "count"]] ∧
      (grouped.bind answers).toOption = some [[[("count", "1")], [("count", "2")]]] ∧
      measured.toOption.map (·.mainQueries.map GroupingQuery.columns) =
        some [["sum_a_b", "sum_a_b"]] := by
  decide +kernel

end Crosstab
