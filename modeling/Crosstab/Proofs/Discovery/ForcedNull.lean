import Crosstab.Proofs.Filter.Conjunction
import Crosstab.Proofs.Source.Grouping

/-!
# Orderings by an aggregate of nothing

A table that ranks members by a field that its filter forces to be null is refused. Nothing is
refused that could have been ranked.
-/
namespace Crosstab

open List

/-! ### Aggregates without values -/

namespace Source

variable {rows : List Row} {ref : MeasureRef}

private theorem aggregate_eq_null {field : String} (taken : ref.field = some field)
    (other : ref.aggregate ≠ "count") (absent : ∀ row ∈ rows, (row.get field).isNull) :
    aggregate ref rows = .ok .null := by
  have nothing : presentValues field rows = [] := by
    unfold presentValues
    simpa using absent
  unfold aggregate
  rw [taken]
  simp only [nothing, if_neg other]

/-- A column that one aggregate has for itself reads as this aggregate, and one that none has stays. -/
theorem get_of_foldlM_set {refs : List MeasureRef} {start record : Row}
    (only : ∀ other ∈ refs, other.column = ref.column → other = ref)
    (returned : refs.foldlM (fun (row : Row) ref => do
      return row.set ref.column (← aggregate ref rows)) start = .ok record) :
    (ref ∈ refs → aggregate ref rows = .ok (record.get ref.column)) ∧
      (ref ∉ refs → record.get ref.column = start.get ref.column) := by
  induction refs generalizing start with
  | nil =>
    cases returned
    simp
  | cons first rest ih =>
    obtain ⟨_, stored, returned⟩ := Outcome.bind_eq_ok.mp returned
    obtain ⟨value, aggregated, stored⟩ := Outcome.bind_eq_ok.mp stored
    cases stored
    rw [forall_mem_cons] at only
    obtain ⟨listed, unlisted⟩ := ih only.2 returned
    by_cases own : first = ref
    · subst own
      refine ⟨fun _ => ?_, fun absent => absurd mem_cons_self absent⟩
      -- The same aggregate may come again; the last time counts.
      by_cases again : first ∈ rest
      · exact listed again
      · rw [unlisted again, Row.get_set, if_pos rfl]
        exact aggregated
    · have apart : ref.column ≠ first.column := fun same => own (only.1 same.symm)
      rw [Row.get_set, if_neg apart] at unlisted
      simp only [mem_cons, Ne.symm own, false_or]
      exact ⟨listed, unlisted⟩

end Source

/-! ### Fields that are forced to be null -/

namespace Table

variable {table : Table} {name column measure : String}

variable {field : String} {narrow : List Filter} {ref : MeasureRef}

private theorem mem_nullFields : field ∈ table.nullFields ↔
    ∃ literal, .test field .isNull literal ∈ Filter.allConjuncts table.filter := by
  unfold nullFields
  rw [mem_filterMap]
  constructor
  · rintro ⟨conjunct, listed, found⟩
    split at found
    · cases found
      exact ⟨_, listed⟩
    · cases found
  · rintro ⟨literal, listed⟩
    exact ⟨_, listed, rfl⟩

private theorem isNull_of_passes (forced : field ∈ table.nullFields) {row : Row}
    (passed : Filter.passes (table.queryFilter narrow) row = .ok true) :
    (row.get field).isNull := by
  obtain ⟨literal, listed⟩ := mem_nullFields.mp forced
  have own := Filter.passes_iff_conjuncts.mp (Filter.passes_conjoin_iff.mp passed).1 _ listed
  exact Except.ok.inj own

private theorem exists_ref_of_forcedNull? {node : Node}
    (found : table.forcedNull? node = some (.forcedNull name column measure)) :
    ∃ ref, node.order.orderBy = some ref ∧ ref.field = some measure ∧ ref.aggregate ≠ "count" ∧
      measure ∈ table.nullFields ∧ node.field?.getD "" = name ∧ ref.column = column := by
  unfold forcedNull? at found
  split at found
  next ref ranked =>
    split at found
    next field taken =>
      split at found
      next forced =>
        cases found
        simp only [Bool.and_eq_true, contains_iff_mem, bne_iff_ne] at forced
        exact ⟨ref, ranked, taken, forced.2, forced.1, rfl, rfl⟩
      · cases found
    · cases found
  · cases found

private theorem exists_visit_of_discover
    (refused : table.discover = .error (.plan (.forcedNull name column measure))) :
    ∃ side visit, (side, visit) ∈ table.pendingVisits ∧
      table.forcedNull? visit.node = some (.forcedNull name column measure) := by
  unfold discover validate at refused
  cases faulty : table.defect? with
  | none =>
    rw [faulty] at refused
    cases refused
  | some cause =>
    rw [faulty] at refused
    cases refused
    unfold defect? at faulty
    simp only [Option.orElse_eq_orElse, Option.orElse_eq_or, Option.or_eq_some_iff] at faulty
    -- Repeated and shared fields are other reports.
    rcases faulty with repeats | ⟨_, shared | ⟨_, ranked⟩⟩
    · obtain ⟨side, _, found⟩ := exists_of_findSome?_eq_some repeats
      obtain ⟨_, _, report⟩ := Option.map_eq_some_iff.mp found
      cases report
    · split at shared <;> cases shared
    · obtain ⟨⟨side, visit⟩, pending, found⟩ := exists_of_findSome?_eq_some ranked
      exact ⟨side, visit, pending, found⟩

/-- Whatever a query asks for under the filter of the table, aggregates of a field that is forced to be
null are null. -/
theorem get_eq_null_of_answer (taken : ref.field = some field) (other : ref.aggregate ≠ "count")
    (forced : field ∈ table.nullFields) {query : GroupingQuery}
    (filter : query.filter = table.queryFilter narrow) (asked : ref ∈ query.aggregates)
    (only : ∀ other ∈ query.aggregates, other.column = ref.column → other = ref)
    {source records : List Row} (answered : Source.answer source query = .ok records) :
    ∀ record ∈ records, record.get ref.column = .null := by
  obtain ⟨matched, made, passed, grouped, related⟩ := Source.answer_eq_ok answered
  intro record member
  obtain ⟨group, inside, returned⟩ := exists_left_of_forall₂ related member
  have absent : ∀ row ∈ group.2, (row.get field).isNull := by
    intro row counted
    rw [(Source.groupsBy_of_groups grouped).contents group inside] at counted
    have selected := (mem_filter.mp counted).1
    rw [(Outcome.filterM_eq_ok passed).2, filter] at selected
    exact isNull_of_passes forced (Outcome.isTrue_iff.mp (mem_filter.mp selected).2)
  have reads := (Source.get_of_foldlM_set only returned).1 asked
  exact Except.ok.inj (reads.symm.trans (Source.aggregate_eq_null taken other absent))

theorem mergeRequests_rankingRequest {visit : Visit Node}
    (ranked : visit.node.order.orderBy = some ref) :
    mergeRequests .discovery [table.rankingRequest visit] =
      [⟨sortedTexts (visit.scope ++ visit.node.field?.toList), [ref], table.queryFilter [],
        .discovery⟩] := by
  simp [mergeRequests, addRequest, rankingRequest, ranked, addRefs]

end Table

/-- A filter is true on a row where all its conjuncts are, and a narrowed one where the filter and the
conditions are, in two truth values and in three. In three a conjunction of nothing is not true of a
row, but there is no condition of one, and a condition is true where those of the conjuncts are. So if
discovery refuses a table because its filter forces a measure to be null, the ranking aggregate is null
in every row of every answer to the query for the node, and of every other query under the filter of
the table. -/
theorem Table.refused_ranking_is_null :
    (∀ (filter : Option Filter) (row : Row), Filter.passes filter row = .ok true ↔
      ∀ conjunct ∈ Filter.allConjuncts filter, conjunct.holds row = .ok true) ∧
    (∀ (filter : Filter) (row : Row), filter.truth row = some true ↔
      filter.isJoined = true ∧ ∀ conjunct ∈ filter.conjuncts, conjunct.truth row = some true) ∧
    (∀ columns filter built, Condition.build columns filter = .ok built → filter.isJoined = true ∧
      ∀ row, built.truth row = some true ↔
        ∀ conjunct ∈ filter.conjuncts, conjunct.IsMet columns row) ∧
    (∀ (base : Option Filter) (extra : List Filter) (row : Row),
      (Filter.passes (Filter.conjoin base extra) row = .ok true ↔
        Filter.passes base row = .ok true ∧ ∀ filter ∈ extra, filter.holds row = .ok true) ∧
      ((∀ filter ∈ Filter.conjoin base extra, filter.truth row = some true) ↔
        (∀ filter ∈ base, filter.truth row = some true) ∧
          ∀ filter ∈ extra, filter.truth row = some true)) ∧
    ∀ (table : Table) (name column measure : String),
      table.discover = .error (.plan (.forcedNull name column measure)) →
      ∃ side visit ref, (side, visit) ∈ table.pendingVisits ∧ visit.node.field?.getD "" = name ∧
        visit.node.order.orderBy = some ref ∧ ref.field = some measure ∧ ref.column = column ∧
        (∀ query ∈ mergeRequests .discovery [table.rankingRequest visit], ∀ source records,
          Source.answer source query = .ok records →
            ∀ record ∈ records, record.get column = .null) ∧
        ∀ (query : GroupingQuery) (narrow : List Filter),
          query.filter = table.queryFilter narrow → ref ∈ query.aggregates →
          (∀ other ∈ query.aggregates, other.column = column → other = ref) →
          ∀ source records, Source.answer source query = .ok records →
            ∀ record ∈ records, record.get column = .null := by
  refine ⟨fun _ _ => Filter.passes_iff_conjuncts, fun _ _ => Filter.truth_iff_conjuncts,
    fun _ _ _ returned =>
      ⟨Filter.isJoined_of_build returned, fun _ => Filter.truth_built_iff returned⟩,
    fun _ _ _ => ⟨Filter.passes_conjoin_iff, Filter.truth_conjoin_iff⟩, ?_⟩
  intro table name column measure refused
  obtain ⟨side, visit, pending, found⟩ := exists_visit_of_discover refused
  obtain ⟨ref, ranked, taken, other, forced, named, rfl⟩ := exists_ref_of_forcedNull? found
  have null (query : GroupingQuery) (narrow : List Filter)
      (filter : query.filter = table.queryFilter narrow) (asked : ref ∈ query.aggregates)
      (only : ∀ other ∈ query.aggregates, other.column = ref.column → other = ref)
      (source records : List Row) (answered : Source.answer source query = .ok records) :=
    get_eq_null_of_answer taken other forced filter asked only answered
  refine ⟨side, visit, ref, pending, named, ranked, taken, rfl, ?_, null⟩
  rw [mergeRequests_rankingRequest ranked, List.forall_mem_singleton]
  exact null _ [] rfl (by simp) (by simp)

/-- Towns by their sum of pay, under a filter that forces the pay to be null inside nested conjunctions,
beside a disjunction that forces nothing. One of two rows passes. -/
theorem Table.towns_refused_with_pay_null :
    let towns : Node := ⟨0, .dimension "town" ⟨some ⟨some "pay", "sum"⟩, none, some 2⟩, .null, []⟩
    let unpaid : Filter := .combine .and [.test "pay" .isNull .null,
      .combine .not [.test "town" .isNull .null]]
    let filter : Filter := .combine .and [.combine .or [.test "job" .isNull .null,
      .test "town" .equal "Rome"], unpaid]
    let table : Table := ⟨⟨.cons towns .nil .nil, ["sum_pay"]⟩, ⟨.nil, []⟩,
      [⟨"sum_pay", some "pay", "sum", none, none, .null⟩], some filter, .null⟩
    let source := Row.table ["town", "job", "pay"] [["Rome", "cook", .null], ["Rome", .null, 3]]
    table.discover = .error (.plan (.forcedNull "town" "sum_pay" "pay")) ∧
      ∃ query records,
        mergeRequests .discovery (table.pendingVisits.map fun entry => table.rankingRequest entry.2) =
          [query] ∧
        Source.answer source query = .ok records ∧ records.length = 1 ∧
        ∀ record ∈ records, record.get "sum_pay" = .null := by
  intro towns unpaid filter table source
  have faulty : table.defect? = some (.forcedNull "town" "sum_pay" "pay") := by decide +kernel
  have refused : table.discover = .error (.plan (.forcedNull "town" "sum_pay" "pay")) := by
    rw [discover, validate, faulty]
    rfl
  obtain ⟨side, visit, ref, pending, _, ranked, _, _, null, _⟩ :=
    refused_ranking_is_null.2.2.2.2 table _ _ _ refused
  -- There is one pending node, so its own query is all of discovery.
  have only : table.pendingVisits = [(.rows, ⟨[], towns, .nil⟩)] := rfl
  rw [only, List.mem_singleton] at pending
  cases pending
  rw [only, List.map_singleton]
  rw [mergeRequests_rankingRequest ranked, List.forall_mem_singleton] at null
  obtain ⟨records, answered, one⟩ :
      ∃ records, Source.answer source ⟨["town"], [ref], table.queryFilter [], .discovery⟩ =
        .ok records ∧ records.length = 1 := by
    cases ranked
    decide +kernel
  exact ⟨refused, _, records, mergeRequests_rankingRequest ranked, answered, one, null _ _ answered⟩

end Crosstab
