import Crosstab.Proofs.Failure
import Crosstab.Proofs.Filter.Meaning
import Crosstab.Proofs.Grid.Members
import Crosstab.Proofs.Statement.Spelling
import Crosstab.Store.Table

/-!
# Stored tables understand the queries of a plan

A table with the columns of the schema refuses no query that names only what there is, and a plan
asks no other queries.
-/
namespace Crosstab

open List Outcome Aggregate Condition Crosstab.Measure

/-! ### Proper queries -/

/-- Tests have an operator and name what is known, negations have one operand, and conjunctions and
disjunctions at least one. -/
inductive Filter.Proper (known : String → Prop) : Filter → Prop where
  | test {field : String} {operator : Operator} {literal : Value} (column : known field)
    (named : operator.isComparison = true ∨ operator.isNullTest = true) :
    Proper known (.test field operator literal)
  | member {field : String} {values : List Value} (column : known field) :
    Proper known (.member field values)
  | negation {operand : Filter} (proper : Proper known operand) :
    Proper known (.combine .not [operand])
  | joined {connective : Connective} (joins : connective = .and ∨ connective = .or)
    {operands : List Filter} (some : operands ≠ [])
    (proper : ∀ operand ∈ operands, Proper known operand) : Proper known (.combine connective operands)

/-- There is such an aggregate, and the field, which only a count can do without, is known. -/
structure MeasureRef.Proper (known : String → Prop) (ref : MeasureRef) : Prop where
  valid : isValid ref.aggregate = true
  counted : ref.field = none → ref.aggregate = "count"
  column : ∀ field, ref.field = some field → known field

/-- What a query is made of names what is known. -/
structure ProperParts (known : String → Prop) (filter : Option Filter) (aggregates : List MeasureRef)
    (fields : List String) : Prop where
  filter : ∀ part ∈ filter, part.Proper known
  aggregates : ∀ ref ∈ aggregates, ref.Proper known
  fields : ∀ field ∈ fields, known field

abbrev GroupingQuery.Proper (known : String → Prop) (query : GroupingQuery) : Prop :=
  ProperParts known query.filter query.aggregates query.fields

abbrev QueryRequest.Proper (known : String → Prop) (request : QueryRequest) : Prop :=
  ProperParts known request.filter request.aggregates request.fields

/-! ### No proper query is refused -/

/-- The failures of a query that asks for what there is not: a test, a connective or a statistic by a
name that means nothing, an operand of an empty list, or a column. -/
def Error.isRefusal : Error → Bool
  | invalid _ => true
  | misuse .noOperand => true
  | misuse .noColumn => true
  | _ => false

/-- Whatever else goes wrong, nothing that was asked for is missing. -/
def Outcome.Understood {α : Type} (x : Outcome α) : Prop := x.FailsOnly fun cause => !cause.isRefusal

namespace Condition

variable {columns : Columns} {field : String} {filter : Filter}

theorem columnType_eq_ok {type : ColumnType} (column : columns.lookup field = some type) :
    columnType columns field = .ok type := by
  rw [columnType, column]

private theorem understood_buildFarTest (field : String) (operator : Operator) :
    (buildFarTest field operator).Understood := by
  cases operator with
  | equal => exact .ok _
  | notEqual => exact .ok _
  | _ => exact .error rfl

private theorem understood_buildTest {operator : Operator} (literal : Value)
    (column : ∃ type, columns.lookup field = some type)
    (named : operator.isComparison ∨ operator.isNullTest) :
    (buildTest columns field operator literal).Understood := by
  obtain ⟨type, column⟩ := column
  unfold buildTest
  rw [columnType_eq_ok column, ok_bind]
  cases operator with
  | other name => simp [Operator.isComparison, Operator.isNullTest] at named
  | isNull => exact .ok _
  | isNotNull => exact .ok _
  | _ =>
    -- What is left are literals that are out of range or of another type.
    simp only
    split
    · exact understood_buildFarTest field _
    · split
      · exact .error rfl
      · cases literal <;> exact .ok _

theorem understood_build (proper : filter.Proper fun field => ∃ type, columns.lookup field = some type) :
    (build columns filter).Understood := by
  induction proper with
  | test column named =>
    exact understood_buildTest _ column named
  | @member field values column =>
    obtain ⟨type, column⟩ := column
    rw [build, columnType_eq_ok column]
    split
    · exact .error rfl
    · exact .ok _
  | @negation operand _ ih =>
    have only : ∀ part ∈ [operand], (build columns part).Understood := by simpa using ih
    refine (Outcome.FailsOnly.mapM only).bind fun parts each => ?_
    cases parts with
    | nil => cases mapM_eq_ok.mp each
    | cons first rest => exact .ok _
  | @joined connective joins operands some _ ih =>
    rw [build, Filter.buildAll_eq_mapM]
    refine (Outcome.FailsOnly.mapM ih).bind fun parts each => ?_
    -- Only a conjunction or disjunction of nothing is refused here, and there are operands.
    cases parts with
    | nil =>
      cases mapM_eq_ok.mp each
      exact absurd rfl some
    | cons first rest =>
      rcases joins with rfl | rfl
      · exact .ok _
      · exact .ok _

end Condition

/-- Percentages between zero and a hundred stand for shares between nothing and all. -/
theorem Statistic.share_bounds {percent : Nat} (low : 1 ≤ percent) (high : percent ≤ 99) :
    0 < (share percent).toRat ∧ (share percent).toRat < 1 := by
  have all : ∀ percent ∈ List.range' 1 99, 0 < (share percent).toRat ∧ (share percent).toRat < 1 := by
    decide +kernel
  exact all percent (mem_range'_1.mpr ⟨low, by omega⟩)

namespace StoredTable

variable {table : StoredTable}

def IsColumn (table : StoredTable) (field : String) : Prop :=
  ∃ type, table.columns.lookup field = some type

variable {field : String} {ref : MeasureRef} {query : GroupingQuery}

private theorem IsColumn.of_schema (known : table.schema.hasField field) : table.IsColumn field := by
  obtain ⟨columns, rows⟩ := table
  induction columns with
  | nil => cases known
  | cons column rest ih =>
    obtain ⟨name, type⟩ := column
    by_cases own : field == name
    · exact ⟨type, by rw [lookup_cons, own]⟩
    · have later : (StoredTable.mk rest rows).schema.hasField field = true := by
        simpa [schema, Schema.hasField, Schema.kind?, lookup_cons, own] using known
      obtain ⟨type, found⟩ := ih later
      exact ⟨type, by simpa [lookup_cons, own] using found⟩

theorem IsColumn.columnType (column : table.IsColumn field) :
    ∃ type, table.columnType field = .ok type :=
  column.imp fun _ found => columnType_eq_ok found

def statistic (ref : MeasureRef) : String := Text.lower (Text.strip ref.aggregate)

theorem isValid_statistic (valid : isValid ref.aggregate) : isValid (statistic ref) := by
  have stripped := isValid_strip valid
  rw [statistic, lower_of_isValid stripped]
  exact stripped

theorem understood_prepareColumn (proper : ref.Proper table.IsColumn) :
    (table.prepareColumn ref).Understood := by
  have valid := isValid_statistic proper.valid
  unfold prepareColumn
  change (if !Aggregate.isValid (statistic ref) then _ else _ : Outcome Column).Understood
  rw [if_neg (by simp [valid])]
  cases taken : ref.field with
  | none =>
    have count : statistic ref = "count" := by
      rw [statistic, proper.counted taken]
      decide +kernel
    change (if statistic ref != "count" then _ else _ : Outcome Column).Understood
    rw [if_neg (by simp [count])]
    exact .ok _
  | some field =>
    obtain ⟨type, found⟩ := (proper.column field taken).columnType
    simp only [found, ok_bind]
    -- A column that cannot be summed is a failure of its type: the statistic and the column exist.
    split
    · exact .error rfl
    · exact .ok _

/-- The queries that a table understands, part by part: the condition, which has no part that could be
refused behind one that fails, the aggregates, each of which is a base statistic or a quantile strictly
between nothing and all, and the fields. -/
structure Understands (table : StoredTable) (query : GroupingQuery) : Prop where
  filter : ∀ filter ∈ query.filter, filter.Proper table.IsColumn
  condition : ∀ filter ∈ query.filter, (build table.columns filter).Understood
  columns : ∀ ref ∈ query.aggregates, (table.prepareColumn ref).Understood
  statistics : ∀ ref ∈ query.aggregates, statistic ref ∈ baseNames ∨
    ∃ percent, percentile? (statistic ref) = some percent ∧
      0 < (Statistic.share percent).toRat ∧ (Statistic.share percent).toRat < 1
  fields : ∀ field ∈ query.fields, ∃ type, table.columnType field = .ok type
  prepared : (table.prepare query).Understood

private theorem statistic_cases (valid : isValid ref.aggregate) :
    statistic ref ∈ baseNames ∨
      ∃ percent, percentile? (statistic ref) = some percent ∧
        0 < (Statistic.share percent).toRat ∧ (Statistic.share percent).toRat < 1 := by
  rcases isValid_iff.mp (isValid_statistic valid) with base | ⟨percent, low, high, percentile⟩
  · exact .inl base
  · exact .inr ⟨percent, percentile?_eq_some.mpr percentile, Statistic.share_bounds low high⟩

private theorem understood_prepare (proper : query.Proper table.IsColumn) :
    (table.prepare query).Understood := by
  have condition : (query.filter.mapM (build table.columns)).Understood := by
    cases given : query.filter with
    | none => exact .ok none
    | some filter =>
      exact Outcome.FailsOnly.bind_pure (understood_build (proper.filter filter given))
  have columns : (query.sortedAggregates.mapM table.prepareColumn).Understood := by
    refine Outcome.FailsOnly.mapM fun ref listed => understood_prepareColumn ?_
    exact proper.aggregates ref ((Sorting.mem_arrange _).mp listed)
  have fields : (query.fields.forM fun field => discard (table.columnType field)).Understood := by
    refine Outcome.FailsOnly.forM fun field grouped => ?_
    obtain ⟨type, found⟩ := (proper.fields field grouped).columnType
    rw [found]
    exact .ok _
  refine condition.bind fun _ _ => columns.bind fun _ _ => fields.bind fun _ _ => ?_
  -- Clashes of columns are found last, and are no refusals.
  simp only
  split
  · exact .error rfl
  · split
    · exact .error rfl
    · split
      · exact .error rfl
      · exact .ok _

private theorem understands_of_proper (proper : query.Proper table.IsColumn) :
    table.Understands query where
  filter := proper.filter
  condition filter given := understood_build (proper.filter filter given)
  columns ref asked := understood_prepareColumn (proper.aggregates ref asked)
  statistics ref asked := statistic_cases (proper.aggregates ref asked).valid
  fields field grouped := (proper.fields field grouped).columnType
  prepared := understood_prepare proper

end StoredTable

/-! ### Compiled filters and measures are proper -/

namespace Filter

variable {known : String → Prop}

private theorem Proper.mono {known' : String → Prop} (wider : ∀ field, known field → known' field)
    {filter : Filter} (proper : filter.Proper known) : filter.Proper known' := by
  induction proper with
  | test column named => exact .test (wider _ column) named
  | member column => exact .member (wider _ column)
  | negation _ ih => exact .negation ih
  | joined joins some _ ih => exact .joined joins some ih

private theorem Proper.conjoin {base : Option Filter} {extra : List Filter}
    (own : ∀ filter ∈ base, filter.Proper known) (others : ∀ filter ∈ extra, filter.Proper known) :
    ∀ filter ∈ Filter.conjoin base extra, filter.Proper known := by
  have parts : ∀ filter ∈ base.toList ++ extra, filter.Proper known := by
    rw [forall_mem_append]
    exact ⟨by simpa using own, others⟩
  unfold Filter.conjoin
  split
  · simp
  next single only => simpa [only] using parts
  next inhabited _ =>
    rintro _ ⟨⟩
    exact .joined (.inl rfl) inhabited parts

end Filter

private theorem FilterTerm.builds_proper (schema : Schema) :
    Builds schema fun _ filter => filter.Proper fun field => schema.hasField field = true where
  comparison field symbol literal operator known compares := by
    rw [comparisonOf_strip] at compares
    split at compares
    next comparison =>
      cases compares
      exact .test known (.inl comparison)
    · cases compares
  nullCheck field negated known := .test known (.inr (by cases negated <;> rfl))
  negation _ _ own := .negation own
  chain _ _ _ _ _ own joined :=
    forall_joinRuns
      (fun _ _ joins several each => .joined joins (ne_nil_of_length_pos (by omega)) each)
      own joined.forall_right

private theorem Binding.checkAggregate_eq_ok {schema : Schema} {measure : Value} {method : String}
    {field : Option String} (checked : checkAggregate schema measure method = .ok field) :
    MeasureRef.Proper (fun field => schema.hasField field = true) ⟨field, method⟩ := by
  unfold checkAggregate at checked
  split at checked
  · cases checked
  next valid =>
    have valid : isValid method := by simpa using valid
    split at checked
    · split at checked <;> cases checked
      next count => exact ⟨valid, fun _ => by simpa using count, by simp⟩
    · obtain ⟨found, looked, checked⟩ := bind_eq_ok.mp checked
      cases found with
      | none => cases checked
      | some name =>
        simp only at checked
        split at checked <;> cases checked
        refine ⟨valid, by simp, ?_⟩
        rintro _ ⟨⟩
        exact Schema.hasField_of_field? looked

namespace Table

variable {schema : Schema} {includeNulls : Value} {statement : Statement} {table : Table}

/-- The filter, the measures, the orderings and the dimensions of a table name what is known. -/
structure Proper (known : String → Prop) (table : Table) : Prop where
  filter : ∀ filter ∈ table.filter, filter.Proper known
  measures : ∀ ref ∈ table.measures.map base, ref.Proper known
  orderings : ∀ side, ∀ node ∈ (table.axis side).forest.walk, ∀ ref, node.order.orderBy = some ref →
    ref.Proper known
  fields : ∀ side, ∀ node ∈ (table.axis side).forest.walk, ∀ field, node.field? = some field →
    known field

section

variable (compiled : Table.compile schema includeNulls statement = .ok table)
include compiled

private theorem proper_measures_of_compile :
    ∀ ref ∈ table.measures.map base, ref.Proper fun field => schema.hasField field = true := by
  obtain ⟨_, _, made⟩ := compile_eq_ok_iff.mp compiled
  rw [forall_mem_map, made.measures, orRowCount]
  split
  · rw [forall_mem_singleton]
    exact ⟨by decide, fun _ => rfl, by simp [base, rowCount]⟩
  · refine forall_of_bindAll (fun _ _ _ identity name checked => ?_) made.bound
    obtain ⟨method, _, checked⟩ := bind_eq_ok.mp checked
    obtain ⟨field, aggregate, checked⟩ := bind_eq_ok.mp checked
    obtain ⟨_, _, checked⟩ := bind_eq_ok.mp checked
    obtain ⟨_, _, checked⟩ := bind_eq_ok.mp checked
    cases checked
    exact Binding.checkAggregate_eq_ok aggregate

private theorem proper_filter_of_compile :
    ∀ filter ∈ table.filter, filter.Proper fun field => schema.hasField field = true := by
  obtain ⟨_, _, made⟩ := compile_eq_ok_iff.mp compiled
  have filtered := made.filter
  intro filter given
  rw [Option.mem_def.mp given] at filtered
  cases written : statement.filter with
  | none =>
    rw [written] at filtered
    cases filtered
  | some term =>
    rw [written] at filtered
    obtain ⟨_, own, filtered⟩ := bind_eq_ok.mp filtered
    cases filtered
    exact (FilterTerm.builds_proper schema).compile own

private theorem proper_of_compile : table.Proper fun field => schema.hasField field = true where
  filter := proper_filter_of_compile compiled
  measures := proper_measures_of_compile compiled
  orderings side node member ref ordered := by
    obtain ⟨clause, built⟩ := (wellFormed_of_compile compiled).axis side
    exact proper_measures_of_compile compiled ref (Axis.orderBy_mem_of_ofClause built member ordered)
  fields side node member field named := by
    obtain ⟨clause, built⟩ := (wellFormed_of_compile compiled).axis side
    unfold Node.field? at named
    rcases Axis.place_of_ofClause built member with total | ⟨_, _, _, _, place, known⟩
    · rw [total] at named
      cases named
    · rw [place] at named
      cases named
      exact known

end

/-! ### Queries are put together from what is proper -/

variable {known : String → Prop}

section

variable (proper : table.Proper known)
include proper

theorem Proper.fieldsOf_known (side : Side) {nodes : List Node}
    (inside : ∀ node ∈ nodes, node ∈ (table.axis side).forest.walk) :
    ∀ field ∈ fieldsOf nodes, known field := by
  intro field listed
  obtain ⟨node, member, named⟩ := mem_filterMap.mp listed
  exact proper.fields side node (inside node member) field named

private theorem Proper.dimensionFields_known : ∀ field ∈ table.dimensionFields, known field := by
  have ofSide (side : Side) : ∀ field ∈ (table.axis side).fields, known field := by
    intro field listed
    exact proper.fieldsOf_known side (fun _ member => member) field (mem_eraseDups.mp listed)
  unfold dimensionFields
  rw [forall_mem_append]
  exact ⟨ofSide .rows, fun field listed => ofSide .cols field (mem_filter.mp listed).1⟩

/-- The filter of every query is proper: that of the statement, the guards, and what narrows it. -/
theorem Proper.queryFilter {narrow : List Filter}
    (others : ∀ filter ∈ narrow, filter.Proper known) :
    ∀ filter ∈ table.queryFilter narrow, filter.Proper known := by
  refine Filter.Proper.conjoin proper.filter (forall_mem_append.mpr ⟨?_, others⟩)
  unfold guards
  split
  · simp
  · rw [forall_mem_map]
    exact fun field listed => .test (proper.dimensionFields_known field listed) (.inr rfl)

private theorem Proper.rankingRequest {side : Side} {visit : Visit Node}
    (pending : (side, visit) ∈ table.pendingVisits) : (table.rankingRequest visit).Proper known := by
  have visited := (mem_filter.mp (mem_pendingVisits.mp pending)).1
  obtain ⟨branch, inside, leading⟩ := Forest.exists_branch_of_mem_visits visited
  have walked : ∀ node ∈ visit.above ++ [visit.node], node ∈ (table.axis side).forest.walk :=
    fun node listed => Forest.mem_walk_of_mem_branches inside (leading.subset listed)
  refine ⟨proper.queryFilter (by simp), ?_, ?_⟩
  · intro ref ordered
    exact proper.orderings side visit.node (walked _ (by simp)) ref (Option.mem_toList.mp ordered)
  · have own : fieldsOf (visit.above ++ [visit.node]) =
        visit.scope ++ visit.node.field?.toList := by
      cases named : visit.node.field? <;> simp [fieldsOf, named]
    show ∀ field ∈ visit.scope ++ visit.node.field?.toList, known field
    rw [← own]
    exact proper.fieldsOf_known side walked

end

end Table

namespace ResolvedTable

variable {resolved : ResolvedTable} {known : String → Prop}

variable {request : QueryRequest}

private theorem fields_of_mem_crossingRequests {rowBranch colBranch : List Node}
    (member : request ∈ resolved.crossingRequests rowBranch colBranch) :
    ∀ field ∈ request.fields, field ∈ fieldsOf rowBranch ∨ field ∈ fieldsOf colBranch := by
  rcases mem_cons.mp member with rfl | asked
  · exact fun field listed => mem_append.mp listed
  · obtain ⟨measure, _, denominator⟩ := mem_filterMap.mp asked
    obtain ⟨side, _, rfl⟩ := Option.map_eq_some_iff.mp denominator
    cases side with
    | rows => exact fun _ => .inr
    | cols => exact fun _ => .inl

private theorem selection_known {table : Table} (proper : table.Proper known) {discovery : DiscoveryPlan}
    {results : Results} (fixed : table.resolve discovery results = .ok resolved) (side : Side) :
    ∀ selection ∈ resolved.selections side, known selection.field := by
  intro selection member
  have made := (Table.resolve_eq_ok fixed).2.2 side
  obtain ⟨visit, pending, own⟩ := exists_of_mem_results made member
  -- A total is not ranked, so the node stands for a field.
  obtain ⟨field, named⟩ := Table.field?_isSome_of_isPending (mem_filter.mp pending).2
  rw [(Table.resolveNode_eq_ok own).2, named]
  exact proper.fields side visit.node (Axis.node_mem_walk_of_pending pending) field named

private theorem proper_of_mem_requests (proper : resolved.table.Proper known)
    (selected : ∀ side, ∀ selection ∈ resolved.selections side, known selection.field)
    (member : request ∈ resolved.requests) : request.Proper known := by
  -- Beside the filter of the statement and the guards, only lists of fixed members narrow a query.
  have narrowing (side : Side) (branch : List Node) :
      ∀ filter ∈ resolved.memberFilters side branch, filter.Proper known := by
    intro filter listed
    obtain ⟨node, _, kept⟩ := mem_filterMap.mp listed
    obtain ⟨selection, found, rfl⟩ := Option.map_eq_some_iff.mp kept
    exact .member (selected side selection (mem_of_find?_eq_some found))
  obtain ⟨narrow, filter, narrowed⟩ := narrow_of_mem_requests member
  obtain ⟨rowBranch, inRows, colBranch, inCols, asked⟩ := mem_requests.mp member
  refine ⟨?_, fun ref own => ?_, fun field grouped => ?_⟩
  · rw [filter]
    refine proper.queryFilter fun condition listed => ?_
    obtain ⟨side, branch, _, own⟩ := narrowed condition listed
    exact narrowing side branch condition own
  · exact proper.measures ref (aggregates_of_mem_crossingRequests asked own)
  · rcases fields_of_mem_crossingRequests asked field grouped with inside | inside
    · exact proper.fieldsOf_known .rows
        (fun _ along => Axis.mem_walk_of_mem_branch inRows along) field inside
    · exact proper.fieldsOf_known .cols
        (fun _ along => Axis.mem_walk_of_mem_branch inCols along) field inside

end ResolvedTable

variable {known : String → Prop}

private theorem Answers.proper {requests : List QueryRequest} {queries : List GroupingQuery}
    (answers : Answers requests queries) (asked : ∀ request ∈ requests, request.Proper known) :
    ∀ query ∈ queries, query.Proper known := by
  intro query member
  obtain ⟨request, listed, _, fields, filter⟩ := answers.exists_request member
  refine ⟨?_, ?_, ?_⟩
  · rw [filter]
    exact (asked request listed).filter
  -- Requests that share a query bring their own aggregates, so another request may have asked for this.
  · intro ref aggregated
    obtain ⟨request, listed, _, own⟩ := (answers.aggregates query member ref).mp aggregated
    exact (asked request listed).aggregates ref own
  · intro field grouped
    rw [fields, mem_sortedTexts] at grouped
    exact (asked request listed).fields field grouped

private theorem ProperParts.mono {known' : String → Prop} (wider : ∀ field, known field → known' field)
    {filter : Option Filter} {aggregates : List MeasureRef} {fields : List String}
    (proper : ProperParts known filter aggregates fields) :
    ProperParts known' filter aggregates fields where
  filter filter given := (proper.filter filter given).mono wider
  aggregates ref asked :=
    have own := proper.aggregates ref asked
    ⟨own.valid, own.counted, fun field taken => wider field (own.column field taken)⟩
  fields field grouped := wider field (proper.fields field grouped)

/-- A table that has the columns of the schema understands every query that discovery asks, and every
query of the plan, whatever the answers to discovery were. -/
theorem StoredTable.understands_all_queries {schema : Schema} {includeNulls : Value}
    {statement : Statement} {table : Table} {discovery : DiscoveryPlan} (stored : StoredTable)
    (columns : ∀ field, schema.hasField field = true → stored.IsColumn field)
    (compiled : Table.compile schema includeNulls statement = .ok table)
    (discovered : table.discover = .ok discovery) :
    (∀ query ∈ discovery.queries, stored.Understands query) ∧
      ∀ results resolved plan, table.resolve discovery results = .ok resolved →
        resolved.plan = .ok plan → ∀ query ∈ plan.mainQueries, stored.Understands query := by
  have proper := Table.proper_of_compile compiled
  refine ⟨fun query asked => ?_, fun results resolved plan fixed planned query asked => ?_⟩
  · obtain ⟨_, answers, _⟩ := Table.discover_eq_ok discovered
    have requests : ∀ request ∈ table.pendingVisits.map fun entry => table.rankingRequest entry.2,
        request.Proper fun field => schema.hasField field = true := by
      rw [List.forall_mem_map]
      exact fun entry pending => proper.rankingRequest pending
    exact understands_of_proper ((answers.proper requests query asked).mono columns)
  · obtain ⟨rfl, _, _⟩ := Table.resolve_eq_ok fixed
    obtain ⟨_, _, _, answers, _⟩ := ResolvedTable.plan_eq_ok planned
    have requests : ∀ request ∈ resolved.requests,
        request.Proper fun field => schema.hasField field = true :=
      fun _ => ResolvedTable.proper_of_mem_requests proper (ResolvedTable.selection_known proper fixed)
    exact understands_of_proper ((answers.proper requests query asked).mono columns)

/-- Shares of the pay of the best paid towns, with a percentile whose name ends with a line break, under
a mixed filter: one query for discovery, one for the cells and one for what they are shares of. -/
theorem StoredTable.understands_shares_of_towns :
    let stored : StoredTable := ⟨[("town", .string), ("year", .int32), ("pay", .float64)], []⟩
    let statement : Statement :=
      { rows := [[.leading 2 "town" "pay" "sum", .share "pay" ["SUM", "P05\n"] "cols"]]
        cols := some [[.column "year"]]
        filter := some (.chain [.negation (.nullCheck "pay" false), .comparison "year" ">=" 1990,
          .comparison "town" "<>" "Rome"] ["AND", "or"]) }
    let found (discovery : DiscoveryPlan) : Results := discovery.queries.map fun query =>
      (query.key, [[("town", "York"), ("sum_pay", 3)]])
    ∃ table discovery resolved plan, Table.compile stored.schema .null statement = .ok table ∧
      table.discover = .ok discovery ∧ table.resolve discovery (found discovery) = .ok resolved ∧
      resolved.plan = .ok plan ∧ discovery.queries.length = 1 ∧ plan.mainQueries.length = 2 ∧
      ∀ query ∈ discovery.queries ++ plan.mainQueries, stored.Understands query := by
  intro stored statement found
  obtain ⟨table, compiled, discovery, discovered, resolved, fixed, plan, planned, one, two⟩ :
      ∃ table, Table.compile stored.schema .null statement = .ok table ∧
        ∃ discovery, table.discover = .ok discovery ∧
        ∃ resolved, table.resolve discovery (found discovery) = .ok resolved ∧
        ∃ plan, resolved.plan = .ok plan ∧
          discovery.queries.length = 1 ∧ plan.mainQueries.length = 2 := by
    decide +kernel
  have understood := understands_all_queries stored (fun _ => IsColumn.of_schema) compiled discovered
  refine ⟨table, discovery, resolved, plan, compiled, discovered, fixed, planned, one, two, ?_⟩
  exact List.forall_mem_append.mpr ⟨understood.1, understood.2 _ resolved plan fixed planned⟩

end Crosstab
