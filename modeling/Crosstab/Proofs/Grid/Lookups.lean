import Crosstab.Proofs.Axis.Names
import Crosstab.Proofs.Discovery
import Crosstab.Proofs.Failure
import Crosstab.Proofs.Grid.Reading
import Crosstab.Proofs.Plan.Coverage

/-!
# Everything that is looked up is there

Once a table is compiled and its discovery planned, all that is looked up is found, whatever rows
answer. Only an operation on values can still fail.
-/
namespace Crosstab

open List Assembly Selection

open Outcome (FailsOnValues)

/-- Every query has a result. -/
def Results.Cover (results : Results) (queries : List GroupingQuery) : Prop :=
  ∀ query ∈ queries, (results.lookup query.key).isSome = true

/-- All values can serve as keys, and any two values of a column, null apart, have an order. -/
structure Results.Orderly (results : Results) : Prop where
  hashable : ∀ entry ∈ results, ∀ row ∈ entry.2, ∀ field, (row.get field).hashable = true
  ordered : ∀ entry ∈ results, ∀ row ∈ entry.2, ∀ other ∈ entry.2, ∀ column,
    (row.get column).isNull = false → (other.get column).isNull = false →
      ((row.get column).less? (other.get column)).isSome = true

/-! ### Resolution -/

private theorem Selection.ofRows_failsOnValues (visit : Visit Node) (field : String) (ref : MeasureRef)
    (rows : List Row) : (ofRows visit field ref rows).FailsOnValues := by
  unfold ofRows
  simp only
  split
  · refine FailsOnValues.bind (.mapM fun group _ => ?_) fun byParent _ => .ok _
    exact (rank_failsOnValues _ _).bind_pure
  · exact .wrongType

private theorem Selection.exists_ofRows_of_orderly {results : Results} (orderly : results.Orderly)
    {key : String} {rows : List Row} (member : (key, rows) ∈ results) (visit : Visit Node)
    (field : String) (ref : MeasureRef) :
    ∃ selection, ofRows visit field ref rows = .ok selection := by
  apply exists_ofRows
  · intro row there
    rw [Row.project, all_map, all_eq_true]
    exact fun name _ => orderly.hashable _ member row there name
  · intro row _
    unfold rank
    rw [if_pos]
    · exact ⟨_, rfl⟩
    -- Candidates take their keys from one column of the result.
    apply Candidate.comparable_eq_true
    intro a first b second
    simp only [mem_filter, Bool.not_eq_true'] at first second
    obtain ⟨⟨first, ofA⟩, second, ofB⟩ := first, second
    obtain ⟨rowA, inA, rfl⟩ := mem_map.mp first
    obtain ⟨rowB, inB, rfl⟩ := mem_map.mp second
    exact orderly.ordered _ member rowA (mem_filter.mp inA).1 rowB (mem_filter.mp inB).1
      ref.column ofA ofB

namespace Table

variable {schema : Schema} {table : Table} {discovery : DiscoveryPlan} {found : Results}

section

variable (wellFormed : table.WellFormed schema) (discovered : table.discover = .ok discovery)
  (answered : found.Cover discovery.queries)
include wellFormed discovered answered

theorem resolveNode_eq {side : Side} {visit : Visit Node}
    (member : visit ∈ (table.axis side).pendingVisits) :
    ∃ field ref key rows, (key, rows) ∈ found ∧
      resolveNode side discovery found visit = ofRows visit field ref rows := by
  obtain ⟨_, answers, _⟩ := discover_eq_ok discovered
  obtain ⟨field, ref, named, ordered⟩ := exists_of_isPending (mem_filter.mp member).2
  obtain ⟨query, planned, key⟩ := answers.exists_query
    (mem_map_of_mem (mem_pendingVisits.mpr member))
  obtain ⟨rows, looked⟩ := Option.isSome_iff_exists.mp (answered query planned)
  obtain ⟨before, after, listed, _⟩ := lookup_eq_some_iff.mp looked
  refine ⟨field, ref, query.key, rows, by simp [listed], ?_⟩
  rw [key] at looked
  exact resolveNode_eq_ofRows wellFormed discovered member named ordered looked

theorem resolve_failsOnValues : (table.resolve discovery found).FailsOnValues := by
  have each (side : Side) : ∀ visit ∈ (table.axis side).pendingVisits,
      (resolveNode side discovery found visit).FailsOnValues := by
    intro visit member
    obtain ⟨field, ref, key, rows, _, made⟩ := resolveNode_eq wellFormed discovered answered member
    rw [made]
    exact ofRows_failsOnValues visit field ref rows
  exact (FailsOnValues.mapM (each .rows)).bind fun _ _ =>
    (FailsOnValues.mapM (each .cols)).bind fun _ _ => .ok _

private theorem exists_resolve (orderly : found.Orderly) :
    ∃ resolved, table.resolve discovery found = .ok resolved := by
  refine exists_resolve_of_each fun side visit member => ?_
  obtain ⟨field, ref, key, rows, there, made⟩ := resolveNode_eq wellFormed discovered answered member
  obtain ⟨selection, fixed⟩ := exists_ofRows_of_orderly orderly there visit field ref
  exact ⟨selection, made.trans fixed⟩

end

theorem exists_plan {resolved : ResolvedTable} (discovered : table.discover = .ok discovery)
    (fixed : table.resolve discovery found = .ok resolved) : ∃ plan, resolved.plan = .ok plan := by
  obtain ⟨valid, _, _⟩ := discover_eq_ok discovered
  obtain ⟨rfl, _, members⟩ := resolve_eq_ok fixed
  have checked : resolved.checkResolved = .ok () := by
    unfold ResolvedTable.checkResolved
    split
    next side visit pending =>
      -- Every pending node has a selection under its number.
      have unfixed := find?_some pending
      obtain ⟨selection, there, made⟩ := Outcome.exists_of_mem_mapM (members side)
        (mem_pendingVisits.mp (mem_of_find?_eq_some pending))
      have known : (resolved.selection? side visit.node.id).isSome :=
        find?_isSome.mpr ⟨selection, there, by simp [(resolveNode_eq_ok made).1]⟩
      simp [Option.isSome_iff_ne_none.mp known] at unfixed
    · rfl
  exact ⟨_, Outcome.bind_eq_ok.mpr ⟨(), valid, Outcome.bind_eq_ok.mpr ⟨(), checked, rfl⟩⟩⟩

end Table

/-! ### Expansion -/

namespace Expansion

variable {expansion : Expansion}

/-- In the course of expanding a forest at some place, the headers of a node are asked for below the
nodes `above`, where `known` are the values that hold. -/
inductive Asks (expansion : Expansion) (node : Node) (above : List Node) (known : Row) :
    Forest Node → Path → List Node → Row → Prop
  | here {children siblings : Forest Node} {path : Path} :
      Asks expansion node above known (.cons node children siblings) path above known
  | under {first : Node} {children siblings : Forest Node} {path : Path} {branch : List Node}
      {values inner : Row} {made : List (Header × Row)} {header : Header}
      (headed : expansion.headers path branch values first = .ok made)
      (member : (header, inner) ∈ made)
      (asked : Asks expansion node above known children header.path (branch ++ [first]) inner) :
      Asks expansion node above known (.cons first children siblings) path branch values
  | beside {first : Node} {children siblings : Forest Node} {path : Path} {branch : List Node}
      {values : Row} (asked : Asks expansion node above known siblings path branch values) :
      Asks expansion node above known (.cons first children siblings) path branch values

variable {path : Path} {branch : List Node} {values : Row} {node : Node}

/-- Below a header its own field has a value, and so have all fields from before. -/
theorem known_of_mem_headers {inner : Row} {made : List (Header × Row)} {header : Header}
    (headed : expansion.headers path branch values node = .ok made)
    (member : (header, inner) ∈ made)
    (known : ∀ field ∈ fieldsOf branch, field ∈ values.map Prod.fst) :
    ∀ field ∈ fieldsOf (branch ++ [node]), field ∈ inner.map Prod.fst := by
  intro field along
  rw [fieldsOf, filterMap_append, mem_append] at along
  unfold headers at headed
  cases named : node.field? with
  | none =>
    rw [named] at headed
    cases headed
    obtain ⟨_, rfl⟩ := Prod.mk.inj (mem_singleton.mp member)
    simp only [filterMap_cons, named, filterMap_nil, not_mem_nil, or_false] at along
    exact known field along
  | some name =>
    rw [named] at headed
    obtain ⟨members, _, headed⟩ := Outcome.bind_eq_ok.mp headed
    cases headed
    obtain ⟨value, _, same⟩ := mem_map.mp member
    obtain ⟨_, rfl⟩ := Prod.mk.inj same
    simp only [filterMap_cons, named, filterMap_nil, mem_singleton] at along
    rw [Row.mem_keys_set]
    exact along.imp (known field) id

private theorem Asks.known {above : List Node} {forest : Forest Node} {outer : Row}
    (asked : expansion.Asks node above values forest path branch outer)
    (start : ∀ field ∈ fieldsOf branch, field ∈ outer.map Prod.fst) :
    ∀ field ∈ fieldsOf above, field ∈ values.map Prod.fst := by
  induction asked with
  | here => exact start
  | under headed member _ ih => exact ih (known_of_mem_headers headed member start)
  | beside _ ih => exact ih start

private theorem headers_failsOnValues (path : Path) (branch : List Node) (values : Row) (node : Node) :
    (expansion.headers path branch values node).FailsOnValues := by
  have fixed (selection : Selection) (parent : List Value) :
      (selection.members parent).FailsOnValues := by
    unfold Selection.members
    split
    · exact .ok _
    · exact .wrongType
  have sought (field : String) :
      (expansion.foundMembers (fieldsOf branch) node field values).FailsOnValues := by
    unfold foundMembers
    simp only
    split
    · exact rank_failsOnValues _ _
    · exact .wrongType
  unfold headers
  split
  · exact .ok _
  next field _ =>
    refine FailsOnValues.bind_pure ?_
    unfold members
    split
    · exact fixed _ _
    · exact sought field

private theorem expand_failsOnValues (forest : Forest Node) (path : Path) (branch : List Node)
    (values : Row) : (expansion.expand forest path branch values).FailsOnValues := by
  induction forest generalizing path branch values with
  | nil => exact .ok _
  | cons node children siblings below beside =>
    refine (headers_failsOnValues path branch values node).bind fun made _ => ?_
    refine FailsOnValues.bind (.mapM fun header _ => ?_) fun own _ => ?_
    · exact (below _ _ _).bind_pure
    · exact (beside _ _ _).bind_pure

private theorem expandAxis_failsOnValues (axis : Axis) : (expansion.expandAxis axis).FailsOnValues := by
  unfold expandAxis
  split
  · exact .ok _
  · exact expand_failsOnValues _ _ _ _

end Expansion

/-! ### Cells -/

namespace ResolvedTable

variable {schema : Schema} {resolved : ResolvedTable} {plan : QueryPlan} {results : Results}
  {settings : Settings}

variable {key : String}

private theorem findRow_failsOnValues (planned : (plan.query? key).isSome)
    (answered : (results.lookup key).isSome) (values : Row) :
    (findRow plan results key values).FailsOnValues := by
  obtain ⟨query, asked⟩ := Option.isSome_iff_exists.mp planned
  obtain ⟨rows, looked⟩ := Option.isSome_iff_exists.mp answered
  unfold findRow
  rw [asked, looked]
  simp only
  split
  · exact .ok _
  · exact .wrongType

/-- All look-ups of a planned table that is assembled from these results succeed. -/
structure FindsAll (resolved : ResolvedTable) (settings : Settings) (plan : QueryPlan)
    (results : Results) : Prop where
  /-- The measures that planning looks up by the names bound along branches. -/
  names : ∀ rowBranch ∈ resolved.table.rows.branches, ∀ colBranch ∈ resolved.table.cols.branches,
    ∀ name ∈ resolved.table.rows.branchMeasures rowBranch ++
      resolved.table.cols.branchMeasures colBranch, (resolved.table.measure? name).isSome = true
  /-- The branches of every cell. -/
  branches : ∀ cell ∈ plan.cells, cell.row < resolved.table.rows.branches.length ∧
    cell.col < resolved.table.cols.branches.length
  /-- The measures of every cell, and the denominators of those that are shares. -/
  measures : ∀ cell ∈ plan.cells, ∀ name ∈ cell.measures, ∃ measure,
    resolved.table.measure? name = some measure ∧
      (measure.across.isSome = true → (cell.denominators.lookup name).isSome = true)
  /-- The query and the result under every key that a cell reads. -/
  keys : ∀ cell ∈ plan.cells, ∀ key ∈ cell.keys,
    (plan.query? key).isSome = true ∧ (results.lookup key).isSome = true
  /-- The values above a node where its members are asked for. -/
  ancestors : ∀ side node above known, (resolved.expansion plan results settings side).Asks node
      above known (resolved.table.axis side).forest [] [] [] →
    ∀ field ∈ fieldsOf above, (known.lookup field).isSome = true
  /-- The branches of leaves, and the cells where leaves cross. -/
  leaves : ∀ rows cols : Expanded,
    (resolved.expansion plan results settings .rows).expandAxis resolved.table.rows = .ok rows →
    (resolved.expansion plan results settings .cols).expandAxis resolved.table.cols = .ok cols →
    ∀ row ∈ rows.2, ∀ col ∈ cols.2,
      row.branch ∈ resolved.table.rows.branches ∧ col.branch ∈ resolved.table.cols.branches ∧
        ∃ cell ∈ plan.cells, plan.cell? (branchIndex resolved.table.rows row.branch)
          (branchIndex resolved.table.cols col.branch) = some cell

private theorem query?_isSome_of_key (planned : resolved.plan = .ok plan) {cell : CellSource}
    (member : cell ∈ plan.cells) (read : key ∈ cell.keys) :
    ∃ query ∈ plan.mainQueries, query.key = key ∧ plan.query? key = some query := by
  obtain ⟨_, _, _, answers, _⟩ := plan_eq_ok planned
  have asked : key ∈ resolved.requests.map QueryRequest.key := by
    rw [keys_requests planned]
    exact mem_flatMap.mpr ⟨cell, member, read⟩
  obtain ⟨query, within, rfl⟩ := mem_map.mp (answers.mem_keys.mpr asked)
  exact ⟨query, within, rfl, find?_of_nodup_map answers.nodup_keys within⟩

private theorem exists_cell (wellFormed : resolved.table.WellFormed schema)
    (planned : resolved.plan = .ok plan) {rowBranch colBranch : List Node}
    (inRows : rowBranch ∈ resolved.table.rows.branches)
    (inCols : colBranch ∈ resolved.table.cols.branches) :
    ∃ cell ∈ plan.cells, plan.cell? (branchIndex resolved.table.rows rowBranch)
      (branchIndex resolved.table.cols colBranch) = some cell := by
  have atRow := getElem?_branchIndex (wellFormed.isNumbered .rows) inRows
  have atCol := getElem?_branchIndex (wellFormed.isNumbered .cols) inCols
  exact ⟨_, (mem_cells planned).mpr ⟨_, _, rowBranch, colBranch, atRow, atCol, rfl⟩,
    cell?_eq planned atRow atCol⟩

theorem findsAll_of_plan (settings : Settings) (wellFormed : resolved.table.WellFormed schema)
    (bound : ∀ side, ∀ branch ∈ (resolved.table.axis side).branches,
      (resolved.table.axis side).branchMeasures branch ⊆ resolved.table.measures.map Measure.name)
    (planned : resolved.plan = .ok plan) (answered : results.Cover plan.mainQueries) :
    resolved.FindsAll settings plan results := by
  have named : ∀ name ∈ resolved.table.measures.map Measure.name,
      (resolved.table.measure? name).isSome := by
    intro name listed
    obtain ⟨measure, there, rfl⟩ := mem_map.mp listed
    rw [wellFormed.measure?_name there]
    rfl
  refine ⟨?_, ?_, ?_, ?_, ?_, ?_⟩
  · intro rowBranch inRows colBranch inCols name listed
    rcases List.mem_append.mp listed with ofRow | ofCol
    · exact named name (bound .rows rowBranch inRows ofRow)
    · exact named name (bound .cols colBranch inCols ofCol)
  · intro cell member
    obtain ⟨row, col, rowBranch, colBranch, atRow, atCol, rfl⟩ := (mem_cells planned).mp member
    exact ⟨(List.getElem?_eq_some_iff.mp atRow).1, (List.getElem?_eq_some_iff.mp atCol).1⟩
  · intro cell member name listed
    obtain ⟨row, col, rowBranch, colBranch, atRow, atCol, rfl⟩ := (mem_cells planned).mp member
    obtain ⟨measure, shown, rfl⟩ := mem_map.mp listed
    refine ⟨measure, wellFormed.measure?_name (Table.mem_measures_of_mem_cellMeasures shown), ?_⟩
    intro across
    rw [lookup_denominators wellFormed row col shown, Option.isSome_map, denominatorRequest,
      Option.isSome_map]
    exact across
  · intro cell member key read
    obtain ⟨query, within, rfl, found⟩ := query?_isSome_of_key planned member read
    exact ⟨by rw [found]; rfl, answered query within⟩
  · intro side node above known asked field along
    have there := asked.known (by simp [fieldsOf]) field along
    obtain ⟨entry, listed, rfl⟩ := mem_map.mp there
    exact lookup_isSome_iff.mpr ⟨entry, listed, by simp⟩
  · intro rows cols expandedRows expandedCols row inRows col inCols
    have rowBranch := Expansion.branch_mem expandedRows inRows
    have colBranch := Expansion.branch_mem expandedCols inCols
    exact ⟨rowBranch, colBranch, exists_cell wellFormed planned rowBranch colBranch⟩

/-- The values of a cell whose look-ups succeed can only fail on values. -/
theorem cellValues_failsOnValues (finds : resolved.FindsAll settings plan results)
    {source : CellSource} (member : source ∈ plan.cells) (row col : Leaf) :
    (cellValues ⟨resolved.table, plan, results, settings⟩ source row col).FailsOnValues := by
  have looked {key : String} (read : key ∈ source.keys) (values : Row) :
      (findRow plan results key values).FailsOnValues :=
    findRow_failsOnValues (finds.keys source member key read).1
      (finds.keys source member key read).2 values
  refine (looked mem_cons_self _).bind fun found _ => .mapM fun measure shown => ?_
  obtain ⟨name, listed, named⟩ := mem_filterMap.mp shown
  obtain ⟨measure', named', divided⟩ := finds.measures source member name listed
  cases named.symm.trans named'
  have spelled : measure.name = name := by simpa using find?_some named
  refine FailsOnValues.bind ?_ fun raw _ => (formatValue_failsOnValues _ _ _).bind_pure
  rw [rawValue_eq]
  split
  · exact .ok _
  next share =>
    simp only [Bool.or_eq_true, not_or, Option.isNone_iff_eq_none] at share
    have across : measure.across.isSome := Option.isSome_iff_ne_none.mpr share.1
    obtain ⟨key, denominator⟩ := Option.isSome_iff_exists.mp (divided across)
    rw [spelled, denominator]
    -- The key of a denominator is one of those that the cell reads.
    have read : key ∈ source.keys := by
      obtain ⟨before, after, entries, _⟩ := lookup_eq_some_iff.mp denominator
      simp [CellSource.keys, entries]
    refine (looked read _).bind fun whole _ => ?_
    unfold Crosstab.share
    split
    · exact Value.divide_failsOnValues _ _
    · exact .ok _

theorem assemble_failsOnValues (planned : resolved.plan = .ok plan)
    (finds : resolved.FindsAll settings plan results) :
    (resolved.assemble settings plan results).FailsOnValues := by
  -- Every query is read by some cell, so none is without a result.
  have complete : missingKeys plan results = [] := by
    unfold missingKeys
    rw [filter_eq_nil_iff]
    intro key listed
    obtain ⟨_, _, _, answers, _⟩ := plan_eq_ok planned
    have read := answers.mem_keys.mp listed
    rw [keys_requests planned] at read
    obtain ⟨cell, member, read⟩ := mem_flatMap.mp read
    simp [Option.isSome_iff_ne_none.mp (finds.keys cell member key read).2]
  unfold assemble
  rw [complete]
  refine (Expansion.expandAxis_failsOnValues _).bind fun rows expandedRows => ?_
  refine (Expansion.expandAxis_failsOnValues _).bind fun cols expandedCols => ?_
  refine FailsOnValues.bind_pure (.foldlM fun crossing listed cells => ?_)
  obtain ⟨row, inRows, listed⟩ := mem_flatMap.mp listed
  obtain ⟨col, inCols, rfl⟩ := mem_map.mp listed
  obtain ⟨_, _, source, member, found⟩ :=
    finds.leaves rows cols expandedRows expandedCols row inRows col inCols
  unfold fillCell
  simp only
  rw [found]
  refine (cellValues_failsOnValues finds member row col).bind fun values _ => ?_
  split
  · exact .ok _
  · exact .wrongType

end ResolvedTable

/-! ### From the statement to the grid -/

namespace Table

/-- After a table is compiled and its discovery is planned, whatever rows answer the queries, nothing
that is looked up is missing: resolution, planning and assembly fail on values only. Resolution does
not fail if the values can be used as keys and compared, and planning does not fail at all. -/
theorem answers_meet_every_lookup {schema : Schema} {includeNulls : Value} {statement : Statement}
    {table : Table} {discovery : DiscoveryPlan} {found : Results}
    (compiled : Table.compile schema includeNulls statement = .ok table)
    (discovered : table.discover = .ok discovery) (explored : found.Cover discovery.queries) :
    (table.resolve discovery found).FailsOnValues ∧
      (found.Orderly → ∃ resolved, table.resolve discovery found = .ok resolved) ∧
      ∀ resolved, table.resolve discovery found = .ok resolved →
        ∃ plan, resolved.plan = .ok plan ∧
          ∀ settings results, results.Cover plan.mainQueries →
            resolved.FindsAll settings plan results ∧
              (resolved.assemble settings plan results).FailsOnValues := by
  have wellFormed := wellFormed_of_compile compiled
  refine ⟨resolve_failsOnValues wellFormed discovered explored,
    exists_resolve wellFormed discovered explored, ?_⟩
  intro resolved fixed
  obtain ⟨plan, planned⟩ := exists_plan discovered fixed
  obtain ⟨rfl, _, _⟩ := resolve_eq_ok fixed
  refine ⟨plan, planned, fun settings results answered => ?_⟩
  have finds := ResolvedTable.findsAll_of_plan settings wellFormed
    (fun side branch member => branchMeasures_subset compiled member) planned answered
  exact ⟨finds, ResolvedTable.assemble_failsOnValues planned finds⟩

/-- A row without a town and one without an aggregate are no obstacle to discovery. A text for a
number then stops the assembly, as an error about a value. -/
theorem text_for_number_fails_on_value :
    let schema := Schema.ofNames ["job", "town"] ["pay"]
    let statement : Statement :=
      { rows := [[.column "town", .leading 1 "job" "pay" "sum", .share "pay" ["sum"] "ROWS"]] }
    let found : Results := [("job|town#",
      [[("town", "York"), ("job", "cook")], [("job", "clerk"), ("sum_pay", 3)]])]
    let rows := Row.table ["town", "job", "sum_pay"] [["York", "cook", "five"]]
    let results : Results := [("job|town#job in ('clerk','cook')", rows), ("#", rows)]
    ∃ table discovery resolved plan,
      Table.compile schema (.bool true) statement = .ok table ∧
      table.discover = .ok discovery ∧ table.resolve discovery found = .ok resolved ∧
      resolved.plan = .ok plan ∧ resolved.FindsAll {} plan results ∧
      ∃ error, resolved.assemble {} plan results = .error error ∧ error.isOfValue = true := by
  intro schema statement found rows results
  obtain ⟨table, compiled, discovery, discovered, resolved, fixed, plan, planned, coversDiscovery,
      coversPlan, failed⟩ :
      ∃ table, Table.compile schema (.bool true) statement = .ok table ∧
        ∃ discovery, table.discover = .ok discovery ∧
        ∃ resolved, table.resolve discovery found = .ok resolved ∧
        ∃ plan, resolved.plan = .ok plan ∧
          (∀ query ∈ discovery.queries, (found.lookup query.key).isSome = true) ∧
          (∀ query ∈ plan.mainQueries, (results.lookup query.key).isSome = true) ∧
          (resolved.assemble {} plan results).toBool = false := by
    decide +kernel
  obtain ⟨_, _, later⟩ := answers_meet_every_lookup compiled discovered coversDiscovery
  obtain ⟨plan', planned', meets⟩ := later resolved fixed
  cases planned.symm.trans planned'
  obtain ⟨finds, onValues⟩ := meets {} results coversPlan
  refine ⟨table, discovery, resolved, plan, compiled, discovered, fixed, planned, finds, ?_⟩
  cases outcome : resolved.assemble {} plan results with
  | ok grid => simp [outcome, Except.toBool] at failed
  | error error => exact ⟨error, rfl, onValues error outcome⟩

end Table

end Crosstab
