import Crosstab.Proofs.Grid.Headers
import Crosstab.Proofs.RowOrder.Plan

/-!
# Grids from rearranged rows

Assembly does not depend on the order of rows, if the rows of a result differ in their grouped
values and members in their texts.
-/
namespace Crosstab

open List Value Assembly

/-! ### Members of a node -/

theorem Candidate.rank_ofMember_eq_of_perm {members others : List Value}
    (told : ∀ a ∈ members, ∀ b ∈ members, a.isNull = false → b.isNull = false →
      a.plain = b.plain → a = b) (arranged : members.Perm others) (ranking : Ranking) :
    rank (members.map ofMember) ranking = rank (others.map ofMember) ranking := by
  have texts : Value.Comparable fun v => ∃ s, v = .text s := comparable_of_texts fun _ => id
  refine rank_eq_of_perm texts ?_ ?_ (arranged.map ofMember) ranking
  · intro c listed present
    obtain ⟨member, _, rfl⟩ := mem_map.mp listed
    rw [isNull_ofMember] at present
    exact ⟨member.plain, by simp [ofMember, present]⟩
  · intro a first b second nulls same
    obtain ⟨v, inside, rfl⟩ := mem_map.mp first
    obtain ⟨w, inside', rfl⟩ := mem_map.mp second
    rw [isNull_ofMember, isNull_ofMember] at nulls
    -- There is one null only, and no other member takes its place.
    cases absent : v.isNull with
    | true =>
      have absent' : w.isNull := nulls ▸ absent
      rw [isNull_iff.mp absent, isNull_iff.mp absent']
    | false => exact told v inside w inside' absent (nulls ▸ absent) same

/-- A row has the given values in the given fields. -/
def Row.Under (row : Row) (above : List String) (values : Row) : Prop :=
  ∀ name ∈ above, (row.get name).same (values.get name) = true

/-- What rows with the given values say in a field, with repetitions. -/
def columnUnder (above : List String) (field : String) (values : Row) (rows : List Row) : List Value :=
  (rows.filter fun row => above.all fun name => (row.get name).same (values.get name)).map
    fun row => row.get field

section

variable {above : List String} {field : String} {values : Row}

theorem mem_columnUnder {rows : List Row} {v : Value} : v ∈ columnUnder above field values rows ↔
    ∃ row ∈ rows, row.Under above values ∧ row.get field = v := by
  simp [columnUnder, Row.Under, and_assoc]

theorem columnUnder_flatten (blocks : List (List Row)) : columnUnder above field values blocks.flatten =
    (blocks.map (columnUnder above field values)).flatten := by
  simp only [columnUnder, filter_flatten, map_flatten, map_map]
  rfl

theorem forall₂_columnUnder {blocks others : List (List Row)}
    (arranged : Forall₂ Perm blocks others) : Forall₂ Perm
      (blocks.map (columnUnder above field values)) (others.map (columnUnder above field values)) := by
  rw [forall₂_map_left_iff, forall₂_map_right_iff]
  exact arranged.imp fun _ _ perm => (perm.filter _).map _

/-- Rows that are rearranged inside blocks say the same distinct values. -/
theorem distinct_columnUnder_perm {blocks others : List (List Row)}
    (arranged : Forall₂ Perm blocks others)
    (identical : ∀ block ∈ blocks, IdenticalIn [field] block)
    (usable : ∀ v ∈ columnUnder above field values blocks.flatten, v.hashable) :
    (distinct (columnUnder above field values blocks.flatten)).Perm
      (distinct (columnUnder above field values others.flatten)) := by
  rw [columnUnder_flatten] at usable
  rw [columnUnder_flatten, columnUnder_flatten]
  refine distinct_flatten_perm (forall₂_columnUnder arranged) usable ?_
  intro _ member v first w second same
  obtain ⟨block, inside, rfl⟩ := mem_map.mp member
  obtain ⟨row, there, _, rfl⟩ := mem_columnUnder.mp first
  obtain ⟨other, there', _, rfl⟩ := mem_columnUnder.mp second
  exact identical block inside row there other there' field (mem_singleton_self field) same

end

namespace Expansion

variable {a b : Expansion} {above : List String} {node : Node} {field : String} {values : Row}

theorem foundMembers_eq_rank (above : List String) (node : Node) (field : String) (values : Row) :
    a.foundMembers above node field values =
      if (columnUnder above field values (a.nodeRows node.id)).all hashable then
        rank ((distinct (columnUnder above field values (a.nodeRows node.id))).map
          Candidate.ofMember) node.order.ranking
      else Outcome.wrongType := rfl

/-- Rows that are rearranged inside blocks give a node the same members. -/
theorem foundMembers_eq {blocks others : List (List Row)} (rows : a.nodeRows node.id = blocks.flatten)
    (rows' : b.nodeRows node.id = others.flatten) (arranged : Forall₂ Perm blocks others)
    (identical : ∀ block ∈ blocks, IdenticalIn [field] block)
    (told : ∀ row ∈ a.nodeRows node.id, ∀ other ∈ a.nodeRows node.id, row.Under above values →
      other.Under above values → (row.get field).plain = (other.get field).plain →
        (row.get field).key? = (other.get field).key?) :
    a.foundMembers above node field values = b.foundMembers above node field values := by
  have whole : (columnUnder above field values blocks.flatten).Perm
      (columnUnder above field values others.flatten) := by
    rw [columnUnder_flatten, columnUnder_flatten]
    exact Perm.flatten_congr (forall₂_columnUnder arranged)
  rw [rows] at told
  rw [foundMembers_eq_rank, foundMembers_eq_rank, rows, rows', ← whole.all_eq]
  split
  next usable =>
    rw [all_eq_true] at usable
    refine Candidate.rank_ofMember_eq_of_perm ?_
      (distinct_columnUnder_perm arranged identical usable) node.order.ranking
    intro v first w second _ _ text
    obtain ⟨row, there, under, rfl⟩ := mem_columnUnder.mp (mem_of_mem_distinct first)
    obtain ⟨other, there', under', rfl⟩ := mem_columnUnder.mp (mem_of_mem_distinct second)
    -- Distinct members differ in their keys, so members with one text are one.
    exact inj_on_of_nodup_map (nodup_keys_distinct usable) first second
      (told row there other there' under under' text)
  · rfl

end Expansion

/-! ### Rows of a cell -/

namespace QueryPlan

private theorem Alike.query? {plan other : QueryPlan} (alike : plan.Alike other) (key : String) :
    Option.Rel GroupingQuery.Alike (plan.query? key) (other.query? key) :=
  rel_find? alike.queries fun _ _ same => by rw [same.key]

/-- The rows of one result differ in their grouped values. -/
def Separates (plan : QueryPlan) (results : Results) : Prop :=
  ∀ query ∈ plan.mainQueries, ∀ rows, results.lookup query.key = some rows →
    rows.Pairwise fun a b => sameKeys (a.project query.fields) (b.project query.fields) = false

end QueryPlan

/-- Of rows that differ in some fields, at most one has given values there. -/
theorem eq_of_sameKeys_of_pairwise {fields : List String} {rows : List Row}
    (usable : ∀ row ∈ rows, (row.project fields).all hashable)
    (apart : rows.Pairwise fun a b => sameKeys (a.project fields) (b.project fields) = false)
    {wanted : List Value} {a b : Row} (first : a ∈ rows) (second : b ∈ rows)
    (same : sameKeys (a.project fields) wanted)
    (same' : sameKeys (b.project fields) wanted) : a = b := by
  rw [sameKeys_iff (usable a first)] at same
  rw [sameKeys_iff (usable b second)] at same'
  have keys : (rows.map fun row => (row.project fields).map key?).Nodup := by
    rw [Nodup, pairwise_map]
    refine apart.imp_of_mem fun first _ different equal => ?_
    rw [(sameKeys_iff (usable _ first)).mpr equal] at different
    cases different
  exact inj_on_of_nodup_map keys first second (same.trans same'.symm)

private theorem findRow_eq {plan plan' : QueryPlan} {results results' : Results}
    (alike : plan.Alike plan')
    (rearranged : results.Rearranges results') (apart : plan.Separates results) (key : String)
    (values : Row) : findRow plan results key values = findRow plan' results' key values := by
  unfold findRow
  obtain ⟨first, second⟩ | ⟨query, query', first, second, same⟩ := cases_of_rel (alike.query? key)
  · rw [first, second]
  · obtain ⟨looked, looked'⟩ | ⟨rows, rows', looked, looked', arranged⟩ :=
      cases_of_rel (rearranged.lookup key)
    · rw [first, second, looked, looked']
    · simp only [first, second, looked, looked', ← same.fields, ← arranged.all_eq]
      split
      next usable =>
        have listed := mem_of_find?_eq_some first
        have keyed : query.key = key := by simpa using find?_some first
        rw [Bool.and_eq_true, all_eq_true] at usable
        have reversed : rows.reverse.Perm rows'.reverse :=
          (reverse_perm rows).trans (arranged.trans (reverse_perm rows').symm)
        rw [find?_eq_of_perm reversed]
        intro a inside b inside' found found'
        exact eq_of_sameKeys_of_pairwise usable.1 (apart query listed rows (keyed ▸ looked))
          (mem_reverse.mp inside) (mem_reverse.mp inside') found found'
      · rfl

/-! ### Grids -/

theorem mem_of_lookup_eq_some {results : Results} {key : String} {rows : List Row}
    (looked : results.lookup key = some rows) : (key, rows) ∈ results := by
  obtain ⟨before, after, split, _⟩ := lookup_eq_some_iff.mp looked
  simp [split]

theorem mem_dimensionFields_of_visit {table : Table} {side : Side} {visit : Visit Node}
    (visited : visit ∈ (table.axis side).visits) {field : String}
    (named : visit.node.field? = some field) : field ∈ table.dimensionFields := by
  obtain ⟨branch, inside, starts⟩ := Axis.exists_branch_of_mem_visits visited
  refine Table.mem_dimensionFields inside (mem_filterMap.mpr ⟨visit.node, ?_, named⟩)
  exact starts.subset (by simp)

namespace ResolvedTable

variable {resolved resolved' : ResolvedTable} {plan plan' : QueryPlan} {results results' : Results}

/-- Results that leave no doubt about the grid: the rows of each differ in their grouped values, equal
values of a dimension are identical in each, and for every node whose members are not fixed, members
found below the same values have texts of their own. -/
structure ReadsClearly (resolved : ResolvedTable) (plan : QueryPlan) (results : Results) : Prop where
  separates : plan.Separates results
  identical : ∀ entry ∈ results, IdenticalIn resolved.table.dimensionFields entry.2
  told : ∀ side, ∀ visit ∈ (resolved.table.axis side).visits,
    resolved.selection? side visit.node.id = none → ∀ field, visit.node.field? = some field →
      ∀ values, ∀ row ∈ nodeRows resolved.table plan results side visit.node.id,
        ∀ other ∈ nodeRows resolved.table plan results side visit.node.id,
          row.Under visit.scope values → other.Under visit.scope values →
            (row.get field).plain = (other.get field).plain →
              (row.get field).key? = (other.get field).key?

theorem exists_blocks_of_cells (cells : plan.cells = plan'.cells) (results results' : Results)
    (table : Table) (side : Side) (id : Nat) : ∃ keys : List String,
      nodeRows table plan results side id =
        (keys.map fun key => (results.lookup key).getD []).flatten ∧
      nodeRows table plan' results' side id =
        (keys.map fun key => (results'.lookup key).getD []).flatten := by
  refine ⟨_, flatMap_def .., ?_⟩
  unfold nodeRows
  rw [← cells, flatMap_def]

section

variable (alike : resolved.Alike resolved') (planned : plan.Alike plan')
  (rearranged : results.Rearranges results') (clear : resolved.ReadsClearly plan results)

include alike planned rearranged clear

private theorem members_eq (settings : Settings) {side : Side} {visit : Visit Node}
    (visited : visit ∈ (resolved.table.axis side).visits) {field : String}
    (named : visit.node.field? = some field) (values : Row) :
    (resolved.expansion plan results settings side).members visit.scope visit.node field
        values =
      (resolved'.expansion plan' results' settings side).members visit.scope visit.node
        field values := by
  obtain ⟨first, second⟩ | ⟨selection, selection', first, second, same⟩ :=
    cases_of_rel (alike.selection? side visit.node.id)
  · have told := clear.told side visit visited first field named values
    unfold selection? at first second
    simp only [Expansion.members, expansion, first, second]
    -- The node reads the same queries, and each of them has its rows rearranged.
    obtain ⟨keys, rows, rows'⟩ := exists_blocks_of_cells planned.cells results results'
      resolved.table side visit.node.id
    rw [alike.table] at rows'
    refine Expansion.foundMembers_eq rows rows' ?_ ?_ told
    · rw [forall₂_map_left_iff, forall₂_map_right_iff, forall₂_same]
      intro key _
      obtain ⟨looked, looked'⟩ | ⟨_, _, looked, looked', arranged⟩ :=
        cases_of_rel (rearranged.lookup key)
      · simp [looked, looked']
      · simpa [looked, looked'] using arranged
    · intro block member
      obtain ⟨key, _, rfl⟩ := mem_map.mp member
      cases looked : results.lookup key with
      | none =>
        intro _ inside
        cases inside
      | some rows =>
        intro row inside other inside' name listed
        rw [mem_singleton.mp listed]
        exact clear.identical _ (mem_of_lookup_eq_some looked) row inside other inside' field
          (mem_dimensionFields_of_visit visited named)
  · unfold selection? at first second
    simp only [Expansion.members, expansion, first, second]
    exact same.members_eq _

private theorem expandAxis_eq (settings : Settings) (side : Side) :
    (resolved.expansion plan results settings side).expandAxis (resolved.table.axis side) =
      (resolved'.expansion plan' results' settings side).expandAxis (resolved.table.axis side) := by
  refine Outcome.Related.eq (.imp (Expansion.expandAxis_recast recasts_id ?_ ?_ ?_) ?_)
  · rfl
  · exact (Forest.map_id _).symm
  · intro visit visited field named values
    exact (members_eq alike planned rearranged clear settings visited named values).symm
  · rintro expanded _ rfl
    exact expanded.recast_id.symm

omit alike in
private theorem fillCell_eq (settings : Settings) :
    fillCell ⟨resolved.table, plan, results, settings⟩ =
      fillCell ⟨resolved.table, plan', results', settings⟩ := by
  have found (key : String) (values : Row) :=
    findRow_eq planned rearranged clear.separates key values
  have value : cellValue ⟨resolved.table, plan, results, settings⟩ =
      cellValue ⟨resolved.table, plan', results', settings⟩ := by
    funext source pairs values row measure
    simp only [cellValue, rawValue, found]
  funext cells row col
  simp only [fillCell, QueryPlan.cell?, planned.cells, cellValues, found, value]

private theorem assemble_eq (settings : Settings) :
    resolved.assemble settings plan results = resolved'.assemble settings plan' results' := by
  have missing : missingKeys plan results = missingKeys plan' results' := by
    unfold missingKeys
    rw [map_key_eq_of_alike planned.queries]
    apply filter_congr
    intro key _
    obtain ⟨looked, looked'⟩ | ⟨_, _, looked, looked', _⟩ := cases_of_rel (rearranged.lookup key)
    · rw [looked, looked']
    · rw [looked, looked']
      rfl
  have rows := expandAxis_eq alike planned rearranged clear settings .rows
  have cols := expandAxis_eq alike planned rearranged clear settings .cols
  have filled := fillCell_eq planned rearranged clear settings
  simp only [Table.axis] at rows cols
  simp only [assemble, missing, rows, cols, filled, ← alike.table]

end

end ResolvedTable

/-! ### Texts

Texts leave no doubt: those that are equal, or read the same, are identical. -/

namespace Value

theorem eq_of_plain_eq {a b : Value} (first : a.isText) (second : b.isText)
    (same : a.plain = b.plain) : a = b := by
  cases a with
  | text s =>
    cases b with
    | text t => exact congrArg Value.text same
    | _ => cases second
  | _ => cases first

theorem eq_of_sameKey_text {a b : Value} (textual : a.isText) (same : a.sameKey b) : a = b := by
  cases a with
  | text s => exact eq_of_same_text rfl same
  | _ => cases textual

end Value

namespace Table

def OnlyTexts (table : Table) (results : Results) : Prop :=
  ∀ entry ∈ results, ∀ row ∈ entry.2, ∀ field ∈ table.dimensionFields, (row.get field).isText = true

namespace OnlyTexts

variable {table : Table} {results : Results} (texts : table.OnlyTexts results)

include texts

theorem identicalIn {entry : String × List Row} (member : entry ∈ results) {fields : List String}
    (inside : fields ⊆ table.dimensionFields) : IdenticalIn fields entry.2 :=
  fun a first _ _ field listed same =>
    eq_of_sameKey_text (texts entry member a first field (inside listed)) same

private theorem ranksClearly {discovery : DiscoveryPlan}
    (numbers : ∀ pending ∈ table.pendingVisits, ∀ ref, pending.2.node.order.orderBy = some ref →
      ∀ entry ∈ results, ∀ row ∈ entry.2, (row.get ref.column).isNull = false →
        ∃ q, (row.get ref.column).quantity? = some q ∧ q ≠ .nan) :
    table.RanksClearly discovery results := by
  intro side visit pending field ref rows named ordered ranked
  obtain ⟨key, _, looked⟩ := Option.bind_eq_some_iff.mp ranked
  have member := mem_of_lookup_eq_some looked
  obtain ⟨branch, inside, starts⟩ := Axis.exists_branch_of_mem_visits (mem_filter.mp pending).1
  have known : visit.scope ++ [field] ⊆ table.dimensionFields := by
    intro name listed
    refine mem_dimensionFields inside ((starts.filterMap Node.field?).subset ?_)
    simpa [fieldsOf, named] using listed
  refine ⟨texts.identicalIn member known, ?_, ?_⟩
  · apply comparable_of_numbers
    rintro _ ⟨present, row, there, rfl⟩
    exact numbers (side, visit) (mem_pendingVisits.mpr pending) ref ordered _ member row there present
  · intro a first b second _ same
    have own : field ∈ table.dimensionFields := known (by simp)
    exact eq_of_plain_eq (texts _ member a first field own)
      (texts _ member b second field own) same

/-- Texts are read clearly from rows that differ in their grouped values. -/
theorem readsClearly {resolved : ResolvedTable} (fixed : resolved.table = table) {plan : QueryPlan}
    (separates : plan.Separates results) : resolved.ReadsClearly plan results := by
  subst fixed
  refine ⟨separates, fun entry member => texts.identicalIn member (Subset.refl _), ?_⟩
  intro side visit visited _ field named values row there other there' _ _ same
  have drawn {row : Row} (there : row ∈ nodeRows resolved.table plan results side visit.node.id) :
      (row.get field).isText := by
    obtain ⟨keys, blocks, _⟩ := ResolvedTable.exists_blocks_of_cells
      (rfl : plan.cells = plan.cells) results results resolved.table side visit.node.id
    rw [blocks, mem_flatten] at there
    obtain ⟨block, listed, there⟩ := there
    obtain ⟨key, _, rfl⟩ := mem_map.mp listed
    cases looked : results.lookup key with
    | none => simp [looked] at there
    | some rows =>
      rw [looked] at there
      exact texts _ (mem_of_lookup_eq_some looked) row there field
        (mem_dimensionFields_of_visit visited named)
  rw [eq_of_plain_eq (drawn there) (drawn there') same]

end OnlyTexts

/-! ### The whole way -/

/-- Results that differ only in the order of their rows lead to one grid. From rearranged results of
discovery, resolution and planning return the same keys and cells, or fail alike; and from rearranged
results of the plan, assembly returns the same grid, or fails alike. -/
theorem grid_independent_of_row_order {table : Table} {discovery : DiscoveryPlan}
    {found found' : Results} (clear : table.RanksClearly discovery found)
    (rearranged : found.Rearranges found') :
    Outcome.Related (fun resolved resolved' =>
      Outcome.Related (fun plan plan' =>
        plan.discoveryQueries.map GroupingQuery.key = plan'.discoveryQueries.map GroupingQuery.key ∧
        plan.mainQueries.map GroupingQuery.key = plan'.mainQueries.map GroupingQuery.key ∧
        plan.cells = plan'.cells ∧
        ∀ settings results results', results.Rearranges results' →
          resolved.ReadsClearly plan results →
            resolved.assemble settings plan results = resolved'.assemble settings plan' results')
        resolved.plan resolved'.plan)
      (table.resolve discovery found) (table.resolve discovery found') := by
  refine (resolve_related clear rearranged).imp fun resolved resolved' alike => ?_
  refine alike.plan.imp fun plan plan' planned => ?_
  refine ⟨by rw [planned.discovery], map_key_eq_of_alike planned.queries, planned.cells, ?_⟩
  intro settings results results' arranged reads
  exact ResolvedTable.assemble_eq alike planned arranged reads settings

theorem shuffled_pay_gives_one_grid :
    let schema := Schema.ofNames ["job", "town"] ["pay"]
    let statement : Statement :=
      { rows := [[.column "town", .leading (-1) "job" "pay" "sum", .measure "pay" ["sum"]]] }
    let rows := Row.table ["town", "job", "sum_pay"]
      [["York", "cook", 5], ["York", "clerk", 3], ["Bath", "clerk", 4]]
    let found : Results := [("job|town#", rows)]
    let found' : Results := [("job|town#", rows.reverse)]
    let results : Results := [("job|town#job in ('clerk','cook')", rows)]
    let results' : Results := [("job|town#job in ('clerk','cook')", rows.reverse)]
    let members (resolved : ResolvedTable) :=
      resolved.rowMembers.map fun selection => selection.allMembers.map Value.plain
    ∃ table discovery resolved resolved' plan plan' grid,
      Table.compile schema (.bool true) statement = .ok table ∧
      table.discover = .ok discovery ∧
      table.resolve discovery found = .ok resolved ∧
      table.resolve discovery found' = .ok resolved' ∧
      resolved.plan = .ok plan ∧ resolved'.plan = .ok plan' ∧
      members resolved = [["cook", "clerk"]] ∧ members resolved' = [["clerk", "cook"]] ∧
      resolved.assemble {} plan results = .ok grid ∧
      resolved'.assemble {} plan' results' = .ok grid := by
  intro schema statement rows found found' results results' members
  obtain ⟨table, compiled, fields, ranked, discovery, discovered, resolved, fixed, resolved', fixed',
      plan, planned, separates, listed, listed', grid, assembled, -⟩ :
      ∃ table, Table.compile schema (.bool true) statement = .ok table ∧
        table.dimensionFields = ["town", "job"] ∧
        (∀ pending ∈ table.pendingVisits,
          pending.2.node.order.orderBy = some ⟨some "pay", "sum"⟩) ∧
        ∃ discovery, table.discover = .ok discovery ∧
        ∃ resolved, table.resolve discovery found = .ok resolved ∧
        ∃ resolved', table.resolve discovery found' = .ok resolved' ∧
        ∃ plan, resolved.plan = .ok plan ∧
          (∀ query ∈ plan.mainQueries, ∀ rows ∈ results.lookup query.key,
            rows.Pairwise fun a b =>
              Value.sameKeys (a.project query.fields) (b.project query.fields) = false) ∧
          members resolved = [["cook", "clerk"]] ∧ members resolved' = [["clerk", "cook"]] ∧
          ∃ grid, resolved.assemble {} plan results = .ok grid ∧ True := by
    decide +kernel
  have ranksClearly : table.RanksClearly discovery found := by
    refine OnlyTexts.ranksClearly ?_ ?_
    · unfold OnlyTexts
      rw [fields]
      decide
    · intro pending listed ref ordered
      cases (ranked pending listed).symm.trans ordered
      rw [show MeasureRef.column ⟨some "pay", "sum"⟩ = "sum_pay" by decide +kernel]
      intro entry inside row there _
      cases List.mem_singleton.mp inside
      simp only [rows, Row.table, List.map_cons, List.map_nil, List.mem_cons, List.not_mem_nil,
        or_false] at there
      rcases there with rfl | rfl | rfl <;> exact ⟨_, rfl, nofun⟩
  have readsClearly : resolved.ReadsClearly plan results := by
    refine OnlyTexts.readsClearly ?_ (resolve_eq_ok fixed).1 separates
    unfold OnlyTexts
    rw [fields]
    decide
  have shuffled : found.Rearranges found' := .cons ⟨rfl, rows.reverse_perm.symm⟩ .nil
  have shuffled' : results.Rearranges results' := .cons ⟨rfl, rows.reverse_perm.symm⟩ .nil
  have same := grid_independent_of_row_order ranksClearly shuffled
  rw [fixed, fixed'] at same
  cases same with | ok same =>
  rw [planned] at same
  generalize planned' : resolved'.plan = outcome at same
  cases same with | ok same =>
  obtain ⟨_, _, _, alike⟩ := same
  refine ⟨table, discovery, resolved, resolved', plan, _, grid, compiled, discovered, fixed, fixed',
    planned, planned', listed, listed', assembled, ?_⟩
  rw [← alike {} results results' shuffled' readsClearly]
  exact assembled

end Table

end Crosstab
