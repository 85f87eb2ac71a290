import Crosstab.Proofs.Grid.Headers
import Crosstab.Proofs.Grid.NodeRows

/-!
# Members under headers

Without orderings by value, the headers below a header stand for the values among the rows that
count and have the members of all headers above.
-/
namespace Crosstab

open List Step Table

/-- The members that a ranking by text lists: all values with a property, each once, in the order of
their texts with null last, cut to the limit. -/
def Ranking.Lists (ranking : Ranking) (has : Value → Prop) (members : List Value) : Prop :=
  ∃ all : List Value, members = ranking.cut all ∧ (∀ v, v ∈ all ↔ has v) ∧
    (all.map Value.key?).Nodup ∧ all.Pairwise (Value.ListedBefore ranking.falls)

/-- Headers of one side. -/
def Grid.headers (grid : Grid) : Side → Forest Header
  | .rows => grid.rowHeaders
  | .cols => grid.colHeaders

def Header.pairs (headers : List Header) : List (String × Value) :=
  headers.filterMap fun header => header.field.map fun field => (field, header.value)

private theorem Expansion.Traces.pairs_eq {headers : List Header} {steps : List Step}
    (traces : Expansion.Traces headers steps) : Header.pairs headers = pairs steps := by
  induction traces with
  | nil => rfl
  | cons head _ ih =>
    obtain ⟨_, field, value⟩ := head
    unfold Header.pairs pairs at ih ⊢
    rw [filterMap_cons, filterMap_cons, field, value, ih]

theorem Expansion.Traces.nodes_eq {headers : List Header} {steps : List Step}
    (traces : Expansion.Traces headers steps) :
    headers.map Header.node = (steps.map Prod.fst).map Node.id := by
  induction traces with
  | nil => rfl
  | cons head _ ih => rw [map_cons, map_cons, map_cons, head.1, ih]

theorem Expansion.expandAt_of_expandAxis {expansion : Expansion} {axis : Axis}
    {expanded : Expanded} (returned : expansion.expandAxis axis = .ok expanded) :
    ∃ leaves, expansion.expandAt [] axis.forest = .ok (expanded.1, leaves) := by
  unfold expandAxis at returned
  split at returned
  next empty =>
    cases returned
    rw [Forest.isEmpty_iff.mp empty]
    exact ⟨[], rfl⟩
  · exact ⟨expanded.2, returned⟩

namespace Tabulation

variable {schema : Schema} {settings : Settings} {statement : Statement} {source : List Row}
  {t : Tabulation schema settings statement source}

theorem headers_eq (t : Tabulation schema settings statement source) (side : Side) :
    t.grid.headers side = (t.expanded side).1 := by
  obtain ⟨_, _, grid⟩ := ResolvedTable.assembled_eq t.assembled t.expandedRows t.expandedCols
  rw [grid]
  cases side <;> rfl

private theorem expandAt_headers (t : Tabulation schema settings statement source) (side : Side) :
    ∃ leaves, (t.expansion side).expandAt [] (t.table.axis side).forest =
      .ok (t.grid.headers side, leaves) := by
  rw [← t.resolved_table, t.headers_eq side]
  exact Expansion.expandAt_of_expandAxis (t.expandAxis_eq side)

theorem unique_fields_of_visited {side : Side} {visit : Visit Node}
    (visited : visit ∈ (t.table.axis side).visits) :
    (fieldsOf (visit.above ++ [visit.node])).Nodup := by
  obtain ⟨branch, inside, rest, rfl⟩ := Axis.exists_branch_of_mem_visits visited
  have unique := nodup_fieldsOf_branch (discover_eq_ok t.discovered).1 inside
  rw [fieldsOf, filterMap_append] at unique
  exact (nodup_append.mp unique).1

theorem dimension_of_visited {side : Side} {visit : Visit Node} {field : String}
    (visited : visit ∈ (t.table.axis side).visits) (named : visit.node.field? = some field) :
    field ∈ t.table.dimensionFields := by
  obtain ⟨branch, inside, rest, rfl⟩ := Axis.exists_branch_of_mem_visits visited
  apply mem_dimensionFields inside
  simp [fieldsOf, named]

/-! ### Tables without orderings by value -/

theorem selections_eq_nil (unranked : t.table.hasPending = false) (side : Side) :
    t.resolved.selections side = [] := by
  have none : (t.table.axis side).pendingVisits = [] := by
    simp only [hasPending, Bool.or_eq_false_iff, Bool.not_eq_false', List.isEmpty_iff]
      at unranked
    cases side with
    | rows => exact unranked.1
    | cols => exact unranked.2
  have made := (resolve_eq_ok t.fixed).2.2 side
  rw [none] at made
  exact (Except.ok.inj made).symm

private theorem memberFilters_eq_nil (unranked : t.table.hasPending = false) (side : Side)
    (branch : List Node) : t.resolved.memberFilters side branch = [] := by
  simp [ResolvedTable.memberFilters, ResolvedTable.selection?, selections_eq_nil unranked]

section Members

variable (unranked : t.table.hasPending = false)
  (numbers : ∀ row ∈ source, ∀ field ∈ t.table.dimensionFields, (row.get field).isNan = false)
  (identical : ∀ field ∈ t.table.dimensionFields, ∀ a ∈ source, ∀ b ∈ source,
    (a.get field).same (b.get field) = true → a.get field = b.get field)
  (faithful : FaithfulKeys t.resolved.requests source)
  (apart : ∀ query ∈ t.plan.mainQueries, ∀ ref ∈ query.aggregates, ref.column ∉ query.fields)

include numbers identical in
theorem get_eq_of_key?_eq {field : String} (dimension : field ∈ t.table.dimensionFields) {a b : Row}
    (first : a ∈ source) (second : b ∈ source) (usable : (a.get field).hashable)
    (key : (a.get field).key? = (b.get field).key?) : a.get field = b.get field := by
  rw [Value.hashable_eq_of_key?_eq key] at usable
  apply identical field dimension a first b second
  exact (Value.same_iff_key?_eq (numbers a first field dimension) usable).mpr key

include unranked numbers identical faithful apart

section

variable {side : Side} {visit : Visit Node} {field : String}
  (visited : visit ∈ (t.table.axis side).visits) (named : visit.node.field? = some field)
include visited named

/-- A row that counts has its own values told by a record of every dimension. -/
theorem exists_record_of_row {row : Row} (listed : row ∈ source) (counted : t.table.counts row) :
    ∃ record ∈ (t.expansion side).nodeRows visit.node.id,
      ∀ name ∈ fieldsOf (visit.above ++ [visit.node]), record.get name = row.get name := by
  obtain ⟨branch, inside, rest, rfl⟩ := Axis.exists_branch_of_mem_visits visited
  -- Any crossing of the branch will do: without fixed members none of them leaves the row out.
  obtain ⟨other, across⟩ := exists_mem_of_ne_nil _ (t.table.axis side.other).branches_ne_nil
  have unfiltered (side : Side) (branch : List Node) :
      ∀ filter ∈ t.resolved.memberFilters side branch, Filter.holds row filter = .ok true := by
    rw [memberFilters_eq_nil unranked]
    exact fun _ member => nomatch member
  have along : visit.node ∈ visit.above ++ [visit.node] ++ rest := by simp
  obtain ⟨record, told, keys⟩ := t.exists_mem_nodeRows faithful apart inside across listed counted
    (unfiltered _ _) (unfiltered _ _) along
  refine ⟨record, told, ?_⟩
  -- The record has the keys of the row and the very values of some row, which are then the same.
  obtain ⟨drawn, known, _, values⟩ := t.exists_row_of_mem_nodeRows faithful apart visited named told
  intro name among
  have onBranch : name ∈ fieldsOf (visit.above ++ [visit.node] ++ rest) := by
    rw [fieldsOf, filterMap_append]
    exact mem_append_left _ among
  obtain ⟨usable, key⟩ := keys name onBranch
  rw [← values name among] at usable key ⊢
  exact get_eq_of_key?_eq numbers identical (mem_dimensionFields inside onBranch) known listed
    usable key

section

variable {steps : List Step} (above : visit.above = steps.map Prod.fst)
include above

/-- The members that a dimension finds below some steps are the values of the rows that count and
have the members passed. -/
theorem mem_iff_of_finds {all : List Value}
    (finds : (t.expansion side).Finds (fieldsOf (steps.map Prod.fst)) visit.node field
      (values steps) all) (v : Value) :
    v ∈ all ↔ ∃ row ∈ t.table.rowsWith source (pairs steps), row.get field = v := by
  have unique := unique_fields_of_visited visited
  have fields : fieldsOf (visit.above ++ [visit.node]) =
      fieldsOf (steps.map Prod.fst) ++ [field] := by simp [fieldsOf, above, named]
  rw [fields] at unique
  have own : field ∈ fieldsOf (visit.above ++ [visit.node]) := by simp [fields]
  have passed {name : String} (among : name ∈ fieldsOf (steps.map Prod.fst)) :
      name ∈ fieldsOf (visit.above ++ [visit.node]) := by simp [fields, among]
  have agreement (row : Row) := forall_values_iff (nodup_append.mp unique).1
    (P := fun name value => (row.get name).same value = true)
  -- Nothing is made up: a record tells values of a row, in the fields above as well.
  have sound (v : Value) (member : v ∈ all) :
      ∃ row ∈ t.table.rowsWith source (pairs steps), row.get field = v := by
    obtain ⟨record, told, agrees, rfl⟩ := finds.drawn v member
    obtain ⟨row, listed, counted, values⟩ :=
      t.exists_row_of_mem_nodeRows faithful apart visited named told
    refine ⟨row, mem_rowsWith.mpr ⟨listed, counted, ?_⟩, values field own⟩
    apply (agreement row).mp
    intro name among
    rw [values name (passed among)]
    exact agrees name among
  refine ⟨sound v, ?_⟩
  -- Nothing is missing: the record of a row has its key kept, by a value that is of a row again.
  rintro ⟨row, there, rfl⟩
  obtain ⟨listed, counted, agrees⟩ := mem_rowsWith.mp there
  obtain ⟨record, told, values⟩ := exists_record_of_row unranked numbers identical faithful apart
    visited named listed counted
  have known : (record.get field).key? ∈ all.map Value.key? := by
    apply finds.covers record told
    intro name among
    rw [values name (passed among)]
    exact (agreement row).mpr agrees name among
  obtain ⟨kept, among, key⟩ := mem_map.mp known
  obtain ⟨drawn, drawnThere, rfl⟩ := sound kept among
  have dimension := dimension_of_visited visited named
  rw [values field own] at key
  rw [← get_eq_of_key?_eq numbers identical dimension (mem_rowsWith.mp drawnThere).1 listed
    (finds.usable _ among) key]
  exact among

/-- What a dimension picks below some steps are the members of these rows. -/
theorem lists_of_picks {picked : List Value}
    (picks : (t.expansion side).Picks steps visit.node picked) :
    visit.node.order.ranking.Lists
        (fun v => ∃ row ∈ t.table.rowsWith source (pairs steps), row.get field = v) picked ∧
      ∀ v ∈ picked, v.hashable := by
  unfold Expansion.Picks at picks
  rw [named] at picks
  rcases Expansion.members_eq_ok picks with ⟨selection, known, _⟩ | ⟨all, rfl, finds⟩
  · have unselected : (t.expansion side).selections = [] := selections_eq_nil unranked side
    simp [unselected] at known
  · refine ⟨⟨all, rfl, ?_, finds.unique, finds.ordered⟩, ?_⟩
    · exact mem_iff_of_finds unranked numbers identical faithful apart visited named above finds
    · intro v member
      exact finds.usable v ((Ranking.cut_sublist _ _).subset member)

theorem exists_row_of_picked {picked : List Value}
    (picks : (t.expansion side).Picks steps visit.node picked) {v : Value} (member : v ∈ picked) :
    ∃ row, row ∈ t.table.rowsWith source (pairs (steps ++ [(visit.node, v)])) := by
  obtain ⟨⟨all, rfl, values, _⟩, usable⟩ :=
    lists_of_picks unranked numbers identical faithful apart visited named above picks
  obtain ⟨row, there, rfl⟩ := (values v).mp ((Ranking.cut_sublist _ _).subset member)
  obtain ⟨listed, counted, agrees⟩ := mem_rowsWith.mp there
  have dimension := dimension_of_visited visited named
  have self : (row.get field).same (row.get field) :=
    (Value.same_iff_key?_eq (numbers row listed field dimension) (usable _ member)).mpr rfl
  refine ⟨row, mem_rowsWith.mpr ⟨listed, counted, ?_⟩⟩
  have pairs : pairs (steps ++ [(visit.node, row.get field)]) =
      pairs steps ++ [(field, row.get field)] := by
    simp [pairs, named]
  rw [pairs, forall_mem_append, forall_mem_singleton]
  exact ⟨agrees, self⟩

end

end

/-- Below steps with rows every node picks something, and only what has rows again. -/
theorem picks_inhabited (side : Side) (before : List Step)
    (living : ∃ row, row ∈ t.table.rowsWith source (pairs before)) (visit : Visit Node)
    (visited : visit ∈ (t.table.axis side).visits) (above : visit.above = before.map Prod.fst)
    (picked : List Value) (picks : (t.expansion side).Picks before visit.node picked) :
    picked ≠ [] ∧ ∀ v ∈ picked,
      ∃ row, row ∈ t.table.rowsWith source (pairs (before ++ [(visit.node, v)])) := by
  obtain ⟨row, there⟩ := living
  cases named : visit.node.field? with
  | none =>
    -- A total has the rows of the steps before it.
    rw [Expansion.Picks, named] at picks
    have same (v : Value) : pairs (before ++ [(visit.node, v)]) = pairs before := by
      simp [pairs, named]
    exact ⟨by simp [picks], fun v _ => ⟨row, by rw [same]; exact there⟩⟩
  | some field =>
    obtain ⟨⟨all, cut, values, _⟩, _⟩ :=
      lists_of_picks unranked numbers identical faithful apart visited named above picks
    refine ⟨?_, fun v member => exists_row_of_picked unranked numbers identical faithful apart
      visited named above picks member⟩
    obtain ⟨clause, built⟩ := (wellFormed_of_compile t.compiled).axis side
    rw [cut]
    exact Ranking.cut_ne_nil (Axis.limit_ne_zero_of_ofClause built (Axis.node_mem_walk visited))
      (ne_nil_of_mem ((values _).mpr ⟨row, there, rfl⟩))

/-- So nothing below a step with rows is left without headers. -/
theorem isEmpty_below {side : Side} {visit : Visit Node}
    (visited : visit ∈ (t.table.axis side).visits) {steps : List Step}
    (above : visit.above ++ [visit.node] = steps.map Prod.fst)
    (living : ∃ row, row ∈ t.table.rowsWith source (pairs steps))
    (inner : visit.below.isEmpty = false) {below : Expanded}
    (expanded : (t.expansion side).expandAt steps visit.below = .ok below) :
    below.1.isEmpty = false := by
  refine Expansion.isEmpty_expandAt
    (picks_inhabited unranked numbers identical faithful apart side) ?_ living inner expanded
  rw [← above]
  exact (Forest.visits_sublist_of_mem_visits visited).subset

/-- Headers of a table without orderings by value. At every place among the headers of a side stand
the nodes of some place on the axis. A dimension there has headers for the values that the rows with
the members above have in its field, as its ranking lists them, and none of them is dropped. -/
theorem headers_list_members (side : Side) {place : List Header × Forest Header}
    (shown : place ∈ (t.grid.headers side).places []) :
    ∃ nodes ∈ (t.table.axis side).forest.places [],
      place.1.map Header.node = nodes.1.map Node.id ∧
      (∀ header ∈ place.2.heads, header.node ∈ nodes.2.heads.map Node.id) ∧
      ∀ node ∈ nodes.2.heads, ∀ field, node.field? = some field →
        node.order.ranking.Lists
          (fun v => ∃ row ∈ t.table.rowsWith source (Header.pairs place.1), row.get field = v)
          ((place.2.heads.filter fun header => header.node == node.id).map Header.value) := by
  obtain ⟨leaves, returned⟩ := t.expandAt_headers side
  obtain ⟨steps, nodes, below, known, traces, expanded⟩ := Expansion.exists_place returned shown
  refine ⟨_, known, traces.nodes_eq, fun _ => Expansion.node_mem_of_mem_heads expanded, ?_⟩
  intro node member field named
  have within := (Forest.visits_sublist_of_mem_places known).subset
  have numbered := (Table.wellFormed_of_compile t.compiled).isNumbered side
  rw [← Forest.map_fst_trees] at member
  obtain ⟨⟨node, children⟩, there, rfl⟩ := List.mem_map.mp member
  have visited := within (Forest.visit_mem_of_mem_trees there (steps.map Prod.fst))
  -- No header of the node is dropped, as every member that it picks has rows.
  obtain ⟨picked, picks, heads⟩ := Expansion.filter_heads expanded
    (Axis.nodup_ids_heads numbered known) there (by
      intro picked picks v member below expandedBelow
      by_cases leaf : children.isEmpty = true
      · exact .inl leaf
      · exact .inr (isEmpty_below unranked numbers identical faithful apart visited (by simp)
          (exists_row_of_picked unranked numbers identical faithful apart visited named rfl picks
            member) (by simpa using leaf) expandedBelow))
  rw [heads, traces.pairs_eq]
  have values : (picked.map fun v => Header.ofStep (t.expansion side).settings steps (node, v)).map
      Header.value = picked := by
    rw [List.map_map]
    exact List.map_id picked
  rw [values]
  exact (lists_of_picks unranked numbers identical faithful apart visited named rfl picks).1

end Members

/-- The last two jobs of every town, where the job of one row is not known. -/
theorem last_jobs_of_every_town :
    let schema := Schema.ofNames ["job", "town", "year"] []
    let job : Item Binding := .dimension { name := "job", limit := some { count := -2 } }
    let year : Item Binding := .dimension { name := "year", order := "DESC" }
    let statement : Statement :=
      ⟨[[.column "town", .axis [[job], [.overall]]]], some [[year], [.overall]], none, .bool true⟩
    let source := Row.table ["job", "town", "year"] [["baker", "York", "1901"],
      ["cook", "Bath", "1901"], ["smith", "York", "1902"], [.null, "York", "1902"],
      ["cook", "York", "1903"], ["smith", "York", "1903"]]
    ∃ t : Tabulation schema {} statement source, ∃ place ∈ (t.grid.headers .rows).places [],
      place.1.map (fun header => header.value.plain) = ["York"] ∧
      place.2.heads.map (fun header => header.value.plain) = ["smith", "cook", "None"] ∧
      ∃ nodes ∈ (t.table.axis .rows).forest.places [],
        place.1.map Header.node = nodes.1.map Node.id ∧
        (∀ header ∈ place.2.heads, header.node ∈ nodes.2.heads.map Node.id) ∧
        ∀ node ∈ nodes.2.heads, ∀ field, node.field? = some field →
          node.order.ranking.Lists
            (fun v => ∃ row ∈ t.table.rowsWith source (Header.pairs place.1), row.get field = v)
            ((place.2.heads.filter fun header => header.node == node.id).map Header.value) := by
  intro schema job year statement source
  obtain ⟨t, unranked, numbers, faithful, apart, texts, place, shown, above, members⟩ :
      ∃ t : Tabulation schema {} statement source, t.table.hasPending = false ∧
        (∀ row ∈ source, ∀ field ∈ t.table.dimensionFields, (row.get field).isNan = false) ∧
        FaithfulKeys t.resolved.requests source ∧
        (∀ query ∈ t.plan.mainQueries, ∀ ref ∈ query.aggregates, ref.column ∉ query.fields) ∧
        (∀ row ∈ source, ∀ field ∈ t.table.dimensionFields,
          ((row.get field).isText || (row.get field).isNull) = true) ∧
        ∃ place ∈ (t.grid.headers .rows).places [],
          place.1.map (fun header => header.value.plain) = ["York"] ∧
          place.2.heads.map (fun header => header.value.plain) = ["smith", "cook", "None"] :=
    exists_of_run (by decide +kernel)
  have identical : ∀ field ∈ t.table.dimensionFields, ∀ a ∈ source, ∀ b ∈ source,
      (a.get field).same (b.get field) = true → a.get field = b.get field :=
    fun field dimension a first _ _ same =>
      Value.eq_of_same_text (texts a first field dimension) same
  exact ⟨t, place, shown, above, members,
    headers_list_members unranked numbers identical faithful apart .rows shown⟩

end Tabulation

end Crosstab
