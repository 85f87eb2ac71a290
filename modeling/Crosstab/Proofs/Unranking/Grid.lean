import Crosstab.Proofs.Grid.HeaderMembers
import Crosstab.Proofs.Unranking.Expansion

/-!
# Grids without some of the rankings

An ordering by value that has no limit only reorders: without it the same values stand under every
two paths.
-/
namespace Crosstab

open List ResolvedTable Unranking Expansion Table

namespace Tabulation

variable {schema : Schema} {settings : Settings} {statement : Statement} {source : List Row}
  {t : Tabulation schema settings statement source} {unranking : Side → Unranking}
  {resolved : ResolvedTable} {plan : QueryPlan} {results : Results}

/-! ### The same members -/

theorem AnsweredAsAsked.numbers_above (asked : t.AnsweredAsAsked) {side : Side} {visit : Visit Node}
    (visited : visit ∈ (t.table.axis side).visits) :
    ∀ row ∈ source.filter t.table.counts, ∀ name ∈ visit.scope,
      (row.get name).isNan = false := by
  intro row member name above
  obtain ⟨branch, inside, starts⟩ := Axis.exists_branch_of_mem_visits visited
  refine asked.numbers row (mem_filter.mp member).1 name (mem_dimensionFields inside ?_)
  exact (((prefix_append _ _).trans starts).sublist.filterMap _).subset above

section Members

variable (asked : t.AnsweredAsAsked) (unlimited : t.table.RanksUnlimited)
  (plain : t.PlainPlan unranking resolved plan results) {side : Side} {visit : Visit Node}
  {field : String} {values : Row} (visited : visit ∈ (t.table.axis side).visits)
  (named : visit.node.field? = some field)
  (usable : ∀ name ∈ visit.scope, (values.get name).hashable)

include asked

include unlimited visited named usable in
/-- A dimension that is ordered by text finds its members among the rows that count. -/
theorem foundMembers_eq_rank :
    (t.expansion side).foundMembers visit.scope visit.node field values =
      rank ((membersUnder visit.scope field values
        (source.filter t.table.counts)).map Candidate.ofMember) visit.node.order.ranking := by
  refine foundMembers_eq t.planned (asked.mainStage unlimited)
    (t.wellFormed.isNumbered side) (t.resolved_table.symm ▸ visited) named ?_ usable settings
  exact asked.numbers_above visited

include plain

include visited named usable in
private theorem foundMembers_unranked :
    (resolved.expansion plan results settings side).foundMembers visit.scope
        ((unranking side).node visit.node) field values =
      rank ((membersUnder visit.scope field values
        (source.filter t.table.counts)).map Candidate.ofMember)
        ((unranking side).node visit.node).order.ranking := by
  have visited' : visit.map (unranking side).node ∈ (resolved.table.axis side).visits := by
    rw [plain.table, axis_unranked, Axis.visits_unranked]
    exact mem_map_of_mem visited
  have above : (visit.map (unranking side).node).scope = visit.scope := fieldsOf_map _ _
  rw [← above] at usable ⊢
  refine foundMembers_eq plain.planned plain.stage (plain.wellFormed.isNumbered side)
    visited' ((field?_node _ _).trans named) ?_ usable settings
  rw [above]
  exact asked.numbers_above visited

include unlimited

include visited named usable in
/-- Below the same values a dimension has the same members, in whatever order. -/
theorem members_unranked {picked : List Value}
    (returned : (t.expansion side).members visit.scope visit.node field values =
      .ok picked) :
    (∃ picked', (resolved.expansion plan results settings side).members visit.scope
        ((unranking side).node visit.node) field values = .ok picked' ∧ picked'.Perm picked) ∧
      (picked.map Value.key?).Nodup ∧ ∀ v ∈ picked, v.hashable := by
  have unranks := (unranking side).unranks visit.node
  have selection' := plain.selection? side visit.node (Axis.node_mem_walk visited)
  rw [← (unranking side).id_node] at selection'
  have found' := foundMembers_unranked asked plain visited named usable
  cases known : t.resolved.selection? side visit.node.id with
  | some selection =>
    rw [expansion, members_of_selection known] at returned
    obtain ⟨pending, unique, hashable, members⟩ :=
      asked.members_perm unlimited visited named known returned
    refine ⟨?_, unique, hashable⟩
    by_cases kept : ((unranking side).node visit.node).isPending
    -- The ranking is kept, and with it the selection.
    · rw [if_pos kept, (unranking side).id_node, known, ← (unranking side).id_node] at selection'
      exact ⟨picked, (members_of_selection selection' _ _ _).trans returned, .refl _⟩
    -- The ranking is dropped: all members are found, and listed by their texts.
    · rw [if_neg kept] at selection'
      have order := unranks.order_of_dropped pending (Bool.eq_false_iff.mpr kept)
      obtain ⟨all, ranked, arranged, _⟩ := rank_members (membersUnder visit.scope field
        values (source.filter t.table.counts)) ((unranking side).node visit.node).order.ranking
      refine ⟨all, ?_, arranged.trans members.symm⟩
      rw [members_of_none selection', found', ranked]
      rw [order]
      rfl
  | none =>
    have text : visit.node.isPending = false :=
      isPending_eq_false (wellFormed_of_compile t.compiled) t.fixed visited known
    have same := unranks.eq_of_not_isPending text
    rw [same, text] at selection'
    rw [same] at found' ⊢
    refine ⟨⟨picked, ?_, .refl _⟩, ?_⟩
    · rw [members_of_none selection', found',
        ← foundMembers_eq_rank asked unlimited visited named usable]
      rw [expansion, members_of_none known] at returned
      exact returned
    · rcases members_eq_ok returned with ⟨selection, some, _⟩ | ⟨all, rfl, finds⟩
      · cases known.symm.trans some
      · have cut : (visit.node.order.ranking.cut all).Sublist all := Ranking.cut_sublist _ _
        exact ⟨finds.unique.sublist (cut.map _), fun v member => finds.usable v (cut.subset member)⟩

/-- The axes are expanded to the same headers and leaves. -/
theorem rearranges (side : Side) :
    (t.expansion side).Rearranges (unranking side) (t.table.axis side).visits
      (resolved.expansion plan results settings side) where
  settings := rfl
  picks before usable visit visited above picked picks := by
    unfold Expansion.Picks at picks ⊢
    rw [field?_node, map_fst_steps, fieldsOf_map, values_steps]
    cases named : visit.node.field? with
    | none =>
      simp only [named] at picks
      rw [picks]
      exact ⟨⟨[.null], rfl, .refl _⟩, nodup_singleton _, by simp [Path.hashable, Step.segment,
        named, Path.totalSegment, Value.hashable]⟩
    | some field =>
      simp only [named] at picks
      have unique := unique_fields_of_visited visited
      have hashable : ∀ name ∈ visit.scope, ((Step.values before).get name).hashable := by
        rw [Visit.scope, above]
        refine (Step.forall_values_iff ?_ (P := fun _ v => v.hashable = true)).mpr
          fun pair paired => Step.hashable_of_mem_pairs usable paired
        rw [← above]
        rw [fieldsOf, filterMap_append] at unique
        exact (nodup_append.mp unique).1
      rw [← above] at picks ⊢
      obtain ⟨arranged, once, each⟩ :=
        members_unranked asked unlimited plain visited named hashable picks
      have segments : (picked.map fun value => Step.segment (visit.node, value)) =
          picked.map fun value => (field, value) := by
        simp only [Step.segment, named]
      rw [segments]
      refine ⟨arranged, ?_, ?_⟩
      · have told := once.map (f := fun key => (field, key)) fun _ _ same => (Prod.mk.inj same).2
        rw [map_map] at told
        rw [Path.keys, map_map]
        exact told
      · rw [Path.hashable, all_map, all_eq_true]
        exact each

end Members

/-! ### The same readings -/

namespace PlainPlan

variable (plain : t.PlainPlan unranking resolved plan results)

include plain

theorem table_eq : resolved.table = t.resolved.table.unranked unranking := by
  rw [t.resolved_table, plain.table]

private theorem mem_branches {side : Side} {branch : List Node}
    (along : branch ∈ (t.resolved.table.axis side).branches) :
    branch.map (unranking side).node ∈ (resolved.table.axis side).branches := by
  rw [plain.table_eq]
  exact mem_branches_unranked.mpr ⟨branch, along, rfl⟩

end PlainPlan

section Readings

variable (asked : t.AnsweredAsAsked) (unlimited : t.table.RanksUnlimited)
  (plain : t.PlainPlan unranking resolved plan results) {row col : Leaf}
  (alongRow : row.branch ∈ (t.resolved.table.axis .rows).branches)
  (alongCol : col.branch ∈ (t.resolved.table.axis .cols).branches)

include asked unlimited plain alongRow alongCol

theorem fills_unranked {values : List CellValue}
    (fills : (t.resolved.assembly settings t.plan t.results).Fills row col values) :
    (resolved.assembly settings plan results).Fills (row.recast (unranking .rows).node)
      (col.recast (unranking .cols).node) values := by
  have alongRow' := plain.mem_branches alongRow
  have alongCol' := plain.mem_branches alongCol
  have alike : CrossesAlike _ id _ resolved row.branch col.branch
      (row.recast (unranking .rows).node).branch (col.recast (unranking .cols).node).branch :=
    crossesAlike_unranked plain.table_eq row.branch col.branch
  have served : ∀ request ∈ t.resolved.crossingRequests row.branch col.branch,
      ∀ request' ∈ resolved.crossingRequests (row.branch.map (unranking .rows).node)
        (col.branch.map (unranking .cols).node), request.SameGrouping request' →
          ServedAlike t.plan t.results plan results request request' := by
    intro request asks request' asks' same
    obtain ⟨query, records, serves⟩ := (asked.mainStage unlimited).exists_serves
      (mem_requests.mpr ⟨_, alongRow, _, alongCol, asks⟩)
    obtain ⟨query', records', serves'⟩ := plain.stage.exists_serves
      (mem_requests.mpr ⟨_, alongRow', _, alongCol', asks'⟩)
    exact ⟨congrArg sortedTexts same.fields, same.aggregates, _, query, records, query', records',
      serves, serves'⟩
  obtain ⟨values', fills', same⟩ := alike.exists_fills (R := Eq) served (fun _ => rfl) t.wellFormed
    plain.wellFormed t.planned plain.planned alongRow alongCol alongRow' alongCol'
    (fun a b => ⟨a, b⟩) (fun _ _ _ => rfl) fills
  rw [forall₂_eq_eq_eq] at same
  rw [same]
  exact fills'

end Readings

/-! ### The same grid -/

/-- The statement without some of its rankings can be tabulated, and its axes have the same headers and
leaves. -/
theorem exists_plain {plain : Statement} (asked : t.AnsweredAsAsked)
    (unlimited : t.table.RanksUnlimited)
    (compiled : compile schema settings.includeNulls plain = .ok (t.table.unranked unranking))
    (faithful : plain.PlansFaithfully schema settings source) :
    ∃ t' : Tabulation schema settings plain source,
      t.PlainPlan unranking t'.resolved t'.plan t'.results ∧
        ∀ side, ((t.expanded side).recast (unranking side).node).Rearranged (t'.expanded side) := by
  obtain ⟨discovery, found, resolved, plan, results, plans, planned⟩ :=
    exists_plainPlan asked unlimited compiled faithful
  have expands (side : Side) : ∃ expanded,
      (resolved.expansion plan results settings side).expandAxis (resolved.table.axis side) =
        .ok expanded ∧ ((t.expanded side).recast (unranking side).node).Rearranged expanded := by
    rw [planned.table, axis_unranked]
    have returned := t.expandAxis_eq side
    rw [t.resolved_table] at returned
    exact (rearranges asked unlimited planned side).exists_expandAxis returned
  obtain ⟨rows, expandedRows, rowsArranged⟩ := expands .rows
  obtain ⟨cols, expandedCols, colsArranged⟩ := expands .cols
  obtain ⟨grid, assembled⟩ := exists_assemble expandedRows expandedCols
    planned.stage.missingKeys_eq_nil (by
      intro row' inRows col' inCols
      obtain ⟨row, there, rfl⟩ := mem_map.mp (rowsArranged.leaves.mem_iff.mpr inRows)
      obtain ⟨col, there', rfl⟩ := mem_map.mp (colsArranged.leaves.mem_iff.mpr inCols)
      obtain ⟨⟨values, fills⟩, _⟩ := fills_last t.assembled t.expandedRows
        t.expandedCols there there'
      exact ⟨values, fills_unranked asked unlimited planned
        (branch_mem t.expandedRows there) (branch_mem t.expandedCols there')
        fills⟩)
  refine ⟨⟨_, discovery, found, resolved, plan, results, rows, cols, grid, compiled,
    plans.discovered, plans.explored, plans.fixed, plans.planned, planned.stage.answered,
    expandedRows, expandedCols, assembled⟩, planned, fun side => ?_⟩
  cases side with
  | rows => exact rowsArranged
  | cols => exact colsArranged

/-- Under every two paths stand the same values. -/
theorem lookup_eq_of_plain {plain : Statement} {t' : Tabulation schema settings plain source}
    (asked : t.AnsweredAsAsked) (unlimited : t.table.RanksUnlimited)
    (planned : t.PlainPlan unranking t'.resolved t'.plan t'.results)
    (arranged : ∀ side, ((t.expanded side).recast (unranking side).node).Rearranged (t'.expanded side))
    (row col : Path) : Grid.lookup t'.grid.cells row col = Grid.lookup t.grid.cells row col := by
  have lastAt (side : Side) (path : Path) : Leaf.lastAt (t'.expanded side).2 path =
      (Leaf.lastAt (t.expanded side).2 path).map (Leaf.recast (unranking side).node) := by
    rw [Leaf.lastAt_eq_getLast?, Leaf.lastAt_eq_getLast?, ← (arranged side).ordered,
      Expanded.allAt_recast, getLast?_map]
  have shown := lookup_related t.assembled t.expandedRows t.expandedCols row col
  have shown' := lookup_related t'.assembled t'.expandedRows t'.expandedCols row col
  rw [show Leaf.lastAt t'.rows.2 row = _ from lastAt .rows row,
    show Leaf.lastAt t'.cols.2 col = _ from lastAt .cols col, Leaf.crossing_map] at shown'
  have same : Option.Rel Eq (Grid.lookup t.grid.cells row col) (Grid.lookup t'.grid.cells row col) := by
    refine Assembly.Fills.rel_of_map shown shown' fun lastRow lastCol values crossed fills => ?_
    obtain ⟨inRows, inCols⟩ := Leaf.mem_of_lastCrossing crossed
    exact ⟨values, fills_unranked asked unlimited planned (branch_mem t.expandedRows inRows)
      (branch_mem t.expandedCols inCols) fills, rfl⟩
  obtain ⟨absent, absent'⟩ | ⟨_, _, present, present', rfl⟩ := cases_of_rel same
  · rw [absent, absent']
  · rw [present, present']

/-- Orderings by value without limits only reorder. Where no ordering by value has a limit, a statement
that orders some of these dimensions by their texts instead is tabulated too. The same headers stand
below the same headers, the same leaves stand on both sides, and the same values stand under every two
paths. -/
theorem unlimited_rankings_only_reorder (t : Tabulation schema settings statement source)
    (asked : t.AnsweredAsAsked) (unlimited : t.table.RanksUnlimited) {plain : Statement}
    (unranks : statement.Unranks plain)
    (faithful : plain.PlansFaithfully schema settings source) :
    ∃ t' : Tabulation schema settings plain source,
      (∀ side, (t.grid.headers side).Rearranged (t'.grid.headers side)) ∧
      t.grid.rowLeaves.Perm t'.grid.rowLeaves ∧ t.grid.colLeaves.Perm t'.grid.colLeaves ∧
      t'.grid.measures = t.grid.measures ∧
      ∀ row col, t'.grid.valuesAt row col = t.grid.valuesAt row col := by
  obtain ⟨unranking, compiled⟩ := Table.exists_compile_unranked unranks t.compiled
  obtain ⟨t', planned, arranged⟩ := exists_plain asked unlimited compiled faithful
  have paths (side : Side) :
      ((t.expanded side).2.map Leaf.path).Perm ((t'.expanded side).2.map Leaf.path) := by
    have moved := (arranged side).leaves.map Leaf.path
    rw [Expanded.recast, List.map_map] at moved
    exact moved
  obtain ⟨_, _, grid⟩ := ResolvedTable.assembled_eq t.assembled t.expandedRows t.expandedCols
  obtain ⟨_, _, grid'⟩ := ResolvedTable.assembled_eq t'.assembled t'.expandedRows t'.expandedCols
  refine ⟨t', ?_, ?_, ?_, ?_, ?_⟩
  · intro side
    rw [t.headers_eq, t'.headers_eq]
    exact (arranged side).headers
  · rw [grid, grid']
    exact paths .rows
  · rw [grid, grid']
    exact paths .cols
  · rw [grid, grid', planned.table_eq]
    rfl
  · intro row col
    rw [Grid.valuesAt_eq, Grid.valuesAt_eq, lookup_eq_of_plain asked unlimited planned arranged]

/-- Towns by their pay and years by their pay, over jobs by their highest pay: without the first two
rankings towns and years stand in the order of their texts, and jobs stay ranked within each town. -/
theorem towns_and_years_by_text :
    let schema := Schema.ofNames ["job", "town", "year"] ["pay"]
    let ranked (name aggregate : String) : Item Binding :=
      .dimension { name, order := "DESC", orderBy := some ⟨"pay", aggregate⟩ }
    let pay : Item Binding := .measure "pay" ["sum", "max"]
    let jobs : Item Binding := .axis [[ranked "job" "max"], [.overall]]
    let statement : Statement :=
      { rows := [[ranked "town" "sum", jobs, pay]], cols := some [[ranked "year" "sum"], [.overall]] }
    let plain : Statement :=
      { rows := [[.column "town", jobs, pay]], cols := some [[.column "year"], [.overall]] }
    let source := Row.table ["town", "job", "year", "pay"] [["Bath", "cook", "1901", 3],
      ["York", "clerk", "1902", 5], ["York", "smith", "1901", 4], ["York", "cook", "1902", 6],
      ["Bath", "smith", "1902", 4]]
    let leaves := ["town=York / job=cook", "town=York / job=clerk", "town=York / job=smith",
      "town=York / ALL", "town=Bath / job=smith", "town=Bath / job=cook", "town=Bath / ALL"]
    ∃ t : Tabulation schema {} statement source, ∃ t' : Tabulation schema {} plain source,
      t.grid.rowLeaves.map Path.label = leaves ∧
      (Tabulation.run schema {} plain source).toOption.map
          (fun t => t.grid.rowLeaves.map Path.label) =
        some ["town=Bath / job=smith", "town=Bath / job=cook", "town=Bath / ALL",
          "town=York / job=cook", "town=York / job=clerk", "town=York / job=smith",
          "town=York / ALL"] ∧
      (∀ side, (t.grid.headers side).Rearranged (t'.grid.headers side)) ∧
      t.grid.rowLeaves.Perm t'.grid.rowLeaves ∧ t.grid.colLeaves.Perm t'.grid.colLeaves ∧
      t'.grid.measures = t.grid.measures ∧
      ∀ row col, t'.grid.valuesAt row col = t.grid.valuesAt row col := by
  intro schema ranked pay jobs statement plain source leaves
  obtain ⟨t, asked, unlimited, labels⟩ : ∃ t : Tabulation schema {} statement source,
      t.AnsweredAsAsked ∧ t.table.RanksUnlimited ∧ t.grid.rowLeaves.map Path.label = leaves :=
    exists_of_run (by decide +kernel)
  obtain ⟨p, keys, columns⟩ : ∃ p : Tabulation schema {} plain source,
      FaithfulKeys p.resolved.requests source ∧
      ∀ query ∈ p.plan.mainQueries, query.columns.Nodup :=
    exists_of_run (by decide +kernel)
  have unranks : statement.Unranks plain :=
    ⟨.cons (.cons (.dimension rfl rfl) (.cons (.same _) (.cons (.same _) .nil))) .nil,
      .some (.cons (.cons (.dimension rfl rfl) .nil) (.cons (.cons (.same _) .nil) .nil)), rfl, rfl⟩
  obtain ⟨t', same⟩ := unlimited_rankings_only_reorder t asked unlimited unranks
    (Statement.plansFaithfully_of_tabulation p keys columns)
  exact ⟨t, t', labels, by decide +kernel, same⟩

end Tabulation

end Crosstab
