import Crosstab.Proofs.Transposition.Plan

/-!
# Headers and leaves on the other side

A dimension finds its members in the same answers on either side, so an axis is expanded to the same
headers and leaves.
-/
namespace Crosstab

open List ResolvedTable Outcome Node

/-- Members of a dimension that is ordered by text are told apart by their texts, below whatever values
of the fields above; null has a place of its own. -/
def Table.TextsApart (table : Table) (source : List Row) : Prop :=
  ∀ side, ∀ visit ∈ (table.axis side).visits, visit.node.isPending = false →
    ∀ field, visit.node.field? = some field → ∀ values : Row,
      ∀ a ∈ source.filter table.counts, ∀ b ∈ source.filter table.counts,
        a.Under visit.scope values → b.Under visit.scope values →
          (a.get field).isNull = false → (b.get field).isNull = false →
            (a.get field).plain = (b.get field).plain → a.get field = b.get field

theorem Table.textsApart_of_isText {table : Table} {source : List Row}
    (texts : ∀ row ∈ source, ∀ field ∈ table.dimensionFields, (row.get field).isText) :
    table.TextsApart source := by
  intro side visit visited _ field named values a first b second _ _ _ _ same
  have dimension := mem_dimensionFields_of_visit visited named
  exact Value.eq_of_plain_eq (texts a (mem_filter.mp first).1 field dimension)
    (texts b (mem_filter.mp second).1 field dimension) same

/-- Where equal keys are identical, the same values leave the same distinct values. -/
theorem Value.distinct_perm_of_mem_iff {values others : List Value}
    (usable : ∀ v ∈ values, v.hashable)
    (identical : ∀ a ∈ values, ∀ b ∈ values, a.sameKey b → a = b)
    (same : ∀ v, v ∈ others ↔ v ∈ values) : (distinct values).Perm (distinct others) := by
  have kept {list : List Value} (same : ∀ v, v ∈ list ↔ v ∈ values) :
      (distinct list).Nodup ∧ ∀ v, v ∈ distinct list ↔ v ∈ values := by
    have usable' : ∀ v ∈ list, v.hashable := fun v member => usable v ((same v).mp member)
    refine ⟨(nodup_keys_distinct usable').of_map, fun v => ⟨fun member => ?_, fun member => ?_⟩⟩
    · exact (same v).mp (mem_of_mem_distinct member)
    · obtain ⟨first, there, alike⟩ := exists_mem_distinct ((same v).mpr member) (usable v member)
      have equal := identical first ((same first).mp (mem_of_mem_distinct there)) v member alike
      exact equal ▸ there
  obtain ⟨unique, member⟩ := kept fun _ => Iff.rfl
  obtain ⟨unique', member'⟩ := kept same
  rw [perm_ext_iff_of_nodup unique unique']
  exact fun v => (member v).trans (member' v).symm

/-- What the rows of a node say is what the answers of its crossings say. -/
theorem ResolvedTable.mem_columnUnder_nodeRows {resolved : ResolvedTable} {plan : QueryPlan}
    {results : Results} (planned : resolved.plan = .ok plan) {side : Side} {id : Nat}
    {above : List String} {field : String} {values : Row} {v : Value} :
    v ∈ columnUnder above field values (nodeRows resolved.table plan results side id) ↔
      ∃ branch ∈ (resolved.table.axis side).branches, ∃ other ∈
        (resolved.table.axis side.other).branches, ∃ records, id ∈ branch.map Node.id ∧
          results.lookup (resolved.crossRequest side branch other).key = some records ∧
          v ∈ columnUnder above field values records := by
  simp only [mem_columnUnder, mem_nodeRows planned]
  constructor
  · rintro ⟨record, ⟨branch, inside, other, across, records, through, looked, there⟩, under, told⟩
    exact ⟨branch, inside, other, across, records, through, looked, record, there, under, told⟩
  · rintro ⟨branch, inside, other, across, records, through, looked, record, there, under, told⟩
    exact ⟨record, ⟨branch, inside, other, across, records, through, looked, there⟩, under, told⟩

namespace Tabulation

variable {schema : Schema} {settings : Settings} {statement : Statement} {source : List Row}
  {t : Tabulation schema settings statement source} {newName : Equiv.Perm String}
  {resolved : ResolvedTable} {plan : QueryPlan} {results : Results}

/-! ### Members -/

namespace TurnedPlan

variable (turned : t.TurnedPlan newName resolved plan results)

include turned

variable {side : Side} {branch other : List Node} {visit : Visit Node} {field : String}

theorem mem_branches (along : branch ∈ (t.resolved.table.axis side).branches) :
    branch.map (renamed newName) ∈ (resolved.table.axis side.other).branches := by
  rw [turned.turns.table]
  exact Table.mem_branches_turned.mpr ⟨branch, by rwa [Side.other_other], rfl⟩

private theorem exists_of_mem_branches {branch' : List Node}
    (along : branch' ∈ (resolved.table.axis side.other).branches) :
    ∃ branch ∈ (t.resolved.table.axis side).branches, branch.map (renamed newName) = branch' := by
  rw [turned.turns.table, Table.mem_branches_turned, Side.other_other] at along
  exact along

private theorem asksSame_cellRequest {rowBranch colBranch : List Node}
    (alongRow : rowBranch ∈ (t.resolved.table.axis .rows).branches)
    (alongCol : colBranch ∈ (t.resolved.table.axis .cols).branches) :
    (t.resolved.cellRequest rowBranch colBranch).AsksSame source
      (resolved.cellRequest (colBranch.map (renamed newName)) (rowBranch.map (renamed newName))) :=
  turned.turns.asksSame_cellRequest newName.injective turned.oneSided t.resolved_filter_evaluated
    alongRow alongCol

/-- A crossing asks for the same, whichever of its branches is the row. -/
theorem asksSame_crossRequest (inside : branch ∈ (t.resolved.table.axis side).branches)
    (across : other ∈ (t.resolved.table.axis side.other).branches) :
    (t.resolved.crossRequest side branch other).AsksSame source
      (resolved.crossRequest side.other (branch.map (renamed newName))
        (other.map (renamed newName))) := by
  cases side with
  | rows => exact turned.asksSame_cellRequest inside across
  | cols => exact turned.asksSame_cellRequest across inside

variable (asked : t.AnsweredAsAsked)

include asked

theorem exists_serves {request request' : QueryRequest} (requested : request ∈ t.resolved.requests)
    (requested' : request' ∈ resolved.requests) (same : request.AsksSame source request') :
    ∃ selected query records query' records',
      Serves selected t.plan.mainQueries t.results request query records ∧
        Serves selected plan.mainQueries results request' query' records' := by
  obtain ⟨selected, selects, selects'⟩ := same.selects
  obtain ⟨query, records, serves⟩ := asked.answeredBy.exists_serves requested (filterM_eq_ok selects).2
  obtain ⟨query', records', serves'⟩ := turned.stage.exists_serves requested' (filterM_eq_ok selects').2
  exact ⟨selected, query, records, query', records', serves, serves'⟩

/-- The answers to a crossing tell the same about the fields of its branches. -/
theorem exists_agreeing (inside : branch ∈ (t.resolved.table.axis side).branches)
    (across : other ∈ (t.resolved.table.axis side.other).branches) :
    ∃ records records',
      t.results.lookup (t.resolved.crossRequest side branch other).key = some records ∧
      results.lookup (resolved.crossRequest side.other (branch.map (renamed newName))
        (other.map (renamed newName))).key = some records' ∧
      List.Forall₂ (Row.AgreeOn (fieldsOf branch)) records records' := by
  have same := turned.asksSame_crossRequest inside across
  obtain ⟨_, query, records, query', records', serves, serves'⟩ := turned.exists_serves asked
    (crossRequest_mem inside across)
    (crossRequest_mem (turned.mem_branches inside) (turned.mem_branches across)) same
  refine ⟨records, records', serves.looked, serves'.looked, ?_⟩
  refine (serves.agree same.fields same.aggregates serves').imp fun _ _ agree field along => ?_
  refine agree field (mem_append_left _ ?_)
  rw [serves.mem_fields, mem_fields_crossRequest]
  exact .inl along

/-- So the rows of a node say the same values, in whatever order. -/
theorem mem_columnUnder_iff (visited : visit ∈ (t.resolved.table.axis side).visits)
    (named : visit.node.field? = some field) (values : Row) (v : Value) :
    v ∈ columnUnder visit.scope field values
        (nodeRows resolved.table plan results side.other visit.node.id) ↔
      v ∈ columnUnder visit.scope field values
        (nodeRows t.resolved.table t.plan t.results side visit.node.id) := by
  have numbered := t.wellFormed.isNumbered side
  have told {branch other : List Node} (inside : branch ∈ (t.resolved.table.axis side).branches)
      (across : other ∈ (t.resolved.table.axis side.other).branches)
      (through : visit.node.id ∈ branch.map Node.id) : ∃ records records',
        t.results.lookup (t.resolved.crossRequest side branch other).key = some records ∧
        results.lookup (resolved.crossRequest side.other (branch.map (Node.renamed newName))
          (other.map (Node.renamed newName))).key = some records' ∧
        columnUnder visit.scope field values records =
          columnUnder visit.scope field values records' := by
    obtain ⟨records, records', looked, looked', agree⟩ := turned.exists_agreeing asked inside across
    refine ⟨records, records', looked, looked', Source.columnUnder_congr (agree.imp ?_)⟩
    -- The branch starts with all nodes down to this one.
    have starts := Axis.prefix_of_mem_branch numbered visited inside through
    intro _ _ agree name listed
    refine agree name ((starts.sublist.filterMap _).subset ?_)
    simpa [fieldsOf, named] using listed
  have ids (branch : List Node) :
      (branch.map (Node.renamed newName)).map Node.id = branch.map Node.id := by
    rw [map_map]
    rfl
  rw [mem_columnUnder_nodeRows turned.planned, mem_columnUnder_nodeRows t.planned]
  constructor
  · rintro ⟨branch', inside', other', across', records', through, looked', inColumn⟩
    obtain ⟨branch, inside, rfl⟩ := turned.exists_of_mem_branches inside'
    obtain ⟨other, across, rfl⟩ := turned.exists_of_mem_branches across'
    rw [ids] at through
    obtain ⟨records, others, looked, lookedToo, same⟩ := told inside across through
    cases looked'.symm.trans lookedToo
    exact ⟨branch, inside, other, across, records, through, looked, same ▸ inColumn⟩
  · rintro ⟨branch, inside, other, across, records, through, looked, inColumn⟩
    obtain ⟨others, records', lookedToo, looked', same⟩ := told inside across through
    cases looked.symm.trans lookedToo
    refine ⟨_, turned.mem_branches inside, _, turned.mem_branches across, records', ?_, looked',
      same ▸ inColumn⟩
    rwa [ids]

variable (identical : IdenticalIn t.table.dimensionFields source)
  (apart : t.table.TextsApart source)

include identical apart

/-- A dimension that is ordered by text lists the same members in the same order. -/
theorem foundMembers_eq (visited : visit ∈ (t.table.axis side).visits)
    (named : visit.node.field? = some field) (text : visit.node.isPending = false) (values : Row) :
    (resolved.expansion plan results settings side.other).foundMembers visit.scope
        (visit.node.renamed newName) field values =
      (t.expansion side).foundMembers visit.scope visit.node field values := by
  have same (v : Value) :=
    turned.mem_columnUnder_iff asked (t.resolved_table.symm ▸ visited) named values v
  -- Whatever the rows of the node say, some row of the source says it below the same values.
  have drawn : ∀ v ∈ columnUnder visit.scope field values
      (nodeRows t.resolved.table t.plan t.results side visit.node.id),
        ∃ row ∈ source.filter t.table.counts, row.Under visit.scope values ∧
          row.get field = v := by
    intro v member
    obtain ⟨record, there, under, rfl⟩ := mem_columnUnder.mp member
    obtain ⟨row, listed, counted, agrees⟩ :=
      t.exists_row_of_mem_nodeRows asked.keys asked.apart visited named there
    rw [fieldsOf, filterMap_append] at agrees
    refine ⟨row, mem_filter.mpr ⟨listed, counted⟩, fun name above => ?_, ?_⟩
    · rw [agrees name (mem_append_left _ above)]
      exact under name above
    · exact agrees field (mem_append_right _ (by simp [named]))
  have dimension := mem_dimensionFields_of_visit visited named
  have hashable : (columnUnder visit.scope field values
        (nodeRows resolved.table plan results side.other visit.node.id)).all Value.hashable =
      (columnUnder visit.scope field values
        (nodeRows t.resolved.table t.plan t.results side visit.node.id)).all Value.hashable := by
    rw [Bool.eq_iff_iff, all_eq_true, all_eq_true]
    exact forall_congr' fun v => by rw [same v]
  show (if (columnUnder _ field values (nodeRows resolved.table plan results side.other
    visit.node.id)).all _ then _ else _) = if (columnUnder _ field values (nodeRows t.resolved.table
      t.plan t.results side visit.node.id)).all _ then _ else _
  rw [hashable]
  split
  next usable =>
    rw [all_eq_true] at usable
    refine (Candidate.rank_ofMember_eq_of_perm ?_ (Value.distinct_perm_of_mem_iff usable ?_ same)
      visit.node.order.ranking).symm
    · intro v first w second present present' texts
      obtain ⟨a, listed, under, rfl⟩ := drawn v (Value.mem_of_mem_distinct first)
      obtain ⟨b, listed', under', rfl⟩ := drawn w (Value.mem_of_mem_distinct second)
      exact apart side visit visited text field named values a listed b listed' under under' present
        present' texts
    · intro v first w second alike
      obtain ⟨a, listed, _, rfl⟩ := drawn v first
      obtain ⟨b, listed', _, rfl⟩ := drawn w second
      exact identical a (mem_filter.mp listed).1 b (mem_filter.mp listed').1 field dimension
        alike
  · rfl

private theorem members_eq (visited : visit ∈ (t.table.axis side).visits)
    (named : visit.node.field? = some field) (values : Row) :
    (resolved.expansion plan results settings side.other).members visit.scope
        (visit.node.renamed newName) field values =
      (t.expansion side).members visit.scope visit.node field values := by
  have selection' : resolved.selection? side.other (visit.node.renamed newName).id =
      t.resolved.selection? side visit.node.id := by
    rw [turned.turns.selection?_eq, Side.other_other]
    rfl
  rw [expansion]
  cases known : t.resolved.selection? side visit.node.id with
  -- Members that were fixed were fixed before the sides matter.
  | some selection =>
    rw [members_of_selection known, members_of_selection (selection'.trans known)]
  | none =>
    have text :=
      Table.isPending_eq_false (Table.wellFormed_of_compile t.compiled) t.fixed visited known
    rw [members_of_none known, members_of_none (selection'.trans known)]
    exact turned.foundMembers_eq asked identical apart visited named text values

/-- Each side is expanded to what the other side was. -/
theorem expandAxis_eq (side : Side) :
    (resolved.expansion plan results settings side).expandAxis (resolved.table.axis side) =
      .ok ((t.expanded side.other).recast (renamed newName)) := by
  have returned := t.expandAxis_eq side.other
  rw [t.resolved_table] at returned
  rw [turned.turns.table, t.resolved_table, Table.axis_turned]
  have same := Expansion.expandAxis_recast (a := t.expansion side.other)
    (b := resolved.expansion plan results settings side) (recasts_renamed newName) rfl
    (rfl : ((t.table.axis side.other).renamed newName).forest = _) ?_
  · obtain ⟨_, expanded, rfl⟩ := same.exists_of_ok returned
    exact expanded
  · intro visit visited field named values
    have members := turned.members_eq asked identical apart visited named values
    rwa [Side.other_other] at members

end TurnedPlan

end Tabulation

end Crosstab
