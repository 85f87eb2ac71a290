import Crosstab.Proofs.Discovery
import Crosstab.Proofs.Grid.BranchLeaves
import Crosstab.Proofs.Grid.CellAggregates
import Crosstab.Proofs.Grid.NodeRows

/-!
# Branches without limits

Below a leaf of the other side, the members that an unlimited node picks take the rows apart, and so
do the leaves of an unlimited branch.
-/
namespace Crosstab

open List Table Step Value Expansion

/-- Members that take rows apart by their values in a field. -/
structure TakesApart (field : String) (rows : List Row) (members : List Value) : Prop where
  usable : ∀ v ∈ members, v.hashable = true
  unique : (members.map key?).Nodup
  covers : ∀ row ∈ rows, (row.get field).key? ∈ members.map key?

private theorem TakesApart.sum_eq {field : String} {rows : List Row} {members : List Value}
    (apart : TakesApart field rows members) (weight : Row → Int) :
    (members.map fun v =>
      ((rows.filter fun row => (row.get field).key? = v.key?).map weight).sum).sum =
        (rows.map weight).sum := by
  have parts := perm_flatMap_filter apart.unique apart.covers
  rw [← (parts.map weight).sum_eq, flatMap_map]
  clear parts apart
  induction members with
  | nil => rfl
  | cons v members ih => simp [flatMap_cons, ih]

/-- What the rows with given members weigh together. -/
def Table.weigh (table : Table) (source : List Row) (weight : Row → Int)
    (pairs : List (String × Value)) : Int :=
  ((table.rowsWith source pairs).map weight).sum

/-! ### Members fixed by discovery -/

namespace Table.Explored

variable {table : Table} {source : List Row} {visit : Visit Node} {field : String}
  {ref : MeasureRef} {query : GroupingQuery} {matched records : List Row}

  (explored : table.Explored source visit field ref query matched records)

include explored

theorem usable_member {row : Row} (there : row ∈ matched) : (row.get field).hashable := by
  have own := (explored.grouped field).mpr (.inr rfl)
  exact all_eq_true.mp (explored.tells.usable row there) _ (mem_map_of_mem own)

variable {selection : Selection} {parent picked : List Value}

theorem hashable_of_members (made : Selection.ofRows visit field ref records = .ok selection)
    (under : selection.members parent = .ok picked) : ∀ v ∈ picked, v.hashable := by
  intro v member
  obtain ⟨_, ⟨rfl, _⟩ | ⟨entry, known, _, rfl⟩⟩ := Selection.members_eq_ok under
  · cases member
  · obtain ⟨ranked, cut, _, stand⟩ := (explored.fixes_of_ofRows made).members entry known
    rw [cut] at member
    have among : v ∈ ranked.map Prod.fst := (Ranking.cut_sublist _ _).subset member
    obtain ⟨c, listed, rfl⟩ := mem_map.mp among
    obtain ⟨row, there, value⟩ := stand.drawn c listed
    obtain ⟨listed, counted, _⟩ := mem_rowsWith.mp there
    rw [← value]
    exact explored.usable_member (explored.mem_matched.mpr ⟨listed, counted⟩)

/-- Without a limit the members fixed under a parent take its rows apart. -/
theorem takesApart (made : Selection.ofRows visit field ref records = .ok selection)
    (unlimited : visit.node.order.limit = none) (under : selection.members parent = .ok picked)
    {rows : List Row}
    (within : ∀ row ∈ rows, row ∈ matched ∧
      (row.project visit.scope).map key? = parent.map key?) :
    TakesApart field rows picked := by
  have fixes := explored.fixes_of_ofRows made
  have usable := explored.hashable_of_members made under
  obtain ⟨usableParent, ⟨rfl, unknown⟩ | ⟨entry, known, same, rfl⟩⟩ := Selection.members_eq_ok under
  · refine ⟨usable, by simp, ?_⟩
    -- A row would be under a parent that was fixed, so there is none.
    intro row member
    obtain ⟨there, above⟩ := within row member
    obtain ⟨listed, counted⟩ := explored.mem_matched.mp there
    have same := (sameKeys_iff (explored.usable_row there)).mpr above
    obtain ⟨entry, known, sameParent⟩ := (fixes.parents parent).mpr ⟨row, listed, counted, same⟩
    exact absurd sameParent (by simp [unknown entry known])
  · obtain ⟨ranked, cut, _, stand⟩ := fixes.members entry known
    have whole : entry.2 = ranked.map Prod.fst := by
      rw [cut]
      exact Ranking.cut_eq_self unlimited _
    have usableEntry := all_hashable_of_sameKeys same usableParent
    rw [sameKeys_iff usableEntry] at same
    refine ⟨usable, ?_, ?_⟩
    · rw [whole, map_map]
      exact stand.once
    · intro row member
      obtain ⟨there, above⟩ := within row member
      have lengths : visit.scope.length = entry.1.length := by
        have counted := congrArg List.length (above.trans same.symm)
        simpa [Row.project] using counted
      obtain ⟨c, listed, alike⟩ := stand.covers row
        ((explored.mem_rowsUnder usableEntry lengths).mpr ⟨there, above.trans same.symm⟩)
      have usableMember := hashable_of_sameKey alike (explored.usable_member there)
      rw [whole, ← (sameKey_iff usableMember).mp alike, map_map]
      exact mem_map_of_mem listed

end Table.Explored

namespace Tabulation

variable {schema : Schema} {settings : Settings} {statement : Statement} {source : List Row}
  {t : Tabulation schema settings statement source}

/-- The queries of both stages are answered as asked: keys are faithful and columns distinct, and
dimensions hold what can be told apart. -/
@[mk_iff]
structure AnsweredAsAsked (t : Tabulation schema settings statement source) : Prop where
  keys : FaithfulKeys t.resolved.requests source
  columns : ∀ query ∈ t.plan.mainQueries, query.columns.Nodup
  rankingKeys : FaithfulKeys
    (t.table.pendingVisits.map fun entry => t.table.rankingRequest entry.2) source
  rankingColumns : ∀ query ∈ t.discovery.queries, query.columns.Nodup
  numbers : ∀ row ∈ source, ∀ field ∈ t.table.dimensionFields, (row.get field).isNan = false

instance (t : Tabulation schema settings statement source) : Decidable t.AnsweredAsAsked :=
  decidable_of_iff' _ (answeredAsAsked_iff t)

namespace AnsweredAsAsked

variable (asked : t.AnsweredAsAsked)

include asked

theorem answeredBy : AnsweredBy source t.resolved.requests t.plan.mainQueries t.results :=
  ⟨t.answers, asked.keys, asked.columns, t.executed⟩

theorem apart : ∀ query ∈ t.plan.mainQueries, ∀ ref ∈ query.aggregates,
    ref.column ∉ query.fields := fun query member =>
  Source.column_not_mem_fields (asked.columns query member)

variable {selection : Selection} {field : String} {row : Row} {picked : List Value}

/-- Members that were fixed for a node were ranked from an answer of discovery. -/
theorem exists_explored (inside : node ∈ (t.table.axis side).forest.walk)
    (known : t.resolved.selection? side node.id = some selection) :
    ∃ visit ∈ (t.table.axis side).visits, visit.node = node ∧
      ∃ field ref query matched records, node.field? = some field ∧
        t.table.Explored source visit field ref query matched records ∧
        Selection.ofRows visit field ref records = .ok selection := by
  have wellFormed := wellFormed_of_compile t.compiled
  obtain ⟨visit, pending, same, made⟩ := visit_of_selection? wellFormed t.fixed inside known
  obtain ⟨field, ref, named, ordered⟩ := Table.exists_of_isPending (mem_filter.mp pending).2
  obtain ⟨query, matched, records, explored, ranked⟩ := Table.exists_explored wellFormed
    t.discovered t.explored asked.rankingKeys asked.rankingColumns asked.numbers pending named
    ordered
  exact ⟨visit, (mem_filter.mp pending).1, same, field, ref, query, matched, records,
    same ▸ named, explored, ranked.symm.trans made⟩

private theorem hashable_of_members (inside : node ∈ (t.table.axis side).forest.walk)
    {above : List String} {values : Row} {members : List Value}
    (returned : (t.expansion side).members above node field values = .ok members) :
    ∀ v ∈ members, v.hashable := by
  intro v member
  rcases members_eq_ok returned with ⟨selection, known, under⟩ | ⟨all, rfl, finds⟩
  · obtain ⟨visit, _, _, name, ref, query, matched, records, _, explored, ranked⟩ :=
      asked.exists_explored inside known
    exact explored.hashable_of_members ranked under v member
  · exact finds.usable v ((Ranking.cut_sublist _ _).subset member)

theorem exists_reaches {leaf : Leaf} (member : leaf ∈ (t.expanded side).2) :
    ∃ steps, leaf = .ofSteps steps ∧ t.Reaches side steps := by
  obtain ⟨steps, along, climbed, rfl⟩ := exists_steps (t.expandAxis_eq side) member
  rw [t.resolved_table] at along
  refine ⟨steps, rfl, along, climbed, ?_⟩
  rw [Path.hashable, all_eq_true]
  intro segment listed
  obtain ⟨step, taken, rfl⟩ := mem_map.mp listed
  unfold Step.segment
  cases named : step.1.field? with
  | none => rfl
  | some field =>
    obtain ⟨before, allowed⟩ := climbed.allows_of_mem taken
    obtain ⟨members, returned, picked⟩ := allowed field named
    have walked := Axis.mem_walk_of_mem_branch along (mem_map_of_mem taken)
    exact asked.hashable_of_members walked returned step.2 picked

/-- Every row that counts has one of the members fixed for a node without a limit. -/
theorem member_holds (inside : node ∈ (t.table.axis side).forest.walk)
    (unlimited : node.order.limit = none)
    (known : t.resolved.selection? side node.id = some selection) (listed : row ∈ source)
    (counted : t.table.counts row) :
    Filter.holds row (.member selection.field selection.allMembers) = .ok true := by
  obtain ⟨visit, _, rfl, field, ref, query, matched, records, named, explored, ranked⟩ :=
    asked.exists_explored inside known
  have there := explored.mem_matched.mpr ⟨listed, counted⟩
  -- The members under its own values above take the row apart, so it has one of them.
  obtain ⟨picked, under⟩ : ∃ picked,
      selection.members (row.project visit.scope) = .ok picked := by
    rw [Selection.members, if_pos (explored.usable_row there)]
    exact ⟨_, rfl⟩
  have takes : TakesApart field [row] picked :=
    explored.takesApart ranked unlimited under (by simp [there])
  obtain ⟨v, member, key⟩ := mem_map.mp (takes.covers row mem_cons_self)
  have usable := takes.usable v member
  obtain ⟨kept, among, same⟩ := Selection.exists_mem_allMembers under member usable
  have fieldOf := field_of_selection? (wellFormed_of_compile t.compiled) t.fixed inside
    known
  cases named.symm.trans fieldOf
  rw [Filter.holds, any_eq_true.mpr ⟨kept, among, ?_⟩]
  have usableKept := hashable_of_sameKey same usable
  rw [sameKey_iff usableKept] at same ⊢
  exact same.trans key

variable {side : Side} {branch : List Node} (inside : branch ∈ (t.table.axis side).branches)
  (unlimited : ∀ node ∈ branch, node.order.limit = none)

include inside unlimited

/-- Every row that counts has fixed members along an unlimited branch. -/
theorem memberFilters_hold (listed : row ∈ source) (counted : t.table.counts row) :
    ∀ filter ∈ t.resolved.memberFilters side branch, Filter.holds row filter = .ok true := by
  intro filter stated
  obtain ⟨node, along, made⟩ := mem_filterMap.mp stated
  obtain ⟨selection, known, rfl⟩ := Option.map_eq_some_iff.mp made
  exact asked.member_holds (Axis.mem_walk_of_mem_branch inside along) (unlimited node along) known
    listed counted

variable {kept before : List Step} {node : Node} (reaches : t.Reaches side.other kept)

include reaches

section

variable (starts : before.map Prod.fst ++ [node] <+: branch)
  (usable : ∀ pair ∈ pairs before, pair.2.hashable = true)

include starts usable

omit unlimited in
/-- Rows with the members of a leaf and of some steps have them as keys. -/
theorem keys_of_mem_rowsWith (member : row ∈ t.table.rowsWith source (pairs kept ++ pairs before)) :
    row ∈ source ∧ t.table.counts row ∧ (∀ pair ∈ pairs kept, (row.get pair.1).key? = pair.2.key?) ∧
      ∀ name ∈ fieldsOf (before.map Prod.fst),
        (row.get name).key? = ((values before).get name).key? := by
  have passed : (fieldsOf (before.map Prod.fst)).Sublist (fieldsOf branch) :=
    ((prefix_append _ _).trans starts).sublist.filterMap _
  have unique := (nodup_fieldsOf_branch (discover_eq_ok t.discovered).1 inside).sublist
    passed
  obtain ⟨listed, counted, agrees⟩ := mem_rowsWith.mp member
  obtain ⟨agreesKept, agreesBefore⟩ := forall_mem_append.mp agrees
  refine ⟨listed, counted, ?_, ?_⟩
  · intro pair paired
    have number := reaches.numbers asked.numbers row listed pair paired
    exact (same_iff_key?_eq number (reaches.usable_pairs pair paired)).mp
      (agreesKept pair paired)
  · refine (forall_values_iff unique (P := fun name v => (row.get name).key? = v.key?)).mpr ?_
    intro pair paired
    have known : pair.1 ∈ fieldsOf (before.map Prod.fst) := by
      rw [← map_fst_pairs]
      exact mem_map_of_mem paired
    have number := asked.numbers row listed pair.1
      (mem_dimensionFields inside (passed.subset known))
    exact (same_iff_key?_eq number (usable pair paired)).mp (agreesBefore pair paired)

private theorem takesApart_of_selection (named : node.field? = some field)
    (known : t.resolved.selection? side node.id = some selection)
    (under : selection.members
      ((fieldsOf (before.map Prod.fst)).map (values before).get) = .ok picked) :
    TakesApart field (t.table.rowsWith source (pairs kept ++ pairs before)) picked := by
  have along : node ∈ branch := starts.subset (by simp)
  obtain ⟨visit, visited, above, rfl⟩ := Axis.exists_visit_of_prefix inside starts
  obtain ⟨other, there, same, name, ref, query, matched, records, ownName, explored, ranked⟩ :=
    asked.exists_explored (Axis.mem_walk_of_mem_branch inside along) known
  cases named.symm.trans ownName
  -- Numbers tell nodes apart, so discovery visited the node at the same place.
  have numbered := (wellFormed_of_compile t.compiled).isNumbered side
  cases inj_on_of_nodup_map (Axis.nodup_ids_visits numbered) there visited
    (congrArg Node.id same)
  refine explored.takesApart ranked (unlimited _ along) under ?_
  intro row member
  obtain ⟨listed, counted, _, agrees⟩ :=
    asked.keys_of_mem_rowsWith inside reaches starts usable member
  refine ⟨explored.mem_matched.mpr ⟨listed, counted⟩, ?_⟩
  rw [Row.project, map_map, map_map, Visit.scope, above]
  exact map_congr_left agrees

private theorem takesApart_of_finds (named : node.field? = some field) {all : List Value}
    (finds : (t.expansion side).Finds (fieldsOf (before.map Prod.fst)) node field
      (values before) all) :
    TakesApart field (t.table.rowsWith source (pairs kept ++ pairs before)) all := by
  refine ⟨finds.usable, finds.unique, ?_⟩
  intro row member
  obtain ⟨listed, counted, agreesKept, agrees⟩ :=
    asked.keys_of_mem_rowsWith inside reaches starts usable member
  have fields : fieldsOf (before.map Prod.fst ++ [node]) =
      fieldsOf (before.map Prod.fst) ++ [field] := by simp [fieldsOf, named]
  have down {name : String} (among : name ∈ fieldsOf (before.map Prod.fst) ++ [field]) :
      name ∈ fieldsOf branch := by
    rw [← fields] at among
    exact (starts.sublist.filterMap _).subset among
  -- The row is told by the answer for the crossing with the leaf.
  obtain ⟨record, told, alike⟩ := t.exists_mem_nodeRows asked.keys asked.apart inside reaches.along
    listed counted (asked.memberFilters_hold inside unlimited listed counted)
    (reaches.narrowed agreesKept) (starts.subset (by simp) : node ∈ branch)
  obtain ⟨visit, visited, above, rfl⟩ := Axis.exists_visit_of_prefix inside starts
  obtain ⟨drawn, known, _, values⟩ :=
    t.exists_row_of_mem_nodeRows asked.keys asked.apart visited named told
  rw [above, fields] at values
  rw [← (alike field (down (by simp))).2]
  apply finds.covers record told
  intro name among
  have passed := mem_append_left [field] among
  have number : (record.get name).isNan = false := by
    rw [← values name passed]
    exact asked.numbers drawn known name (mem_dimensionFields inside (down passed))
  obtain ⟨usableRecord, sameKey⟩ := alike name (down passed)
  have same := sameKey.trans (agrees name among)
  rw [hashable_eq_of_key?_eq same] at usableRecord
  exact (same_iff_key?_eq number usableRecord).mpr same

/-- Below a leaf of the other side, what an unlimited dimension picks takes the rows apart. -/
theorem takesApart_of_picks (named : node.field? = some field)
    (picks : (t.expansion side).Picks before node picked) :
    TakesApart field (t.table.rowsWith source (pairs kept ++ pairs before)) picked := by
  unfold Expansion.Picks at picks
  rw [named] at picks
  rcases members_eq_ok picks with ⟨selection, known, under⟩ | ⟨all, rfl, finds⟩
  · exact asked.takesApart_of_selection inside unlimited reaches starts usable named known under
  · have whole : node.order.ranking.cut all = all :=
      Ranking.cut_eq_self (unlimited node (starts.subset (by simp))) all
    rw [whole]
    exact asked.takesApart_of_finds inside unlimited reaches starts usable named finds

/-! ### Weights of rows -/

/-- So the rows below a leaf of the other side are shared out among the picks of an unlimited
node. -/
theorem shares_of_picks (weight : Row → Int) (picks : (t.expansion side).Picks before node picked) :
    (∀ v ∈ picked, ∀ pair ∈ pairs (before ++ [(node, v)]), pair.2.hashable) ∧
      (picked.map fun v =>
        t.table.weigh source weight (pairs kept ++ pairs (before ++ [(node, v)]))).sum =
          t.table.weigh source weight (pairs kept ++ pairs before) := by
  cases named : node.field? with
  | none =>
    -- A total is picked once and has the rows of the steps before it.
    have same (v : Value) : pairs (before ++ [(node, v)]) = pairs before := by
      simp [pairs, named]
    rw [Expansion.Picks, named] at picks
    simp only [picks, same]
    exact ⟨fun _ _ => usable, by simp⟩
  | some field =>
    have pairs (v : Value) : pairs (before ++ [(node, v)]) = pairs before ++ [(field, v)] := by
      simp [pairs, named]
    have apart := asked.takesApart_of_picks inside unlimited reaches starts usable named picks
    simp only [pairs]
    refine ⟨fun v member => ?_, ?_⟩
    · rw [forall_mem_append, forall_mem_singleton]
      exact ⟨usable, apart.usable v member⟩
    · have dimension : field ∈ t.table.dimensionFields := by
        apply mem_dimensionFields inside
        exact (starts.sublist.filterMap _).subset (by simp [named])
      unfold Table.weigh
      rw [← apart.sum_eq weight]
      congr 1
      apply map_congr_left
      intro v member
      rw [← append_assoc, rowsWith_concat t.table _
        (fun row listed => asked.numbers row listed field dimension) (apart.usable v member)]

end

/-- What the leaves of an unlimited branch weigh together below a leaf of the other side is what
that leaf weighs. -/
theorem sumOn_branch (weight : Row → Int) :
    sumOn branch (fun pairs => t.table.weigh source weight (Step.pairs kept ++ pairs))
      (t.expanded side).2 = t.table.weigh source weight (Step.pairs kept) := by
  have returned := t.expandAxis_eq side
  rw [t.resolved_table] at returned
  have numbered := (wellFormed_of_compile t.compiled).isNumbered side
  have shared : sumOn branch
      (fun pairs => t.table.weigh source weight (Step.pairs kept ++ pairs)) (t.expanded side).2 =
        t.table.weigh source weight (Step.pairs kept ++ []) := by
    refine sumOn_expandAxis
      (fun before => ∀ pair ∈ Step.pairs before, pair.2.hashable = true) ?_ numbered returned inside
      (by simp [Step.pairs])
    intro before node picked starts usable picks
    exact asked.shares_of_picks inside unlimited reaches starts usable weight picks
  rw [shared, append_nil]

end AnsweredAsAsked

end Tabulation

end Crosstab
