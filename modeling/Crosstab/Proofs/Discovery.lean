import Crosstab.Proofs.Grid.DirectValue
import Crosstab.Proofs.Grid.Members
import Crosstab.Proofs.Ranking
import Crosstab.Proofs.Source.Integers
import Crosstab.Proofs.Tabulation

/-!
# Fixed members and the source

Members are fixed under every combination of values above them that some row has. They are ranked by
the aggregate over the rows with these values.
-/
namespace Crosstab

open List Value Source Outcome

theorem Row.keys_project_eq_iff {fields : List String} {values : List Value}
    (lengths : fields.length = values.length) (row : Row) :
    (row.project fields).map key? = values.map key? ↔
      ∀ pair ∈ fields.zip values, (row.get pair.1).key? = pair.2.key? := by
  induction fields generalizing values with
  | nil =>
    cases values with
    | nil => simp [Row.project]
    | cons value values => cases lengths
  | cons field fields ih =>
    cases values with
    | nil => cases lengths
    | cons value values =>
      rw [Row.project, map_cons, map_cons, map_cons, cons.injEq, zip_cons_cons, forall_mem_cons]
      exact and_congr_right fun _ => ih (Nat.succ.inj lengths)

namespace Table

variable (table : Table) (source : List Row)

/-- The rows that count and have the given values in the fields above a node. -/
def rowsUnder (visit : Visit Node) (parent : List Value) : List Row :=
  table.rowsWith source (visit.scope.zip parent)

/-- The rows that moreover have the given member at the node. -/
def rowsAtMember (visit : Visit Node) (field : String) (parent : List Value) (member : Value) :
    List Row :=
  table.rowsWith source (visit.scope.zip parent ++ [(field, member)])

/-- The values that a node has under a parent, each once, with an aggregate over their rows. -/
structure CandidatesUnder (visit : Visit Node) (field : String) (ref : MeasureRef)
    (parent : List Value) (candidates : List Candidate) : Prop where
  drawn : ∀ c ∈ candidates, ∃ row ∈ table.rowsUnder source visit parent, row.get field = c.1
  covers : ∀ row ∈ table.rowsUnder source visit parent,
    ∃ c ∈ candidates, c.1.sameKey (row.get field) = true
  once : (candidates.map fun c => c.1.key?).Nodup
  keys : ∀ c ∈ candidates,
    aggregate ref (table.rowsAtMember source visit field parent c.1) = .ok c.2

/-- Members are fixed as the rows of the source demand, under every combination of values above the
node; `ordered` is what is known of their order before they are cut. -/
structure Fixes (visit : Visit Node) (field : String) (ref : MeasureRef)
    (ordered : List Candidate → Prop) (selection : Selection) : Prop where
  node : selection.node = visit.node.id
  named : selection.field = field
  unique : (selection.byParent.map fun entry => entry.1.map key?).Nodup
  parents : ∀ parent, (∃ entry ∈ selection.byParent, sameKeys entry.1 parent = true) ↔
    ∃ row ∈ source, table.counts row = true ∧
      sameKeys (row.project visit.scope) parent = true
  members : ∀ entry ∈ selection.byParent, ∃ ranked : List Candidate,
    entry.2 = visit.node.order.ranking.cut (ranked.map Prod.fst) ∧ ordered ranked ∧
      table.CandidatesUnder source visit field ref entry.1 ranked

variable {table source}

private theorem CandidatesUnder.of_perm {visit : Visit Node} {field : String} {ref : MeasureRef}
    {parent : List Value} {candidates ranked : List Candidate}
    (stand : table.CandidatesUnder source visit field ref parent candidates)
    (arranged : ranked.Perm candidates) :
    table.CandidatesUnder source visit field ref parent ranked where
  drawn c member := stand.drawn c (arranged.mem_iff.mp member)
  covers row member := by
    obtain ⟨c, there, same⟩ := stand.covers row member
    exact ⟨c, arranged.mem_iff.mpr there, same⟩
  once := (arranged.map _).nodup_iff.mpr stand.once
  keys c member := stand.keys c (arranged.mem_iff.mp member)

/-! ### One answer -/

/-- The answer from which the members of a node are ranked: it groups the rows that count by the
fields above the node and its own. -/
structure Explored (table : Table) (source : List Row) (visit : Visit Node) (field : String)
    (ref : MeasureRef) (query : GroupingQuery) (matched records : List Row) : Prop where
  grouped : ∀ name, name ∈ query.fields ↔ name ∈ visit.scope ∨ name = field
  asked : ref ∈ query.aggregates
  selected : matched = source.filter table.counts
  tells : Source.Tells query matched records
  numbers : ∀ row ∈ source, ∀ name ∈ query.fields, (row.get name).isNan = false

namespace Explored

variable {visit : Visit Node} {field : String} {ref : MeasureRef} {query : GroupingQuery}
  {matched records : List Row}
  (explored : table.Explored source visit field ref query matched records)

include explored

variable {row record : Row} {parent : List Value} {ordered : List Candidate → Prop}

theorem mem_matched : row ∈ matched ↔ row ∈ source ∧ table.counts row := by
  rw [explored.selected, mem_filter]

theorem mem_rowsUnder (usable : parent.all hashable)
    (lengths : visit.scope.length = parent.length) :
    row ∈ table.rowsUnder source visit parent ↔ row ∈ matched ∧
      (row.project visit.scope).map key? = parent.map key? := by
  rw [rowsUnder, rowsWith, mem_filter, Bool.and_eq_true, explored.mem_matched, and_assoc]
  refine and_congr_right fun member => and_congr_right fun _ => ?_
  rw [Row.keys_project_eq_iff lengths]
  -- Rows are asked for the same values; for these, unlike for a NaN, that is to have the same keys.
  apply all_same_iff
  · intro pair paired
    have above := (explored.grouped pair.1).mpr (.inl (of_mem_zip paired).1)
    exact explored.numbers row member pair.1 above
  · intro pair paired
    exact all_eq_true.mp usable _ (of_mem_zip paired).2

theorem usable_row (member : row ∈ matched) :
    (row.project visit.scope).all hashable := by
  rw [Row.project, all_map, all_eq_true]
  intro name above
  have grouped := (explored.grouped name).mpr (.inl above)
  exact all_eq_true.mp (explored.tells.usable row member) _ (mem_map_of_mem grouped)

private theorem usable_above (member : record ∈ records) :
    (record.project visit.scope).all hashable := by
  rw [Row.project, all_map, all_eq_true]
  intro name above
  exact explored.tells.hashable member ((explored.grouped name).mpr (.inl above))

theorem form_eq_iff {a b : Row} : Source.form query a = Source.form query b ↔
    (a.project visit.scope).map key? = (b.project visit.scope).map key? ∧
    (a.get field).key? = (b.get field).key? := by
  simp only [Source.form_eq_iff, explored.grouped, Row.project, map_map, map_inj_left,
    Function.comp_apply]
  constructor
  · intro same
    exact ⟨fun name above => same name (.inl above), same field (.inr rfl)⟩
  · rintro ⟨above, own⟩ name (there | rfl)
    · exact above name there
    · exact own

theorem exists_row (member : record ∈ records) : ∃ row ∈ matched,
    row.project visit.scope = record.project visit.scope ∧
      row.get field = record.get field := by
  have own := (explored.grouped field).mpr (.inr rfl)
  rcases explored.tells.drawn record member with total | ⟨row, there, values⟩
  · rw [total] at own
    cases own
  · have each := map_inj_left.mp values
    refine ⟨row, there, map_inj_left.mpr ?_, each field own⟩
    intro name above
    exact each name ((explored.grouped name).mpr (.inl above))

/-- The rows of a record are those with its member under its parent. -/
theorem rowsOf_eq (usable : parent.all hashable)
    (lengths : visit.scope.length = parent.length) (member : record ∈ records)
    (under : (record.project visit.scope).map key? = parent.map key?) :
    rowsOf query matched record =
      table.rowsAtMember source visit field parent (record.get field) := by
  rw [rowsOf, explored.selected, filter_filter]
  apply filter_congr
  intro row inSource
  have own := (explored.grouped field).mpr (.inr rfl)
  rw [Bool.eq_iff_iff, Bool.and_comm, Bool.and_eq_true, Bool.and_eq_true, decide_eq_true_iff,
    explored.form_eq_iff, under, Row.keys_project_eq_iff lengths]
  rw [all_same_iff, forall_mem_append, forall_mem_singleton]
  · refine forall_mem_append.mpr ⟨?_, ?_⟩
    · intro pair paired
      have above := (explored.grouped pair.1).mpr (.inl (of_mem_zip paired).1)
      exact explored.numbers row inSource pair.1 above
    · rw [forall_mem_singleton]
      exact explored.numbers row inSource field own
  · refine forall_mem_append.mpr ⟨?_, ?_⟩
    · intro pair paired
      exact all_eq_true.mp usable _ (of_mem_zip paired).2
    · rw [forall_mem_singleton]
      exact explored.tells.hashable member own

/-- The records under a parent are the members of the node with their aggregates. -/
theorem candidatesUnder (usable : parent.all hashable)
    (lengths : visit.scope.length = parent.length) :
    table.CandidatesUnder source visit field ref parent
      (Selection.candidates visit field ref records parent) := by
  have own := (explored.grouped field).mpr (.inr rfl)
  refine ⟨?_, ?_, ?_, ?_⟩
  · intro c listed
    obtain ⟨record, under, rfl⟩ := mem_map.mp listed
    obtain ⟨member, same⟩ := mem_filter.mp under
    obtain ⟨row, there, above, value⟩ := explored.exists_row member
    refine ⟨row, (explored.mem_rowsUnder usable lengths).mpr ⟨there, ?_⟩, value⟩
    rw [above]
    exact of_decide_eq_true same
  · intro row under
    obtain ⟨there, above⟩ := (explored.mem_rowsUnder usable lengths).mp under
    obtain ⟨record, member, same⟩ := mem_map.mp (explored.tells.covers row there)
    obtain ⟨sameAbove, sameOwn⟩ := explored.form_eq_iff.mp same
    refine ⟨_, mem_map_of_mem (mem_filter.mpr ⟨member, ?_⟩), ?_⟩
    · exact decide_eq_true (sameAbove.trans above)
    · exact (sameKey_iff (explored.tells.hashable member own)).mpr sameOwn
  · -- Records that agree above the node differ at the node, since no two have the same values.
    rw [Selection.candidates, map_map, Nodup, pairwise_map]
    have apart := explored.tells.unique
    rw [Nodup, pairwise_map] at apart
    refine (apart.filter _).imp_of_mem ?_
    intro a b first second differ same
    have above := of_decide_eq_true (mem_filter.mp first).2
    have above' := of_decide_eq_true (mem_filter.mp second).2
    exact differ (explored.form_eq_iff.mpr ⟨above.trans above'.symm, same⟩)
  · intro c listed
    obtain ⟨record, under, rfl⟩ := mem_map.mp listed
    obtain ⟨member, same⟩ := mem_filter.mp under
    rw [← explored.rowsOf_eq usable lengths member (of_decide_eq_true same)]
    exact explored.tells.aggregates record member ref explored.asked

/-! ### The selection made from it -/

/-- Members that were fixed are those of the source, in the order in which rankings arrange them. -/
theorem fixes_of_arranged {selection : Selection}
    (made : Selection.ofRows visit field ref records = .ok selection)
    (arranges : ∀ parent candidates members,
      table.CandidatesUnder source visit field ref parent candidates →
        rank candidates visit.node.order.ranking = .ok members → ∃ ranked : List Candidate,
          members = visit.node.order.ranking.cut (ranked.map Prod.fst) ∧ ranked.Perm candidates ∧
            ordered ranked) : table.Fixes source visit field ref ordered selection := by
  have ranks := Selection.ranks_of_ofRows made
  have usable {entry : List Value × List Value} (member : entry ∈ selection.byParent) :
      entry.1.all hashable ∧ visit.scope.length = entry.1.length := by
    obtain ⟨record, listed, values⟩ := ranks.drawn entry member
    rw [← values]
    exact ⟨ranks.usable record listed, by simp [Row.project]⟩
  refine ⟨ranks.node, ranks.named, ranks.unique, fun parent => ⟨?_, ?_⟩, fun entry member => ?_⟩
  · rintro ⟨entry, member, same⟩
    obtain ⟨record, listed, values⟩ := ranks.drawn entry member
    obtain ⟨row, there, above, _⟩ := explored.exists_row listed
    obtain ⟨inSource, counted⟩ := explored.mem_matched.mp there
    exact ⟨row, inSource, counted, by rwa [above, values]⟩
  · rintro ⟨row, inSource, counted, same⟩
    have there := explored.mem_matched.mpr ⟨inSource, counted⟩
    obtain ⟨record, listed, form⟩ := mem_map.mp (explored.tells.covers row there)
    obtain ⟨entry, member, key⟩ := ranks.covers record listed
    refine ⟨entry, member, ?_⟩
    rw [sameKeys_iff (explored.usable_row there)] at same
    rw [sameKeys_iff (usable member).1, key, (explored.form_eq_iff.mp form).1, same]
  · have stand := explored.candidatesUnder (usable member).1 (usable member).2
    obtain ⟨ranked, cut, arranged, order⟩ := arranges _ _ _ stand (ranks.members entry member)
    exact ⟨ranked, cut, order, stand.of_perm arranged⟩

theorem fixes_of_ofRows {selection : Selection}
    (made : Selection.ofRows visit field ref records = .ok selection) :
    table.Fixes source visit field ref (fun _ => True) selection := by
  refine explored.fixes_of_arranged made fun _ _ _ _ told => ?_
  obtain ⟨ranked, arranged, cut⟩ := perm_of_rank told
  exact ⟨ranked, cut, arranged, trivial⟩

/-- Where members can be ranked under every parent, they are fixed. -/
theorem exists_fixes
    (ranked : ∀ parent candidates, table.CandidatesUnder source visit field ref parent candidates →
      ∃ list : List Candidate, rank candidates visit.node.order.ranking =
          .ok (visit.node.order.ranking.cut (list.map Prod.fst)) ∧
        list.Perm candidates ∧ ordered list) :
    ∃ selection, Selection.ofRows visit field ref records = .ok selection ∧
      table.Fixes source visit field ref ordered selection := by
  have usable : ∀ record ∈ records, (record.project visit.scope).all hashable :=
    fun record member => explored.usable_above member
  obtain ⟨selection, made⟩ := Selection.exists_ofRows usable fun record member => by
    obtain ⟨list, returned, _⟩ := ranked _ _
      (explored.candidatesUnder (usable record member) (by simp [Row.project]))
    exact ⟨_, returned⟩
  refine ⟨selection, made, explored.fixes_of_arranged made fun parent candidates members stand told => ?_⟩
  obtain ⟨list, returned, arranged⟩ := ranked parent candidates stand
  exact ⟨list, Except.ok.inj (told.symm.trans returned), arranged⟩

end Explored

/-! ### All pending nodes -/

/-- A key that members of a node are ranked by under a parent. -/
def RankingKey (table : Table) (source : List Row) (visit : Visit Node) (field : String)
    (ref : MeasureRef) (parent : List Value) (key : Value) : Prop :=
  key.isNull = false ∧ ∃ row ∈ table.rowsUnder source visit parent,
    aggregate ref (table.rowsAtMember source visit field parent (row.get field)) = .ok key

private theorem comparable_of_integers {name : String} {fold : List Int → Option Int}
    (folds : Source.FoldsBy name fold) {of : String} (holds : Source.HoldsIntegers of source)
    (visit : Visit Node) (field : String) (parent : List Value) :
    Value.Comparable (table.RankingKey source visit field ⟨some of, name⟩ parent) := by
  apply comparable_of_numbers
  rintro key ⟨present, row, _, told⟩
  have within : Source.HoldsIntegers of
      (table.rowsAtMember source visit field parent (row.get field)) :=
    holds.of_subset (filter_subset_self _)
  rw [aggregate_integers folds within] at told
  cases told
  cases result : fold (integers of _) with
  | none => simp [result, ofInt?, isNull] at present
  | some n => exact ⟨.finite n, rfl, by simp⟩

section Resolution

variable {schema : Schema} {discovery : DiscoveryPlan} {found : Results}

variable {side : Side} {visit : Visit Node} {field : String} {ref : MeasureRef}
  {records : List Row}

section

variable (wellFormed : table.WellFormed schema) (discovered : table.discover = .ok discovery)
  (member : visit ∈ (table.axis side).pendingVisits)
include wellFormed discovered member

private theorem lookup_nodeKeys :
    discovery.nodeKeys.lookup (side, visit.node.id) = some (table.rankingRequest visit).key := by
  obtain ⟨_, _, nodeKeys⟩ := discover_eq_ok discovered
  rw [nodeKeys]
  refine lookup_map_of_mem (fun entry => (entry.1, entry.2.node.id))
    (fun entry => (table.rankingRequest entry.2).key) (mem_pendingVisits.mpr member) ?_
  rintro ⟨other, visit'⟩ listed same
  simp only [Prod.mk.injEq] at same
  obtain ⟨rfl, ids⟩ := same
  -- Numbers tell the nodes of one side apart.
  have equal : visit' = visit := inj_on_of_nodup_map
    (Axis.nodup_ids_visits (wellFormed.isNumbered other))
    (mem_filter.mp (mem_pendingVisits.mp listed)).1 (mem_filter.mp member).1 ids
  rw [equal]

/-- The members of a pending node are ranked from the answer to its own request. -/
theorem resolveNode_eq_ofRows (named : visit.node.field? = some field)
    (ordered : visit.node.order.orderBy = some ref)
    (looked : found.lookup (table.rankingRequest visit).key = some records) :
    resolveNode side discovery found visit = Selection.ofRows visit field ref records := by
  unfold resolveNode
  rw [lookup_nodeKeys wellFormed discovered member, ordered, Option.bind_some, looked, named]
  rfl

end

/-- Records of the rows that count tell about the members of a pending node if they are grouped as its
request asks. -/
theorem explored_of_recordsOf
    (numbers : ∀ row ∈ source, ∀ field ∈ table.dimensionFields, (row.get field).isNan = false)
    (member : visit ∈ (table.axis side).pendingVisits) (named : visit.node.field? = some field)
    (ordered : visit.node.order.orderBy = some ref) {query : GroupingQuery}
    (fields : ∀ name, name ∈ query.fields ↔ name ∈ (table.rankingRequest visit).fields)
    (asked : (table.rankingRequest visit).aggregates ⊆ query.aggregates)
    (columns : query.columns.Nodup)
    (told : recordsOf query (source.filter table.counts) = .ok records) :
    table.Explored source visit field ref query (source.filter table.counts) records := by
  have grouped : ∀ name, name ∈ query.fields ↔ name ∈ visit.scope ∨ name = field := by
    intro name
    rw [fields, rankingRequest, named, Option.toList_some, mem_append, mem_singleton]
  refine ⟨grouped, asked (by simp [rankingRequest, ordered]), rfl,
    tells_of_recordsOf told columns, ?_⟩
  -- The grouped fields are those of a branch down to the node.
  intro row inSource name known
  apply numbers row inSource
  obtain ⟨branch, inside, before⟩ := Axis.exists_branch_of_mem_visits (mem_filter.mp member).1
  apply mem_dimensionFields inside
  have along : name ∈ fieldsOf (visit.above ++ [visit.node]) := by
    rw [grouped] at known
    simpa [fieldsOf, named] using known
  exact (before.sublist.filterMap _).subset along

theorem exists_explored (wellFormed : table.WellFormed schema)
    (discovered : table.discover = .ok discovery)
    (answered : answerAll source discovery.queries = .ok found)
    (faithful : FaithfulKeys (table.pendingVisits.map fun entry => table.rankingRequest entry.2)
      source) (columns : ∀ query ∈ discovery.queries, query.columns.Nodup)
    (numbers : ∀ row ∈ source, ∀ field ∈ table.dimensionFields, (row.get field).isNan = false)
    (member : visit ∈ (table.axis side).pendingVisits) (named : visit.node.field? = some field)
    (ordered : visit.node.order.orderBy = some ref) :
    ∃ query matched records, table.Explored source visit field ref query matched records ∧
      resolveNode side discovery found visit = Selection.ofRows visit field ref records := by
  obtain ⟨_, answers, _⟩ := discover_eq_ok discovered
  have requested : table.rankingRequest visit ∈
      table.pendingVisits.map fun entry => table.rankingRequest entry.2 :=
    mem_map.mpr ⟨(side, visit), mem_pendingVisits.mpr member, rfl⟩
  have stage : AnsweredBy source _ discovery.queries found := ⟨answers, faithful, columns, answered⟩
  have selected : source.filter table.counts = source.filter fun row =>
      (Filter.passes (table.rankingRequest visit).filter row).isTrue := by
    apply filter_congr
    intro row _
    rw [Bool.eq_iff_iff, rankingRequest, passes_queryFilter_iff]
    simp
  obtain ⟨query, records, serves⟩ := stage.exists_serves requested selected
  exact ⟨query, _, records,
    explored_of_recordsOf numbers member named ordered (fun _ => serves.mem_fields) serves.asked
      serves.columns serves.told,
    resolveNode_eq_ofRows wellFormed discovered member named ordered serves.looked⟩

variable {resolved : ResolvedTable}

theorem exists_resolve_of_each (each : ∀ side, ∀ visit ∈ (table.axis side).pendingVisits,
      ∃ selection, resolveNode side discovery found visit = .ok selection) :
    ∃ resolved, table.resolve discovery found = .ok resolved := by
  have all (side : Side) : ∃ selections,
      (table.axis side).pendingVisits.mapM (resolveNode side discovery found) = .ok selections := by
    obtain ⟨selections, made, _⟩ := exists_mapM_eq_ok (P := fun _ _ => True)
      fun visit member => (each side visit member).imp fun _ made => ⟨made, trivial⟩
    exact ⟨selections, made⟩
  obtain ⟨rowMembers, fixedRows⟩ := all .rows
  obtain ⟨colMembers, fixedCols⟩ := all .cols
  exact ⟨_, bind_eq_ok.mpr ⟨rowMembers, fixedRows,
    bind_eq_ok.mpr ⟨colMembers, fixedCols, rfl⟩⟩⟩

/-- Selections are made in the order of the pending nodes, and found by the nodes. -/
theorem exists_selection? (wellFormed : table.WellFormed schema)
    (fixed : table.resolve discovery found = .ok resolved)
    (member : visit ∈ (table.axis side).pendingVisits) :
    ∃ selection, resolved.selection? side visit.node.id = some selection ∧
      resolveNode side discovery found visit = .ok selection := by
  have made := mapM_eq_ok.mp ((resolve_eq_ok fixed).2.2 side)
  obtain ⟨selection, there, returned⟩ := exists_right_of_forall₂ made member
  refine ⟨selection, ?_, returned⟩
  have nodes : (resolved.selections side).map Selection.node =
      (table.axis side).pendingVisits.map fun visit => visit.node.id := by
    rw [← forall₂_eq_eq_eq, forall₂_map_left_iff, forall₂_map_right_iff]
    exact made.flip.imp fun _ _ returned => (resolveNode_eq_ok returned).1
  have unique : ((resolved.selections side).map Selection.node).Nodup := by
    rw [nodes]
    exact (Axis.nodup_ids_visits (wellFormed.isNumbered side)).sublist (filter_sublist.map _)
  rw [ResolvedTable.selection?, ← (resolveNode_eq_ok returned).1]
  exact find?_of_nodup_map unique there

/-- Where the keys of ranking requests are faithful and ranking aggregates can be compared, the
members of every pending node are fixed: under each combination of values above the node that a row
which counts has, its values among these rows, ranked by their aggregates and cut to the limit. -/
theorem resolve_fixes_ranked_members {includeNulls : Value} {statement : Statement}
    (compiled : Table.compile schema includeNulls statement = .ok table)
    (discovered : table.discover = .ok discovery)
    (answered : Source.answerAll source discovery.queries = .ok found)
    (faithful : FaithfulKeys (table.pendingVisits.map fun entry => table.rankingRequest entry.2)
      source)
    (columns : ∀ query ∈ discovery.queries, query.columns.Nodup)
    (numbers : ∀ row ∈ source, ∀ field ∈ table.dimensionFields, (row.get field).isNan = false)
    (comparable : ∀ entry ∈ table.pendingVisits, ∀ field ref parent,
      entry.2.node.field? = some field → entry.2.node.order.orderBy = some ref →
        Value.Comparable (table.RankingKey source entry.2 field ref parent)) :
    ∃ resolved, table.resolve discovery found = .ok resolved ∧
      ∀ side, ∀ visit ∈ (table.axis side).pendingVisits, ∃ field ref selection,
        visit.node.field? = some field ∧ visit.node.order.orderBy = some ref ∧
        resolved.selection? side visit.node.id = some selection ∧
        table.Fixes source visit field ref
          (List.Pairwise (Candidate.Precedes visit.node.order.ranking.falls)) selection := by
  have wellFormed := wellFormed_of_compile compiled
  have each (side : Side) (visit : Visit Node) (member : visit ∈ (table.axis side).pendingVisits) :
      ∃ field ref selection, visit.node.field? = some field ∧ visit.node.order.orderBy = some ref ∧
        resolveNode side discovery found visit = .ok selection ∧ table.Fixes source visit field ref
          (List.Pairwise (Candidate.Precedes visit.node.order.ranking.falls)) selection := by
    obtain ⟨field, ref, named, ordered⟩ := exists_of_isPending (List.mem_filter.mp member).2
    obtain ⟨query, matched, records, explored, made⟩ := exists_explored wellFormed discovered answered
      faithful columns numbers member named ordered
    -- The keys of candidates that are not null can be compared, so they are ranked.
    obtain ⟨selection, returned, fixes⟩ := explored.exists_fixes (fun parent candidates stand => by
      have orders := comparable _ (mem_pendingVisits.mpr member) field ref parent named ordered
      refine rank_eq_ok orders ?_ visit.node.order.ranking
      intro c listed present
      obtain ⟨row, under, value⟩ := stand.drawn c listed
      exact ⟨present, row, under, value ▸ stand.keys c listed⟩)
    exact ⟨field, ref, selection, named, ordered, made.trans returned, fixes⟩
  obtain ⟨resolved, fixed⟩ := exists_resolve_of_each fun side visit member => by
    obtain ⟨_, _, selection, _, _, made, _⟩ := each side visit member
    exact ⟨selection, made⟩
  refine ⟨resolved, fixed, fun side visit member => ?_⟩
  obtain ⟨field, ref, selection, named, ordered, made, fixes⟩ := each side visit member
  obtain ⟨_, looked, returned⟩ := exists_selection? wellFormed fixed member
  cases made.symm.trans returned
  exact ⟨field, ref, selection, named, ordered, looked, fixes⟩

/-- In every town the best paid job, where nobody's pay is known in Bath and a row without a town
does not count. -/
theorem best_paid_job_of_every_town :
    let schema := Schema.ofNames ["job", "town"] ["pay"]
    let statement : Statement :=
      { rows := [[.column "town", .leading (-1) "job" "pay" "sum", .measure "pay" ["sum"]]] }
    let source := Row.table ["job", "town", "pay"] [["cook", "York", 5], ["cook", "Bath", .null],
      ["clerk", "York", 12], ["baker", "Bath", .null], ["cook", "York", 9], ["smith", .null, 99]]
    ∃ t : Tabulation schema {} statement source, ∃ visit ∈ t.table.rows.pendingVisits,
      ∃ field ref selection, visit.node.field? = some field ∧
        visit.node.order.orderBy = some ref ∧
        t.resolved.selection? .rows visit.node.id = some selection ∧
        selection.byParent.map (fun entry => (entry.1.map Value.plain, entry.2.map Value.plain)) =
          [(["York"], ["cook"]), (["Bath"], ["baker"])] ∧
        t.table.Fixes source visit field ref
          (List.Pairwise (Candidate.Precedes visit.node.order.ranking.falls)) selection := by
  intro schema statement source
  obtain ⟨t, faithful, columns, numbers, byPay, visit, member, selection, looked, shown⟩ :
      ∃ t : Tabulation schema {} statement source,
        FaithfulKeys (t.table.pendingVisits.map fun entry => t.table.rankingRequest entry.2) source ∧
        (∀ query ∈ t.discovery.queries, query.columns.Nodup) ∧
        (∀ row ∈ source, ∀ field ∈ t.table.dimensionFields, (row.get field).isNan = false) ∧
        (∀ entry ∈ t.table.pendingVisits,
          entry.2.node.order.orderBy = some ⟨some "pay", "sum"⟩) ∧
        ∃ visit ∈ t.table.rows.pendingVisits,
          ∃ selection ∈ t.resolved.selection? .rows visit.node.id,
            selection.byParent.map (fun entry => (entry.1.map Value.plain, entry.2.map Value.plain)) =
              [(["York"], ["cook"]), (["Bath"], ["baker"])] :=
    Tabulation.exists_of_run (by decide +kernel)
  have holds : Source.HoldsIntegers "pay" source := by decide
  obtain ⟨resolved, fixed, fixes⟩ := resolve_fixes_ranked_members t.compiled t.discovered t.explored
    faithful columns numbers (by
      intro entry pending field ref parent _ ordered
      cases (byPay entry pending).symm.trans ordered
      exact comparable_of_integers .sum holds entry.2 field parent)
  cases fixed.symm.trans t.fixed
  obtain ⟨field, ref, selection', named, ordered, looked', holds⟩ := fixes .rows visit member
  cases looked.symm.trans looked'
  exact ⟨t, visit, member, field, ref, selection, named, ordered, looked, shown, holds⟩

end Resolution

end Table

end Crosstab
