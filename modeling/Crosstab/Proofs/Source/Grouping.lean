import Crosstab.Proofs.Query.Columns

/-!
# Groups of rows

Entries are gathered by the normal forms of their keys, in the order of first appearance. So an
answer has one record for each combination of grouped values, and for the total even without rows.
-/
namespace Crosstab

open List

namespace Groups

variable {κ α ν : Type} [DecidableEq ν] {same : κ → κ → Bool} {form : κ → ν}

/-- Groups gather entries by the forms of their keys. -/
structure Gathers (form : κ → ν) (entries : List (κ × α)) (groups : Groups κ α) : Prop where
  /-- The forms come in the order of first appearance. -/
  forms : groups.map (fun group => form group.1) = (entries.map fun entry => form entry.1).eraseDups
  /-- Every key is that of an entry. -/
  keys : ∀ group ∈ groups, group.1 ∈ entries.map Prod.fst
  contents : ∀ group ∈ groups,
    group.2 = (entries.filter fun entry => form entry.1 = form group.1).map Prod.snd

variable {key : κ} {entry : α} {groups : Groups κ α}

theorem insert_of_mem (agrees : ∀ group ∈ groups, same group.1 key ↔ form group.1 = form key)
    (unique : (groups.map fun group => form group.1).Nodup)
    (known : form key ∈ groups.map fun group => form group.1) :
    insert same key entry groups = groups.map fun group =>
      if form group.1 = form key then (group.1, group.2 ++ [entry]) else group := by
  induction groups with
  | nil => cases known
  | cons group groups ih =>
    obtain ⟨first, entries⟩ := group
    rw [map_cons, nodup_cons] at unique
    rw [insert, map_cons]
    -- The group that is found first takes the entry; no other group has its form.
    by_cases here : form first = form key
    · have others : groups.map (fun group =>
          if form group.1 = form key then (group.1, group.2 ++ [entry]) else group) = groups := by
        conv_rhs => rw [← map_id groups]
        apply map_congr_left
        intro group member
        have apart : form group.1 ≠ form key := fun equal =>
          unique.1 (mem_map.mpr ⟨group, member, equal.trans here.symm⟩)
        rw [if_neg apart]
        rfl
      rw [if_pos ((agrees _ mem_cons_self).mpr here), if_pos here, others]
    · have elsewhere : same first key ≠ true := fun equal =>
        here ((agrees _ mem_cons_self).mp equal)
      rw [map_cons, mem_cons] at known
      rw [if_neg elsewhere, if_neg here,
        ih (fun group member => agrees group (mem_cons_of_mem _ member)) unique.2
          (known.resolve_left (Ne.symm here))]

omit [DecidableEq ν] in
theorem insert_of_not_mem (agrees : ∀ group ∈ groups, same group.1 key ↔ form group.1 = form key)
    (new : form key ∉ groups.map fun group => form group.1) :
    insert same key entry groups = groups ++ [(key, [entry])] := by
  induction groups with
  | nil => rfl
  | cons group groups ih =>
    obtain ⟨first, entries⟩ := group
    rw [map_cons, mem_cons, not_or] at new
    have elsewhere : same first key ≠ true := fun equal =>
      new.1 ((agrees _ mem_cons_self).mp equal).symm
    rw [insert, if_neg elsewhere,
      ih (fun group member => agrees group (mem_cons_of_mem _ member)) new.2]
    rfl

namespace Gathers

variable {entries : List (κ × α)} {groups : Groups κ α} (gathers : Gathers form entries groups)

include gathers

theorem unique : (groups.map fun group => form group.1).Nodup := by
  rw [gathers.forms]
  exact nodup_eraseDups _

theorem mem_forms (key : κ) :
    form key ∈ groups.map (fun group => form group.1) ↔
      form key ∈ entries.map fun entry => form entry.1 := by
  rw [gathers.forms, mem_eraseDups]

/-- One more entry joins the group of its form or opens one of its own. -/
theorem insert (key : κ) (entry : α)
    (agrees : ∀ group ∈ groups, same group.1 key ↔ form group.1 = form key) :
    Gathers form (entries ++ [(key, entry)]) (Groups.insert same key entry groups) := by
  by_cases known : form key ∈ groups.map fun group => form group.1
  · rw [insert_of_mem agrees gathers.unique known]
    refine ⟨?_, ?_, ?_⟩
    · have old : form key ∈ entries.map fun entry => form entry.1 := (gathers.mem_forms key).mp known
      rw [map_append, map_singleton, eraseDups_concat, if_pos (by simpa using old),
        ← gathers.forms, map_map]
      apply map_congr_left
      intro group _
      rw [Function.comp_apply]
      split <;> rfl
    · intro group' member
      obtain ⟨group, there, rfl⟩ := mem_map.mp member
      rw [map_append, mem_append]
      left
      split
      · exact gathers.keys group there
      · exact gathers.keys group there
    · intro group' member
      obtain ⟨group, there, rfl⟩ := mem_map.mp member
      have contents := gathers.contents group there
      split
      next joined => simp [filter_append, contents, joined]
      next apart => simp [filter_append, contents, Ne.symm apart]
  · rw [insert_of_not_mem agrees known]
    have new : form key ∉ entries.map fun entry => form entry.1 := fun member =>
      known ((gathers.mem_forms key).mpr member)
    refine ⟨?_, ?_, ?_⟩
    · rw [map_append, map_append, map_singleton, map_singleton,
        eraseDups_concat, if_neg (by simpa using new), gathers.forms]
    · intro group member
      rw [mem_append, mem_singleton] at member
      rw [map_append, mem_append]
      rcases member with there | rfl
      · exact .inl (gathers.keys group there)
      · exact .inr (mem_singleton.mpr rfl)
    · intro group member
      rw [mem_append, mem_singleton] at member
      rcases member with there | rfl
      · have apart : form key ≠ form group.1 := fun equal =>
          known (mem_map.mpr ⟨group, there, equal.symm⟩)
        simp [filter_append, gathers.contents group there, apart]
      -- A group that is opened now has no earlier entries.
      · have none : (entries.filter fun entry => form entry.1 = form key) = [] := by
          rw [filter_eq_nil_iff]
          intro entry there equal
          exact new (mem_map.mpr ⟨entry, there, by simpa using equal⟩)
        simp [filter_append, none]

end Gathers

/-- Where sameness of keys is equality of forms, entries are gathered by form. -/
theorem gathers_ofList {entries : List (κ × α)}
    (agrees : ∀ a ∈ entries.map Prod.fst, ∀ b ∈ entries.map Prod.fst, same a b ↔ form a = form b) :
    Gathers form entries (ofList same entries) := by
  induction entries using reverseRecOn with
  | nil => exact ⟨rfl, by simp [ofList], by simp [ofList]⟩
  | append_singleton entries entry ih =>
    have gathers := ih fun a first b second =>
      agrees a (by simp_all) b (by simp_all)
    rw [ofList, foldl_append]
    refine gathers.insert entry.1 entry.2 fun group member => agrees _ ?_ _ ?_
    · rw [map_append, mem_append]
      exact .inl (gathers.keys group member)
    · simp

end Groups

namespace Source

structure GroupsBy (fields : List String) (rows : List Row) (groups : Groups (List Value) Row) :
    Prop where
  usable : ∀ row ∈ rows, (row.project fields).all Value.hashable = true
  usableKeys : ∀ group ∈ groups, group.1.all Value.hashable = true
  lengths : ∀ group ∈ groups, group.1.length = fields.length
  unique : (groups.map fun group => group.1.map Value.key?).Nodup
  contents : ∀ group ∈ groups, group.2 =
    rows.filter fun row => (row.project fields).map Value.key? = group.1.map Value.key?
  covers : ∀ row ∈ rows, (row.project fields).map Value.key? ∈
    groups.map fun group => group.1.map Value.key?
  /-- Only the total can be a group without rows. -/
  inhabited : ∀ group ∈ groups, fields = [] ∨ group.2 ≠ []
  total : fields = [] → groups ≠ []

variable {fields : List String} {rows : List Row} {made : Groups (List Value) Row}

/-- Groups that gather rows under their values, with a group for the total where there is none. -/
theorem groupsBy_of_gathers {groups : Groups (List Value) Row}
    (usable : ∀ row ∈ rows, (row.project fields).all Value.hashable)
    (gathers : Groups.Gathers (map Value.key?)
      (rows.map fun row => (row.project fields, row)) groups) (total : fields = [] → groups ≠ []) :
    GroupsBy fields rows groups := by
  have ofRow : ∀ group ∈ groups, ∃ row ∈ rows, row.project fields = group.1 := by
    intro group member
    have key := gathers.keys group member
    rw [map_map] at key
    exact mem_map.mp key
  have contents : ∀ group ∈ groups, group.2 =
      rows.filter fun row => (row.project fields).map Value.key? = group.1.map Value.key? := by
    intro group member
    rw [gathers.contents group member, filter_map, map_map]
    exact map_id _
  refine ⟨usable, ?_, ?_, gathers.unique, contents, ?_, ?_, total⟩
  · intro group member
    obtain ⟨row, there, key⟩ := ofRow group member
    rw [← key]
    exact usable row there
  · intro group member
    obtain ⟨row, _, key⟩ := ofRow group member
    rw [← key, Row.project, length_map]
  · intro row member
    rw [gathers.mem_forms, map_map]
    exact mem_map.mpr ⟨row, member, rfl⟩
  · intro group member
    obtain ⟨row, there, key⟩ := ofRow group member
    right
    rw [contents group member]
    apply ne_nil_of_mem
    exact mem_filter.mpr ⟨there, by simp [key]⟩

/-- Rows whose values can serve as keys are gathered under the normal forms of their values. -/
theorem gathers_rows (usable : ∀ row ∈ rows, (row.project fields).all Value.hashable) :
    Groups.Gathers (map Value.key?) (rows.map fun row => (row.project fields, row))
      (Groups.ofList Value.sameKeys (rows.map fun row => (row.project fields, row))) := by
  refine Groups.gathers_ofList ?_
  intro a first b _
  rw [map_map] at first
  obtain ⟨row, member, rfl⟩ := mem_map.mp first
  exact Value.sameKeys_iff (usable row member)

/-- Rows are grouped if their values can serve as keys: the groups gather them, or stand for the total
over no rows. -/
theorem groups_eq_ok (returned : groups fields rows = .ok made) :
    (∀ row ∈ rows, (row.project fields).all Value.hashable) ∧
      (fields = [] ∧ rows = [] ∧ made = [([], [])] ∨
        Groups.Gathers (map Value.key?) (rows.map fun row => (row.project fields, row)) made ∧
          (fields = [] → made ≠ [])) := by
  unfold groups at returned
  simp only at returned
  split at returned
  next all =>
    have usable : ∀ row ∈ rows, (row.project fields).all Value.hashable := by
      intro row member
      exact all_eq_true.mp all _ (mem_map.mpr ⟨row, member, rfl⟩)
    have gathers := gathers_rows usable
    refine ⟨usable, ?_⟩
    split at returned
    next none =>
      cases returned
      have empty : rows = [] := by
        cases rows with
        | nil => rfl
        | cons row rows =>
          have member := gathers.mem_forms (row.project [])
          rw [none] at member
          simp at member
      exact .inl ⟨rfl, empty, rfl⟩
    next nonempty =>
      cases returned
      exact .inr ⟨gathers, fun total empty => nonempty total empty⟩
  · cases returned

theorem groupsBy_of_groups (returned : groups fields rows = .ok made) :
    GroupsBy fields rows made := by
  obtain ⟨usable, ⟨rfl, rfl, rfl⟩ | ⟨gathers, total⟩⟩ := groups_eq_ok returned
  · exact ⟨by simp, by simp, by simp, by simp, by simp, by simp, by simp, by simp⟩
  · exact groupsBy_of_gathers usable gathers total

/-- The values of a group are those of a row, kinds of numbers included. -/
theorem exists_row_of_mem_groups (returned : groups fields rows = .ok made)
    {group : List Value × List Row} (member : group ∈ made) :
    fields = [] ∨ ∃ row ∈ rows, row.project fields = group.1 := by
  obtain ⟨_, ⟨total, _⟩ | ⟨gathers, _⟩⟩ := groups_eq_ok returned
  · exact .inl total
  · have key := gathers.keys group member
    rw [map_map] at key
    exact .inr (mem_map.mp key)

/-! ### Answers -/

variable {source matched records : List Row} {query : GroupingQuery}

/-- The records that a query makes of the rows that it selects. -/
def recordsOf (query : GroupingQuery) (matched : List Row) : Outcome (List Row) := do
  let groups ← groups query.fields matched
  groups.mapM fun group => groupRow query group.1 group.2

theorem answer_eq_ok_iff (passed : matching query.filter source = .ok matched) :
    answer source query = .ok records ↔ recordsOf query matched = .ok records := by
  show (matching query.filter source >>= recordsOf query) = .ok records ↔ _
  rw [passed, Outcome.ok_bind]

theorem recordsOf_eq_ok (told : recordsOf query matched = .ok records) :
    ∃ made, groups query.fields matched = .ok made ∧
      Forall₂ (fun group record => groupRow query group.1 group.2 = .ok record)
        made records := by
  obtain ⟨made, grouped, told⟩ := Outcome.bind_eq_ok.mp told
  exact ⟨made, grouped, Outcome.mapM_eq_ok.mp told⟩

theorem answer_eq_ok (answered : answer source query = .ok records) :
    ∃ matched made, matching query.filter source = .ok matched ∧
      groups query.fields matched = .ok made ∧
      Forall₂ (fun group record => groupRow query group.1 group.2 = .ok record)
        made records := by
  obtain ⟨matched, passed, told⟩ := Outcome.bind_eq_ok.mp answered
  obtain ⟨made, grouped, related⟩ := recordsOf_eq_ok told
  exact ⟨matched, made, passed, grouped, related⟩

/-- The rows of some rows that have the given values, whatever the kinds of their numbers. -/
def rowsAt (fields : List String) (values : List Value) (rows : List Row) : List Row :=
  rows.filter fun row => (row.project fields).map Value.key? = values.map Value.key?

/-- With distinct columns, the answer to a query has a row for given values unless the query groups
and there are no rows with these values; the row tells the aggregates over those rows. -/
theorem find?_answer (answered : answer source query = .ok records)
    (passed : matching query.filter source = .ok matched) (columns : query.columns.Nodup)
    {wanted : List Value} (lengths : wanted.length = query.fields.length) :
    match records.reverse.find? fun record =>
        Value.sameKeys (record.project query.fields) wanted with
    | some record => (query.fields = [] ∨ rowsAt query.fields wanted matched ≠ []) ∧
        ∀ ref ∈ query.aggregates,
          aggregate ref (rowsAt query.fields wanted matched) = .ok (record.get ref.column)
    | none => query.fields ≠ [] ∧ rowsAt query.fields wanted matched = [] := by
  obtain ⟨matched', made, passed', grouped, related⟩ := answer_eq_ok answered
  cases passed.symm.trans passed'
  have groupsBy := groupsBy_of_groups grouped
  have reads {group : List Value × List Row} (member : group ∈ made) {record : Row}
      (returned : groupRow query group.1 group.2 = .ok record) :=
    groupRow_reads columns (groupsBy.lengths group member).symm returned
  have wantedAt {group : List Value × List Row} (member : group ∈ made) :
      Value.sameKeys group.1 wanted ↔ group.1.map Value.key? = wanted.map Value.key? :=
    Value.sameKeys_iff (groupsBy.usableKeys group member)
  split
  next record found =>
    have among := mem_reverse.mp (mem_of_find?_eq_some found)
    have asked := find?_some found
    obtain ⟨group, member, returned⟩ := exists_left_of_forall₂ related among
    obtain ⟨grouped, aggregated⟩ := reads member returned
    rw [grouped, wantedAt member] at asked
    have contents : group.2 = rowsAt query.fields wanted matched := by
      rw [groupsBy.contents group member, asked]
      rfl
    rw [← contents]
    exact ⟨groupsBy.inhabited group member, aggregated⟩
  next absent =>
    rw [find?_eq_none] at absent
    -- A group with the wanted values would have a record, and the record would have been found.
    have elsewhere : ∀ group ∈ made, group.1.map Value.key? ≠ wanted.map Value.key? := by
      intro group member asked
      obtain ⟨record, among, returned⟩ := exists_right_of_forall₂ related member
      apply absent record (mem_reverse.mpr among)
      rw [(reads member returned).1, wantedAt member]
      exact asked
    constructor
    -- The total has a group even without rows, and its values are always the wanted ones: none.
    · intro total
      obtain ⟨group, member⟩ := exists_mem_of_ne_nil _ (groupsBy.total total)
      apply elsewhere group member
      have whole := groupsBy.lengths group member
      rw [total] at whole lengths
      rw [length_eq_zero_iff.mp whole, length_eq_zero_iff.mp lengths]
    · rw [rowsAt, filter_eq_nil_iff]
      intro row member asked
      obtain ⟨group, there, key⟩ := mem_map.mp (groupsBy.covers row member)
      exact elsewhere group there (key.trans (by simpa using asked))

end Source

/-! ### Records of answers -/

namespace Source

variable {source matched records : List Row} {query : GroupingQuery}

/-- The row of a group reads back as the values of the group, unless an aggregate is named like one
of their fields. -/
theorem project_groupRow {values : List Value} {rows : List Row} {record : Row}
    (unique : query.fields.Nodup) (apart : ∀ ref ∈ query.aggregates, ref.column ∉ query.fields)
    (lengths : query.fields.length = values.length)
    (returned : groupRow query values rows = .ok record) :
    record.project query.fields = values := by
  refine foldlM_set_keeps (P := fun row => row.project query.fields = values) ?_ returned
    (Row.project_zip unique lengths)
  rintro ref asked row value rfl
  apply map_congr_left
  intro field member
  rw [Row.get_set, if_neg]
  rintro rfl
  exact apart ref asked member

/-- The normal forms of the values that a row has in the grouped fields. -/
def form (query : GroupingQuery) (row : Row) : List (Option Value.Key) :=
  (row.project query.fields).map Value.key?

/-- The records of an answer stand for the groups of the selected rows. -/
structure Records (query : GroupingQuery) (matched records : List Row) : Prop where
  usable : ∀ row ∈ matched, (row.project query.fields).all Value.hashable = true
  drawn : ∀ record ∈ records, query.fields = [] ∨
    ∃ row ∈ matched, row.project query.fields = record.project query.fields
  covers : ∀ row ∈ matched, form query row ∈ records.map (form query)
  unique : (records.map (form query)).Nodup
  total : query.fields = [] → records ≠ []

theorem records_of_recordsOf (told : recordsOf query matched = .ok records)
    (unique : query.fields.Nodup) (apart : ∀ ref ∈ query.aggregates, ref.column ∉ query.fields) :
    Records query matched records := by
  obtain ⟨made, grouped, related⟩ := recordsOf_eq_ok told
  have groupsBy := groupsBy_of_groups grouped
  have reads {group : List Value × List Row} (member : group ∈ made) {record : Row}
      (returned : groupRow query group.1 group.2 = .ok record) :
      record.project query.fields = group.1 :=
    project_groupRow unique apart (groupsBy.lengths group member).symm returned
  -- So everything about the values of records is known from the groups.
  have forms : records.map (form query) = made.map fun group => group.1.map Value.key? := by
    have among := (forall₂_and_left _ _).mpr ⟨fun _ member => member, related⟩
    rw [← forall₂_eq_eq_eq, forall₂_map_left_iff, forall₂_map_right_iff]
    refine among.flip.imp ?_
    rintro record group ⟨member, returned⟩
    rw [form, reads member returned]
  refine ⟨groupsBy.usable, ?_, ?_, ?_, ?_⟩
  · intro record member
    obtain ⟨group, there, returned⟩ := exists_left_of_forall₂ related member
    rw [reads there returned]
    exact exists_row_of_mem_groups grouped there
  · intro row member
    rw [forms]
    exact groupsBy.covers row member
  · rw [forms]
    exact groupsBy.unique
  · intro total empty
    rw [empty, forall₂_nil_right_iff] at related
    exact groupsBy.total total related

def rowsOf (query : GroupingQuery) (matched : List Row) (record : Row) : List Row :=
  matched.filter fun row => form query row = form query record

/-- The records also tell the aggregates over their rows. -/
structure Tells (query : GroupingQuery) (matched records : List Row) : Prop
    extends Records query matched records where
  aggregates : ∀ record ∈ records, ∀ ref ∈ query.aggregates,
    aggregate ref (rowsOf query matched record) = .ok (record.get ref.column)

theorem column_not_mem_fields (columns : query.columns.Nodup) :
    ∀ ref ∈ query.aggregates, ref.column ∉ query.fields := fun _ asked field =>
  (nodup_append.mp columns).2.2 _ field _ (mem_map_of_mem asked) rfl

/-- With distinct columns, records tell the grouped values and the aggregates of all groups. -/
theorem tells_of_recordsOf (told : recordsOf query matched = .ok records)
    (columns : query.columns.Nodup) : Tells query matched records := by
  have fields := (nodup_append.mp columns).1
  refine ⟨records_of_recordsOf told fields (column_not_mem_fields columns), ?_⟩
  intro record member ref asked
  obtain ⟨made, grouped, related⟩ := recordsOf_eq_ok told
  have groupsBy := groupsBy_of_groups grouped
  obtain ⟨group, there, returned⟩ := exists_left_of_forall₂ related member
  obtain ⟨values, aggregated⟩ := groupRow_reads columns (groupsBy.lengths group there).symm returned
  rw [← aggregated ref asked, groupsBy.contents group there]
  simp only [rowsOf, form, values]

theorem tells_of_answer (answered : answer source query = .ok records)
    (passed : matching query.filter source = .ok matched) (columns : query.columns.Nodup) :
    Tells query matched records :=
  tells_of_recordsOf ((answer_eq_ok_iff passed).mp answered) columns

theorem form_eq_iff {a b : Row} : form query a = form query b ↔
    ∀ field ∈ query.fields, (a.get field).key? = (b.get field).key? := by
  simp [form, Row.project]

namespace Records

variable (stands : Records query matched records) {record : Row} (member : record ∈ records)
  {field : String} (grouped : field ∈ query.fields)

include stands member grouped

/-- A value of a record in a grouped field is that of a selected row. -/
theorem exists_row : ∃ row ∈ matched, row.get field = record.get field := by
  rcases stands.drawn record member with total | ⟨row, there, values⟩
  · rw [total] at grouped
    cases grouped
  · exact ⟨row, there, map_inj_left.mp values field grouped⟩

theorem hashable : (record.get field).hashable := by
  obtain ⟨row, there, value⟩ := stands.exists_row member grouped
  rw [← value]
  exact all_eq_true.mp (stands.usable row there) _ (mem_map_of_mem grouped)

end Records

/-- The answers of rows in memory to queries, by the keys of the queries. -/
def answerAll (source : List Row) (queries : List GroupingQuery) : Outcome Results :=
  queries.mapM fun query => do return (query.key, ← answer source query)

/-- Among answers to queries with different keys each query finds its own. -/
theorem lookup_answerAll {source : List Row} {queries : List GroupingQuery}
    {results : Results} (answered : answerAll source queries = .ok results)
    (unique : (queries.map GroupingQuery.key).Nodup) {query : GroupingQuery}
    (member : query ∈ queries) :
    ∃ records, results.lookup query.key = some records ∧ answer source query = .ok records := by
  have related := Outcome.mapM_eq_ok.mp answered
  clear answered
  induction related with
  | nil => cases member
  | @cons first entry queries results head _ ih =>
    obtain ⟨records, own, head⟩ := Outcome.bind_eq_ok.mp head
    cases head
    rw [map_cons, nodup_cons] at unique
    rw [lookup_cons]
    rcases mem_cons.mp member with rfl | later
    · exact ⟨records, by simp, own⟩
    -- The answer to another query is passed over.
    · have apart : query.key ≠ first.key := fun equal =>
        unique.1 (mem_map.mpr ⟨query, later, equal⟩)
      rw [beq_eq_false_iff_ne.mpr apart]
      exact ih unique.2 later

end Source

/-! ### Requests that share a key -/

open Source

/-- Requests with one key ask for one grouping of the same rows. -/
def FaithfulKeys (requests : List QueryRequest) (source : List Row) : Prop :=
  ∀ a ∈ requests, ∀ b ∈ requests, a.key = b.key →
    sortedTexts a.fields = sortedTexts b.fields ∧
      ∀ row ∈ source, (Filter.passes a.filter row).isTrue = (Filter.passes b.filter row).isTrue

instance (requests : List QueryRequest) (source : List Row) :
    Decidable (FaithfulKeys requests source) :=
  inferInstanceAs (Decidable (∀ a ∈ requests, ∀ b ∈ requests, a.key = b.key → _))

namespace FaithfulKeys

variable {requests : List QueryRequest} {queries : List GroupingQuery} {source : List Row}

/-- The query with the key of a request groups and selects as the request asks. -/
theorem query_as_asked (faithful : FaithfulKeys requests source)
    (answers : Answers requests queries) {query : GroupingQuery} (member : query ∈ queries)
    {request : QueryRequest} (asked : request ∈ requests) (key : query.key = request.key) :
    query.fields = sortedTexts request.fields ∧ ∀ row ∈ source,
      (Filter.passes query.filter row).isTrue = (Filter.passes request.filter row).isTrue := by
  obtain ⟨first, listed, sameKey, fields, filter⟩ := answers.exists_request member
  rw [fields, filter]
  exact faithful first listed request asked (sameKey.trans key)

end FaithfulKeys

/-- Queries that answer requests, each by the rows of a source that it selects. -/
structure AnsweredBy (source : List Row) (requests : List QueryRequest) (queries : List GroupingQuery)
    (results : Results) : Prop where
  answers : Answers requests queries
  faithful : FaithfulKeys requests source
  columns : ∀ query ∈ queries, query.columns.Nodup
  answered : answerAll source queries = .ok results

/-- The query of a request and the records that it made of the selected rows. -/
structure Serves (selected : List Row) (queries : List GroupingQuery) (results : Results)
    (request : QueryRequest) (query : GroupingQuery) (records : List Row) : Prop where
  found : queries.find? (fun query => query.key == request.key) = some query
  looked : results.lookup request.key = some records
  told : recordsOf query selected = .ok records
  fields : query.fields = sortedTexts request.fields
  asked : request.aggregates ⊆ query.aggregates
  columns : query.columns.Nodup

theorem Serves.mem_fields {selected : List Row} {queries : List GroupingQuery} {results : Results}
    {request : QueryRequest} {query : GroupingQuery} {records : List Row}
    (serves : Serves selected queries results request query records)
    {field : String} : field ∈ query.fields ↔ field ∈ request.fields := by
  rw [serves.fields, mem_sortedTexts]

namespace AnsweredBy

variable {source : List Row} {requests : List QueryRequest} {queries : List GroupingQuery}
  {results : Results}

/-- Every request of the stage is served from the rows that it selects. -/
theorem exists_serves (stage : AnsweredBy source requests queries results) {request : QueryRequest}
    (requested : request ∈ requests) {selected : List Row}
    (selects : selected = source.filter fun row => (Filter.passes request.filter row).isTrue) :
    ∃ query records, Serves selected queries results request query records := by
  obtain ⟨query, member, key⟩ := stage.answers.exists_query requested
  obtain ⟨fields, same⟩ := stage.faithful.query_as_asked stage.answers member requested key
  obtain ⟨records, looked, told⟩ := lookup_answerAll stage.answered stage.answers.nodup_keys member
  refine ⟨query, records, ?_, key ▸ looked, ?_, fields, ?_, stage.columns query member⟩
  · rw [← key]
    exact find?_of_nodup_map stage.answers.nodup_keys member
  · obtain ⟨matched, _, passed, _, _⟩ := answer_eq_ok told
    rw [selects, ← filter_congr same, ← (Outcome.filterM_eq_ok passed).2]
    exact (answer_eq_ok_iff passed).mp told
  · intro ref asked
    exact (stage.answers.aggregates query member ref).mpr ⟨request, requested, key.symm, asked⟩

end AnsweredBy

end Crosstab
