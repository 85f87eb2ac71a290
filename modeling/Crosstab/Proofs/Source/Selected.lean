import Crosstab.Proofs.RowOrder.Grid

/-!
# Answers from the same rows

Queries with different filters may select the same rows. Those with one grouping then have the same
groups in the same order.
-/
namespace Crosstab

open List Value

def Row.AgreeOn (columns : List String) (a b : Row) : Prop :=
  ∀ column ∈ columns, a.get column = b.get column

theorem Row.AgreeOn.project_eq {columns fields : List String} {a b : Row}
    (agree : a.AgreeOn columns b) (inside : fields ⊆ columns) : a.project fields = b.project fields :=
  map_congr_left fun field listed => agree field (inside listed)

/-- What the keys of groups tell is what the keys of all entries tell, but for repetitions. -/
theorem Groups.distinct_filterMap_ofList {α : Type} {entries : List (List Value × α)}
    {tell : List Value → Option Value} (usable : ∀ key ∈ entries.map Prod.fst, key.all hashable)
    (told : ∀ key ∈ entries.map Prod.fst, ∀ v, tell key = some v → v.hashable)
    (alike : ∀ a ∈ entries.map Prod.fst, ∀ b ∈ entries.map Prod.fst,
      a.map key? = b.map key? → (tell a).map key? = (tell b).map key?) :
    distinct ((ofList sameKeys entries).filterMap fun group => tell group.1) =
      distinct (entries.filterMap fun entry => tell entry.1) := by
  induction entries using reverseRecOn with
  | nil => rfl
  | append_singleton entries entry ih =>
    simp only [map_append, map_singleton, forall_mem_append,
      forall_mem_singleton] at usable told alike
    have before := ih usable.1 told.1 fun a first => (alike.1 a first).1
    have gathers : Gathers (map key?) entries (ofList sameKeys entries) :=
      gathers_ofList fun a first b _ => sameKeys_iff (usable.1 a first)
    have agrees : ∀ group ∈ ofList sameKeys entries,
        sameKeys group.1 entry.1 ↔ group.1.map key? = entry.1.map key? := fun group member =>
      sameKeys_iff (usable.1 _ (gathers.keys group member))
    rw [ofList, foldl_append, ← ofList, filterMap_append]
    show distinct ((insert sameKeys entry.1 entry.2 _).filterMap _) = _
    by_cases known : entry.1.map key? ∈ (ofList sameKeys entries).map fun group => group.1.map key?
    · -- The entry joins a group, and its key tells nothing that an earlier one did not tell.
      rw [insert_of_mem agrees gathers.unique known, filterMap_map]
      have keys : (fun group : List Value × List α => tell group.1) ∘ (fun group =>
          if group.1.map key? = entry.1.map key? then (group.1, group.2 ++ [entry.2])
          else group) = fun group => tell group.1 := by
        funext group
        rw [Function.comp_apply]
        split <;> rfl
      rw [keys, before]
      rw [gathers.mem_forms, mem_map] at known
      obtain ⟨earlier, there, form⟩ := known
      have same := (alike.1 _ (mem_map_of_mem there)).2 form
      cases tells : tell entry.1 with
      | none => simp [tells]
      | some v =>
        rw [tells, Option.map_some, Option.map_eq_some_iff] at same
        obtain ⟨w, tellsToo, key⟩ := same
        have hashable : ∀ v ∈ entries.filterMap fun entry => tell entry.1, v.hashable = true := by
          intro v member
          obtain ⟨source, inside, made⟩ := mem_filterMap.mp member
          exact told.1 _ (mem_map_of_mem inside) v made
        have repeated : (distinct (entries.filterMap fun entry => tell entry.1)).any
            (sameKey · v) = true := by
          rw [any_sameKey_iff fun u member => hashable u (mem_of_mem_distinct member),
            mem_keys_distinct hashable, ← key]
          exact mem_map_of_mem (mem_filterMap.mpr ⟨earlier, there, tellsToo⟩)
        rw [show [entry].filterMap (fun entry => tell entry.1) = [v] by simp [tells],
          distinct_concat, if_pos repeated]
    · rw [insert_of_not_mem agrees known, filterMap_append]
      cases tells : tell entry.1 with
      | none => simpa [tells] using before
      | some v =>
        have single : [entry].filterMap (fun entry => tell entry.1) = [v] := by simp [tells]
        have opened : [(entry.1, [entry.2])].filterMap (fun group => tell group.1) = [v] := by
          simp [tells]
        rw [single, opened, distinct_concat, distinct_concat, before]

namespace Source

variable {query other : GroupingQuery} {selected records : List Row}

/-- Records of one grouping of the same rows agree in all that both were asked for. -/
theorem recordsOf_agree {others : List Row} (fields : other.fields = query.fields)
    (columns : query.columns.Nodup) (columns' : other.columns.Nodup)
    (told : recordsOf query selected = .ok records) (told' : recordsOf other selected = .ok others)
    {refs : List MeasureRef} (asked : refs ⊆ query.aggregates) (asked' : refs ⊆ other.aggregates) :
    Forall₂ (Row.AgreeOn (query.fields ++ refs.map MeasureRef.column)) records others := by
  obtain ⟨made, grouped, related⟩ := recordsOf_eq_ok told
  obtain ⟨made', grouped', related'⟩ := recordsOf_eq_ok told'
  rw [fields] at grouped'
  cases grouped.symm.trans grouped'
  have lengths := (groupsBy_of_groups grouped).lengths
  refine (forall₂_of_common related related').imp ?_
  rintro record record' ⟨group, member, returned, returned'⟩
  obtain ⟨values, aggregated⟩ := groupRow_reads columns (lengths group member).symm returned
  obtain ⟨values', aggregated'⟩ :=
    groupRow_reads columns' (by rw [fields, lengths group member]) returned'
  intro column listed
  rcases mem_append.mp listed with grouped | aggregate
  · rw [fields] at values'
    exact map_inj_left.mp (values.trans values'.symm) column grouped
  · obtain ⟨ref, among, rfl⟩ := mem_map.mp aggregate
    have own := aggregated ref (asked among)
    rw [aggregated' ref (asked' among)] at own
    exact (Except.ok.inj own).symm

variable {made : Groups (List Value) Row}

/-- An aggregate that a query was told can be computed for every group. -/
theorem aggregate_of_recordsOf (columns : query.columns.Nodup)
    (told : recordsOf query selected = .ok records)
    (grouped : groups query.fields selected = .ok made) {ref : MeasureRef}
    (asked : ref ∈ query.aggregates) {group : List Value × List Row} (member : group ∈ made) :
    ∃ value, aggregate ref group.2 = .ok value := by
  obtain ⟨made', grouped', related⟩ := recordsOf_eq_ok told
  cases grouped.symm.trans grouped'
  obtain ⟨record, _, returned⟩ := exists_right_of_forall₂ related member
  have lengths := (groupsBy_of_groups grouped).lengths group member
  exact ⟨_, (groupRow_reads columns lengths.symm returned).2 ref asked⟩

theorem exists_recordsOf (grouped : groups query.fields selected = .ok made)
    (each : ∀ ref ∈ query.aggregates, ∀ group ∈ made, ∃ value, aggregate ref group.2 = .ok value) :
    ∃ records, recordsOf query selected = .ok records := by
  have rows : ∀ group ∈ made, ∃ record, groupRow query group.1 group.2 = .ok record ∧ True := by
    intro group member
    have computed : ∀ ref ∈ query.aggregates, ∀ row : Row, ∃ next : Row,
        (do return row.set ref.column (← aggregate ref group.2) : Outcome Row) = .ok next := by
      intro ref asked row
      obtain ⟨value, returned⟩ := each ref asked group member
      exact ⟨_, Outcome.bind_eq_ok.mpr ⟨value, returned, rfl⟩⟩
    obtain ⟨record, returned⟩ := Outcome.exists_foldlM computed (query.fields.zip group.1)
    exact ⟨record, returned, trivial⟩
  obtain ⟨records, made, _⟩ := Outcome.exists_mapM_eq_ok rows
  exact ⟨records, Outcome.bind_eq_ok.mpr ⟨_, grouped, made⟩⟩

/-! ### Values that records tell -/

private theorem groups_eq_ofList {fields : List String} (returned : groups fields selected = .ok made)
    (some : fields ≠ []) :
    made = Groups.ofList sameKeys (selected.map fun row => (row.project fields, row)) := by
  unfold groups at returned
  simp only at returned
  split at returned
  · split at returned
    · exact absurd rfl some
    · exact (Except.ok.inj returned).symm
  · cases returned

section Columns

variable {above : List String} {field : String} {values : Row}

/-- What a row says in a field, if it has the given values. -/
def toldUnder (above : List String) (field : String) (values row : Row) : Option Value :=
  if above.all fun name => (row.get name).same (values.get name) then some (row.get field) else none

theorem columnUnder_eq_filterMap (rows : List Row) :
    columnUnder above field values rows = rows.filterMap (toldUnder above field values) := by
  induction rows with
  | nil => rfl
  | cons row rows ih =>
    rw [filterMap_cons, ← ih, columnUnder, filter_cons, toldUnder]
    split <;> rfl

variable {a b : Row}

theorem all_same_congr (same : ∀ name ∈ above,
      (a.get name).same (values.get name) ↔ (b.get name).same (values.get name)) :
    (above.all fun name => (a.get name).same (values.get name)) =
      above.all fun name => (b.get name).same (values.get name) := by
  rw [Bool.eq_iff_iff, all_eq_true, all_eq_true]
  exact forall₂_congr same

theorem toldUnder_congr (agree : a.AgreeOn (above ++ [field]) b) :
    toldUnder above field values a = toldUnder above field values b := by
  rw [toldUnder, toldUnder, all_same_congr (b := b), agree field (by simp)]
  intro name listed
  rw [agree name (mem_append_left _ listed)]

theorem columnUnder_congr {rows rows' : List Row}
    (agree : Forall₂ (Row.AgreeOn (above ++ [field])) rows rows') :
    columnUnder above field values rows = columnUnder above field values rows' := by
  rw [columnUnder_eq_filterMap, columnUnder_eq_filterMap]
  induction agree with
  | nil => rfl
  | cons same _ ih => rw [filterMap_cons, filterMap_cons, ih, toldUnder_congr same]

private theorem key?_toldUnder_eq
    (numbers : ∀ name ∈ above, (a.get name).isNan = false ∧ (b.get name).isNan = false)
    (usable : ∀ name ∈ above, (values.get name).hashable)
    (keys : ∀ name ∈ above ++ [field], (a.get name).key? = (b.get name).key?) :
    (toldUnder above field values a).map key? = (toldUnder above field values b).map key? := by
  rw [toldUnder, toldUnder, all_same_congr (b := b)]
  · split
    · rw [Option.map_some, Option.map_some, keys field (by simp)]
    · rfl
  · intro name listed
    rw [same_iff_key?_eq (numbers name listed).1 (usable name listed),
      same_iff_key?_eq (numbers name listed).2 (usable name listed),
      keys name (mem_append_left _ listed)]

private theorem hashable_of_recordsOf (told : recordsOf query selected = .ok records) {row : Row}
    (member : row ∈ selected) {name : String} (grouped : name ∈ query.fields) :
    (row.get name).hashable := by
  obtain ⟨made, returned, _⟩ := recordsOf_eq_ok told
  have usable := (groupsBy_of_groups returned).usable row member
  exact all_eq_true.mp usable _ (mem_map_of_mem grouped)

/-- Below given values, records tell the distinct values of the selected rows in a field. -/
theorem distinct_columnUnder_records (inside : above ++ [field] ⊆ query.fields)
    (columns : query.columns.Nodup) (told : recordsOf query selected = .ok records)
    (numbers : ∀ row ∈ selected, ∀ name ∈ above, (row.get name).isNan = false)
    (usable : ∀ name ∈ above, (values.get name).hashable) :
    distinct (columnUnder above field values records) =
      distinct (columnUnder above field values selected) := by
  obtain ⟨made, grouped, related⟩ := recordsOf_eq_ok told
  have fields : query.fields.Nodup := (nodup_append.mp columns).1
  have groupsBy := groupsBy_of_groups grouped
  -- A row stands for its values in the grouped fields, and so does a record.
  have stands {row : Row} {values : List Value} (lengths : query.fields.length = values.length)
      (same : row.project query.fields = values) :
      row.AgreeOn (above ++ [field]) (query.fields.zip values) := by
    rw [← Row.project_zip fields lengths] at same
    exact fun name listed => map_inj_left.mp same name (inside listed)
  have ofRow (row : Row) : row.AgreeOn (above ++ [field])
      (query.fields.zip (row.project query.fields)) := stands (by simp [Row.project]) rfl
  let tell (key : List Value) : Option Value := toldUnder above field values (query.fields.zip key)
  have ofRecords : columnUnder above field values records =
      made.filterMap fun group => tell group.1 := by
    have each : records.map (toldUnder above field values) =
        made.map fun group => tell group.1 := by
      rw [← forall₂_eq_eq_eq, forall₂_map_left_iff, forall₂_map_right_iff]
      refine ((forall₂_and_left _ _).mpr ⟨fun _ member => member, related⟩).flip.imp ?_
      rintro record group ⟨member, returned⟩
      have lengths := (groupsBy.lengths group member).symm
      exact toldUnder_congr (stands lengths (groupRow_reads columns lengths returned).1)
    have collected := congrArg (filterMap id) each
    rw [filterMap_map, filterMap_map] at collected
    rw [columnUnder_eq_filterMap]
    exact collected
  have ofSelected : columnUnder above field values selected =
      (selected.map fun row => (row.project query.fields, row)).filterMap
        fun entry => tell entry.1 := by
    rw [columnUnder_eq_filterMap, filterMap_map]
    exact filterMap_congr fun row _ => toldUnder_congr (ofRow row)
  have some : query.fields ≠ [] := ne_nil_of_mem (inside (by simp : field ∈ above ++ [field]))
  rw [ofRecords, ofSelected, groups_eq_ofList grouped some]
  have ofEntries {P : List Value → Prop} (each : ∀ row ∈ selected, P (row.project query.fields)) :
      ∀ key ∈ (selected.map fun row => (row.project query.fields, row)).map Prod.fst, P key := by
    rw [map_map, forall_mem_map]
    exact each
  refine Groups.distinct_filterMap_ofList (ofEntries groupsBy.usable) (ofEntries ?_)
    (ofEntries fun row there => ofEntries fun row' there' form => ?_)
  · intro row member v tells
    rw [show tell _ = toldUnder above field values row from (toldUnder_congr (ofRow row)).symm,
      toldUnder] at tells
    split at tells
    · rw [← Option.some.inj tells]
      exact hashable_of_recordsOf told member (inside (by simp))
    · cases tells
  · show (toldUnder above field values _).map _ = (toldUnder above field values _).map _
    rw [← toldUnder_congr (ofRow row), ← toldUnder_congr (ofRow row')]
    refine key?_toldUnder_eq (fun name listed => ⟨numbers row there name listed,
      numbers row' there' name listed⟩) usable fun name listed => ?_
    rw [Row.project, Row.project, map_map, map_map] at form
    exact map_inj_left.mp form name (inside listed)

end Columns

end Source

end Crosstab
