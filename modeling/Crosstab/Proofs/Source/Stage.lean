import Crosstab.Proofs.Grid.Reading
import Crosstab.Proofs.Source.Selected

/-!
# Stages answered from the same rows

The queries of a stage answer its requests from the rows that they select, whatever the conditions
were. Where two tables ask alike at a crossing, its measures read the same numbers.
-/
namespace Crosstab

open List Source ResolvedTable Outcome

/-- Queries that answer requests, all of them from the same rows of a source. -/
structure AnsweredFrom (source selected : List Row) (requests : List QueryRequest)
    (queries : List GroupingQuery) (results : Results) : Prop
    extends AnsweredBy source requests queries results where
  selects : ∀ request ∈ requests, matching request.filter source = .ok selected

/-- Two requests group the same rows of a source alike, and one of them asks for all aggregates that
the other asks for. -/
structure QueryRequest.Covers (source : List Row) (request other : QueryRequest) : Prop where
  fields : sortedTexts request.fields = sortedTexts other.fields
  aggregates : other.aggregates ⊆ request.aggregates
  selects : ∃ selected, matching request.filter source = .ok selected ∧
    matching other.filter source = .ok selected

namespace AnsweredBy

variable {source : List Row} {requests requests' : List QueryRequest}
  {queries queries' : List GroupingQuery} {results : Results}

/-- A stage whose requests are covered by those of another can be answered too. -/
theorem exists_of_covered (stage : AnsweredBy source requests queries results)
    (answers : Answers requests' queries') (faithful : FaithfulKeys requests' source)
    (columns : ∀ query ∈ queries', query.columns.Nodup)
    (covered : ∀ request' ∈ requests', ∃ request ∈ requests, request.Covers source request') :
    ∃ results', AnsweredBy source requests' queries' results' := by
  have each : ∀ query ∈ queries', ∃ entry : String × List Row,
      (do return (query.key, ← answer source query) : Outcome _) = .ok entry ∧ True := by
    intro query member
    obtain ⟨first, listed, sameKey, fields, filter⟩ := answers.exists_request member
    -- The rows are grouped as in an answer of the first stage, so they can be grouped here.
    obtain ⟨request, requested, covers⟩ := covered first listed
    obtain ⟨selected, selects, passed⟩ := covers.selects
    obtain ⟨served, _, serves⟩ := stage.exists_serves requested (filterM_eq_ok selects).2
    obtain ⟨made, grouped, _⟩ := recordsOf_eq_ok serves.told
    rw [serves.fields, covers.fields, ← fields] at grouped
    obtain ⟨records, told⟩ := exists_recordsOf grouped fun ref asked group inside => by
      obtain ⟨request', listed', key, among⟩ := (answers.aggregates query member ref).mp asked
      obtain ⟨sameFields, sameRows⟩ := faithful request' listed' first listed (key.trans sameKey.symm)
      obtain ⟨own, requestedOwn, coversOwn⟩ := covered request' listed'
      obtain ⟨selected', selectsOwn, passed'⟩ := coversOwn.selects
      obtain rfl : selected' = selected := by
        rw [(filterM_eq_ok passed').2, (filterM_eq_ok passed).2, filter_congr sameRows]
      obtain ⟨server, _, servesOwn⟩ := stage.exists_serves requestedOwn (filterM_eq_ok selectsOwn).2
      have sameGrouping : server.fields = query.fields := by
        rw [servesOwn.fields, coversOwn.fields, fields, sameFields]
      exact aggregate_of_recordsOf servesOwn.columns servesOwn.told
        (sameGrouping ▸ grouped) (servesOwn.asked (coversOwn.aggregates among)) inside
    have told := (answer_eq_ok_iff (filter ▸ passed)).mpr told
    exact ⟨_, Outcome.bind_eq_ok.mpr ⟨records, told, rfl⟩, trivial⟩
  obtain ⟨results', answered, _⟩ := Outcome.exists_mapM_eq_ok each
  exact ⟨results', answers, faithful, columns, answered⟩

theorem missingKeys_eq_nil {plan : QueryPlan}
    (stage : AnsweredBy source requests plan.mainQueries results) :
    missingKeys plan results = [] := by
  unfold missingKeys
  rw [filter_eq_nil_iff, forall_mem_map]
  intro query member
  obtain ⟨records, looked, _⟩ := lookup_answerAll stage.answered stage.answers.nodup_keys member
  simp [looked]

end AnsweredBy

namespace AnsweredFrom

variable {source selected : List Row} {requests requests' : List QueryRequest}
  {queries queries' : List GroupingQuery} {results : Results}
  (stage : AnsweredFrom source selected requests queries results)
include stage

theorem exists_serves {request : QueryRequest} (requested : request ∈ requests) :
    ∃ query records, Serves selected queries results request query records :=
  stage.toAnsweredBy.exists_serves requested (filterM_eq_ok (stage.selects request requested)).2

/-- A stage whose requests are covered by those of another can be answered from the same rows. -/
theorem exists_of_covered
    (answers : Answers requests' queries') (faithful : FaithfulKeys requests' source)
    (columns : ∀ query ∈ queries', query.columns.Nodup)
    (selects : ∀ request ∈ requests', matching request.filter source = .ok selected)
    (covered : ∀ request' ∈ requests', ∃ request ∈ requests,
      sortedTexts request.fields = sortedTexts request'.fields ∧
        request'.aggregates ⊆ request.aggregates) :
    ∃ results', AnsweredFrom source selected requests' queries' results' := by
  obtain ⟨results', stage'⟩ := stage.toAnsweredBy.exists_of_covered answers faithful columns
    fun request' member => by
      obtain ⟨request, requested, fields, aggregates⟩ := covered request' member
      exact ⟨request, requested, fields, aggregates, selected, stage.selects request requested,
        selects request' member⟩
  exact ⟨results', stage', selects⟩

end AnsweredFrom

/-! ### The same rows for the same values -/

namespace Serves

variable {selected : List Row} {queries queries' : List GroupingQuery} {results results' : Results}
  {request request' : QueryRequest} {query query' : GroupingQuery} {records records' : List Row}

variable (fields : sortedTexts request'.fields = sortedTexts request.fields)
  (aggregates : request'.aggregates = request.aggregates)

include fields aggregates

theorem agree (serves : Serves selected queries results request query records)
    (serves' : Serves selected queries' results' request' query' records') :
    Forall₂ (Row.AgreeOn (query.fields ++ request.aggregates.map MeasureRef.column))
      records records' := by
  refine recordsOf_agree ?_ serves.columns serves'.columns serves.told serves'.told
    serves.asked (aggregates ▸ serves'.asked)
  rw [serves'.fields, serves.fields, fields]

variable {plan plan' : QueryPlan}
  (serves : Serves selected plan.mainQueries results request query records)
  (serves' : Serves selected plan'.mainQueries results' request' query' records')

include serves serves'

theorem findRow_related (values : Row) :
    Outcome.Related
      (Option.Rel (Row.AgreeOn (query.fields ++ request.aggregates.map MeasureRef.column)))
      (findRow plan results request.key values) (findRow plan' results' request'.key values) := by
  have agree := agree fields aggregates serves serves'
  have sameFields : query'.fields = query.fields := by rw [serves'.fields, serves.fields, fields]
  have projections : records.map (fun row => row.project query.fields) =
      records'.map fun row => row.project query.fields := by
    rw [← forall₂_eq_eq_eq, forall₂_map_left_iff, forall₂_map_right_iff]
    exact agree.imp fun _ _ related => related.project_eq (subset_append_left _ _)
  have hashable : (records.all fun row => (row.project query.fields).all Value.hashable) =
      records'.all fun row => (row.project query.fields).all Value.hashable := by
    have all := congrArg (fun keys : List (List Value) => keys.all (all · Value.hashable))
      projections
    simp only [all_map] at all
    exact all
  unfold findRow QueryPlan.query?
  rw [serves.found, serves.looked, serves'.found, serves'.looked]
  simp only [sameFields, hashable]
  split
  · refine .ok (rel_find? (rel_reverse agree) ?_)
    intro row row' related
    rw [related.project_eq (subset_append_left _ _)]
  · exact .error _

private theorem readColumn_eq {measure measure' : Measure}
    (base : measure'.base = measure.base) (based : measure.base ∈ request.aggregates) (values : Row) :
    readColumn plan' results' measure' values request' =
      readColumn plan results measure values request := by
  refine ((findRow_related fields aggregates serves serves' values).bind_eq ?_).symm
  intro found found' agree
  obtain ⟨rfl, rfl⟩ | ⟨row, row', rfl, rfl, alike⟩ := cases_of_rel agree
  · rfl
  · have column := alike measure.base.column
      (mem_append_right _ (mem_map_of_mem based))
    simp only [Measure.shownIn, base, column]

end Serves

/-! ### Crossings -/

/-- Requests for the same aggregates of one grouping, answered from the same rows. -/
structure ServedAlike (plan : QueryPlan) (results : Results) (plan' : QueryPlan) (results' : Results)
    (request request' : QueryRequest) : Prop where
  fields : sortedTexts request'.fields = sortedTexts request.fields
  aggregates : request'.aggregates = request.aggregates
  serves : ∃ selected query records query' records',
    Serves selected plan.mainQueries results request query records ∧
      Serves selected plan'.mainQueries results' request' query' records'

variable {plan plan' : QueryPlan} {results results' : Results} {resolved resolved' : ResolvedTable}

private theorem ServedAlike.findRow_related {request request' : QueryRequest} (values : Row)
    (served : ServedAlike plan results plan' results' request request') :
    Outcome.Related (fun _ _ => True) (findRow plan results request.key values)
      (findRow plan' results' request'.key values) := by
  obtain ⟨_, _, _, _, _, serves, serves'⟩ := served.serves
  exact (serves.findRow_related served.fields served.aggregates serves' values).imp fun _ _ _ => trivial

private theorem ServedAlike.readColumn_eq {request request' : QueryRequest} {measure measure' : Measure}
    (served : ServedAlike plan results plan' results' request request')
    (base : measure'.base = measure.base) (based : measure.base ∈ request.aggregates) (values : Row) :
    ResolvedTable.readColumn plan' results' measure' values request' =
      ResolvedTable.readColumn plan results measure values request := by
  obtain ⟨_, _, _, _, _, serves, serves'⟩ := served.serves
  exact serves.readColumn_eq served.fields served.aggregates serves' base based values

namespace ResolvedTable

/-- Where two branches cross, one table asks for the same as the other does where two others cross,
as far as `Q` tells. Its measures are changed in their names or shares only. -/
structure CrossesAlike (Q : QueryRequest → QueryRequest → Prop) (change : Measure → Measure)
    (resolved resolved' : ResolvedTable) (rowBranch colBranch rowBranch' colBranch' : List Node) :
    Prop where
  base : ∀ measure, (change measure).base = measure.base
  format : ∀ measure, (change measure).format = measure.format
  measures : resolved'.table.cellMeasures rowBranch' colBranch' =
    (resolved.table.cellMeasures rowBranch colBranch).map change
  cell : Q (resolved.cellRequest rowBranch colBranch) (resolved'.cellRequest rowBranch' colBranch')
  denominator : ∀ measure, Option.Rel Q (resolved.denominatorRequest rowBranch colBranch measure)
    (resolved'.denominatorRequest rowBranch' colBranch' (change measure))

namespace CrossesAlike

variable {Q : QueryRequest → QueryRequest → Prop} {change : Measure → Measure}

/-- Every request of the one crossing is one of the other. -/
theorem exists_request {rowBranch colBranch rowBranch' colBranch' : List Node}
    (alike : CrossesAlike Q change resolved resolved' rowBranch colBranch rowBranch' colBranch')
    {request' : QueryRequest} (member : request' ∈ resolved'.crossingRequests rowBranch' colBranch') :
    ∃ request ∈ resolved.crossingRequests rowBranch colBranch, Q request request' := by
  rcases mem_cons.mp member with rfl | within
  · exact ⟨_, mem_cons_self, alike.cell⟩
  · obtain ⟨measure', shown', made⟩ := mem_filterMap.mp within
    rw [alike.measures] at shown'
    obtain ⟨measure, shown, rfl⟩ := mem_map.mp shown'
    obtain ⟨_, none⟩ | ⟨request, _, first, second, same⟩ := cases_of_rel (alike.denominator measure)
    · cases none.symm.trans made
    · cases second.symm.trans made
      exact ⟨request, mem_cons_of_mem _ (mem_filterMap.mpr ⟨measure, shown, first⟩), same⟩

variable {row col row' col' : Leaf}
  (alike : CrossesAlike Q change resolved resolved' row.branch col.branch row'.branch col'.branch)
  (served : ∀ request ∈ resolved.crossingRequests row.branch col.branch,
    ∀ request' ∈ resolved'.crossingRequests row'.branch col'.branch, Q request request' →
      ServedAlike plan results plan' results' request request')
  (values : ∀ field, ((row'.crossValues col').get field).key? = ((row.crossValues col).get field).key?)

include alike served values

private theorem readMeasure_eq {measure : Measure}
    (shown : measure ∈ resolved.table.cellMeasures row.branch col.branch) :
    resolved'.readMeasure plan' results' row' col' (change measure) =
      resolved.readMeasure plan results row col measure := by
  have shown' : change measure ∈ resolved'.table.cellMeasures row'.branch col'.branch := by
    rw [alike.measures]
    exact mem_map_of_mem shown
  -- The number itself, and then the denominator of a share.
  refine readMeasure_eq_of_columns ((readColumn_congr values _).trans ?_) ?_
  · exact (served _ mem_cons_self _ mem_cons_self alike.cell).readColumn_eq (alike.base measure)
      (mem_map_of_mem shown) _
  · obtain ⟨undivided, undivided'⟩ | ⟨request, request', divided, divided', same⟩ :=
      cases_of_rel (alike.denominator measure)
    · rw [undivided, undivided']
      exact .none
    · rw [divided, divided']
      refine .some ((readColumn_congr values _).trans ?_)
      have asked := mem_cons_of_mem (resolved.cellRequest row.branch col.branch)
        (mem_filterMap.mpr ⟨measure, shown, divided⟩)
      have asked' := mem_cons_of_mem (resolved'.cellRequest row'.branch col'.branch)
        (mem_filterMap.mpr ⟨_, shown', divided'⟩)
      exact (served _ asked _ asked' same).readColumn_eq (alike.base measure)
        (base_mem_of_denominatorRequest divided) _

/-- What fills the one crossing is related to what fills the other, if values that only differ in
their name and description are. -/
theorem exists_fills {schema : Schema} {settings : Settings} {R : CellValue → CellValue → Prop}
    (wellFormed : resolved.table.WellFormed schema) (wellFormed' : resolved'.table.WellFormed schema)
    (planned : resolved.plan = .ok plan) (planned' : resolved'.plan = .ok plan')
    (alongRow : row.branch ∈ resolved.table.rows.branches)
    (alongCol : col.branch ∈ resolved.table.cols.branches)
    (alongRow' : row'.branch ∈ resolved'.table.rows.branches)
    (alongCol' : col'.branch ∈ resolved'.table.cols.branches)
    (usable : row.path.hashable → col.path.hashable → row'.path.hashable ∧ col'.path.hashable)
    (told : ∀ measure raw formatted, R ⟨measure.name, raw, formatted, describeMeasure
        (describedPairs settings row.path ++ describedPairs settings col.path) measure.displayLabel⟩
      ⟨(change measure).name, raw, formatted, describeMeasure
        (describedPairs settings row'.path ++ describedPairs settings col'.path)
        (change measure).displayLabel⟩) {shown : List CellValue}
    (fills : (resolved.assembly settings plan results).Fills row col shown) :
    ∃ shown', (resolved'.assembly settings plan' results').Fills row' col' shown' ∧
      Forall₂ R shown shown' := by
  obtain ⟨usableRow, usableCol, ⟨found, looked⟩, shows⟩ :=
    (fills_iff wellFormed planned alongRow alongCol).mp fills
  obtain ⟨usableRow', usableCol'⟩ := usable usableRow usableCol
  -- Where one looks for its row without failing, so does the other.
  obtain ⟨found', looked', _⟩ := ((served _ mem_cons_self _ mem_cons_self alike.cell).findRow_related
    (row.crossValues col)).exists_of_ok looked
  rw [← findRow_congr values] at looked'
  have related : Outcome.Related (Forall₂ R)
      ((resolved.table.cellMeasures row.branch col.branch).mapM
        (resolved.showMeasure settings plan results row col))
      ((resolved'.table.cellMeasures row'.branch col'.branch).mapM
        (resolved'.showMeasure settings plan' results' row' col')) := by
    refine Outcome.Related.mapM (R := fun measure measure' =>
      measure ∈ resolved.table.cellMeasures row.branch col.branch ∧ measure' = change measure) ?_ ?_
    · rw [alike.measures, forall₂_map_right_iff, forall₂_same]
      exact fun measure member => ⟨member, rfl⟩
    · rintro measure _ ⟨member, rfl⟩
      refine (Outcome.Related.of_eq (alike.readMeasure_eq served values member).symm).bind ?_
      rintro raw _ rfl
      rw [alike.format]
      refine (Outcome.Related.of_eq rfl).bind ?_
      rintro formatted _ rfl
      exact .ok (told measure raw formatted)
  obtain ⟨shown', shows', each⟩ := related.exists_of_ok (Outcome.mapM_eq_ok.mpr shows)
  exact ⟨shown', (fills_iff wellFormed' planned' alongRow' alongCol').mpr
    ⟨usableRow', usableCol', ⟨found', looked'⟩, Outcome.mapM_eq_ok.mp shows'⟩, each⟩

end CrossesAlike

end ResolvedTable

end Crosstab
