import Crosstab.Proofs.Source.Integers
import Crosstab.Proofs.Tabulation

/-!
# Rollups

Where one query groups by some fields of another, its counts, sums and extremes can be taken from
the finer records below each of its own.
-/
namespace Crosstab.Source

open List Aggregate Value

def agree (fields : List String) (a b : Row) : Bool :=
  fields.all fun field => (a.get field).same (b.get field)

/-- The records of a fine answer below a record of a coarse one. -/
def below (fields : List String) (fine : List Row) (record : Row) : List Row :=
  fine.filter fun part => agree fields part record

/-- A coarse answer tells what can be put together from a fine one. -/
structure RollsUp (source : List Row) (fine coarse : GroupingQuery) (parts wholes : List Row) :
    Prop where
  one_whole : ∀ part ∈ parts, ∃ whole, wholes.filter (agree coarse.fields part) = [whole]
  counts : ∀ name, ⟨none, name⟩ ∈ fine.aggregates → ⟨none, name⟩ ∈ coarse.aggregates →
    ∀ whole ∈ wholes, ∃ counts : List Nat,
      (below coarse.fields parts whole).map (fun part => part.get (column none name)) =
        counts.map (fun n : Nat => Value.int n) ∧
      whole.get (column none name) = .int counts.sum
  /-- Null is left out, and a whole is null where there is nothing else. -/
  folds : ∀ name fold, FoldsBy name fold → ∀ field, HoldsIntegers field source →
    ⟨some field, name⟩ ∈ fine.aggregates → ⟨some field, name⟩ ∈ coarse.aggregates →
    ∀ whole ∈ wholes, ∃ numbers : List (Option Int),
      (below coarse.fields parts whole).map
        (fun part => part.get (column (some field) name)) = numbers.map ofInt? ∧
      whole.get (column (some field) name) = ofInt? (fold numbers.reduceOption)

section Refinement

variable {source matched parts wholes : List Row} {fine coarse : GroupingQuery}

theorem form_eq_of_finer (within : coarse.fields ⊆ fine.fields) {a b : Row}
    (same : form fine a = form fine b) : form coarse a = form coarse b := by
  rw [form_eq_iff] at same ⊢
  exact fun field member => same field (within member)

variable (within : coarse.fields ⊆ fine.fields)
  (numbers : ∀ row ∈ matched, ∀ field ∈ fine.fields, (row.get field).isNan = false)
  (finer : Records fine matched parts) (coarser : Records coarse matched wholes)

include within numbers finer coarser in
theorem agree_iff {part whole : Row} (inParts : part ∈ parts) (inWholes : whole ∈ wholes) :
    agree coarse.fields part whole ↔ form coarse part = form coarse whole := by
  unfold agree
  rw [all_eq_true, form_eq_iff]
  refine forall₂_congr fun field grouped => ?_
  obtain ⟨row, there, value⟩ := finer.exists_row inParts (within grouped)
  have number : (part.get field).isNan = false := value ▸ numbers row there field (within grouped)
  exact same_iff_key?_eq number (coarser.hashable inWholes grouped)

include within finer coarser in
private theorem exists_whole {part : Row} (inParts : part ∈ parts) :
    ∃ whole ∈ wholes, form coarse whole = form coarse part := by
  rcases finer.drawn part inParts with total | ⟨row, there, values⟩
  -- Without fields there is one coarse record, and it agrees with everything.
  · have none : coarse.fields = [] := subset_nil.mp (total ▸ within)
    obtain ⟨whole, member⟩ := exists_mem_of_ne_nil _ (coarser.total none)
    exact ⟨whole, member, by simp [form, none, Row.project]⟩
  · obtain ⟨whole, member, same⟩ := mem_map.mp (coarser.covers row there)
    have ofRow : form fine row = form fine part := by rw [form, form, values]
    exact ⟨whole, member, same.trans (form_eq_of_finer within ofRow)⟩

include within numbers finer coarser in
private theorem filter_agree {part : Row} (inParts : part ∈ parts) :
    ∃ whole, wholes.filter (agree coarse.fields part) = [whole] := by
  obtain ⟨whole, member, same⟩ := exists_whole within finer coarser inParts
  refine ⟨whole, ?_⟩
  rw [← filter_of_nodup_map coarser.unique member]
  apply filter_congr
  intro other there
  rw [Bool.eq_iff_iff, agree_iff within numbers finer coarser inParts there, decide_eq_true_iff,
    same, eq_comm]

include within numbers finer coarser in
/-- The rows of a coarse record are those of the fine records below it, put together. -/
theorem perm_rowsOf_below {whole : Row} (inWholes : whole ∈ wholes) :
    ((below coarse.fields parts whole).flatMap (rowsOf fine matched)).Perm
      (rowsOf coarse matched whole) := by
  have isBelow {part : Row} : part ∈ below coarse.fields parts whole ↔
      part ∈ parts ∧ form coarse part = form coarse whole := by
    rw [below, mem_filter]
    refine and_congr_right fun inParts => ?_
    exact agree_iff within numbers finer coarser inParts inWholes
  have unique : ((below coarse.fields parts whole).map (form fine)).Nodup :=
    finer.unique.sublist (filter_sublist.map _)
  have covered : ∀ row ∈ rowsOf coarse matched whole,
      form fine row ∈ (below coarse.fields parts whole).map (form fine) := by
    intro row member
    obtain ⟨there, same⟩ := mem_filter.mp member
    obtain ⟨part, inParts, equal⟩ := mem_map.mp (finer.covers row there)
    refine mem_map.mpr ⟨part, isBelow.mpr ⟨inParts, ?_⟩, equal⟩
    exact (form_eq_of_finer within equal).trans (of_decide_eq_true same)
  have apart := perm_flatMap_filter unique covered
  rw [flatMap_map] at apart
  -- The rows of a fine record below are all among the rows of the coarse one.
  have same : (below coarse.fields parts whole).flatMap (rowsOf fine matched) =
      (below coarse.fields parts whole).flatMap fun part =>
        (rowsOf coarse matched whole).filter fun row => form fine row = form fine part := by
    apply flatMap_congr
    intro part member
    rw [rowsOf, rowsOf, filter_filter]
    apply filter_congr
    intro row _
    by_cases equal : form fine row = form fine part
    · simp [equal, (form_eq_of_finer within equal).trans (isBelow.mp member).2]
    · simp [equal]
  rw [same]
  exact apart

variable (tellsParts : Tells fine matched parts) (tellsWholes : Tells coarse matched wholes)

include within numbers tellsParts tellsWholes in
private theorem counts_below {name : String} (inFine : ⟨none, name⟩ ∈ fine.aggregates)
    (inCoarse : ⟨none, name⟩ ∈ coarse.aggregates) {whole : Row} (inWholes : whole ∈ wholes) :
    ∃ counts : List Nat,
      (below coarse.fields parts whole).map (fun part => part.get (column none name)) =
        counts.map (fun n : Nat => Value.int n) ∧
      whole.get (column none name) = .int counts.sum := by
  have rows := perm_rowsOf_below within numbers tellsParts.toRecords tellsWholes.toRecords inWholes
  refine ⟨(below coarse.fields parts whole).map fun part => (rowsOf fine matched part).length,
    ?_, ?_⟩
  · rw [map_map]
    apply map_congr_left
    intro part member
    have counted := tellsParts.aggregates part (mem_filter.mp member).1 _ inFine
    exact (Except.ok.inj counted).symm
  · have counted := tellsWholes.aggregates whole inWholes _ inCoarse
    have together := rows.length_eq
    rw [length_flatMap] at together
    rw [together]
    exact (Except.ok.inj counted).symm

include within numbers tellsParts tellsWholes in
private theorem folds_below {name : String} {fold : List Int → Option Int} (folds : FoldsBy name fold)
    {field : String} (holds : HoldsIntegers field matched)
    (inFine : ⟨some field, name⟩ ∈ fine.aggregates)
    (inCoarse : ⟨some field, name⟩ ∈ coarse.aggregates) {whole : Row} (inWholes : whole ∈ wholes) :
    ∃ numbers : List (Option Int),
      (below coarse.fields parts whole).map
        (fun part => part.get (column (some field) name)) = numbers.map ofInt? ∧
      whole.get (column (some field) name) = ofInt? (fold numbers.reduceOption) := by
  have rows := perm_rowsOf_below within numbers tellsParts.toRecords tellsWholes.toRecords inWholes
  have inRows (query : GroupingQuery) (record : Row) :
      HoldsIntegers field (rowsOf query matched record) :=
    holds.of_subset (filter_subset_self _)
  refine ⟨(below coarse.fields parts whole).map fun part =>
    fold (integers field (rowsOf fine matched part)), ?_, ?_⟩
  · rw [map_map]
    apply map_congr_left
    intro part member
    have told := tellsParts.aggregates part (mem_filter.mp member).1 _ inFine
    rw [aggregate_integers folds (inRows _ _)] at told
    exact (Except.ok.inj told).symm
  · have told := tellsWholes.aggregates whole inWholes _ inCoarse
    rw [aggregate_integers folds (inRows _ _)] at told
    -- The integers of the whole are those of the parts, up to their order.
    have merged := folds.merges.fold_append_flatten []
      ((below coarse.fields parts whole).map fun part =>
        integers field (rowsOf fine matched part))
    have arranged : (integers field _).Perm (integers field _) := rows.filterMap _
    rw [nil_append, nil_append, ← integers_flatMap, folds.merges.perm arranged, map_map] at merged
    exact (Except.ok.inj told).symm.trans (congrArg ofInt? merged)

end Refinement

variable {source parts wholes : List Row} {fine coarse : GroupingQuery}

/-- The answer to a query that groups the same rows by some of the fields of another query can be
put together from the answer to the other. -/
theorem coarse_answer_rolls_up (within : coarse.fields ⊆ fine.fields)
    (selected : ∀ row ∈ source,
      (Filter.passes fine.filter row).isTrue = (Filter.passes coarse.filter row).isTrue)
    (answeredFine : answer source fine = .ok parts)
    (answeredCoarse : answer source coarse = .ok wholes)
    (fineColumns : fine.columns.Nodup) (coarseColumns : coarse.columns.Nodup)
    (numbers : ∀ row ∈ source, ∀ field ∈ fine.fields, (row.get field).isNan = false) :
    RollsUp source fine coarse parts wholes := by
  obtain ⟨matched, _, passed, _, _⟩ := answer_eq_ok answeredFine
  obtain ⟨others, _, passedCoarse, _, _⟩ := answer_eq_ok answeredCoarse
  have same : others = matched := by
    rw [(Outcome.filterM_eq_ok passed).2, (Outcome.filterM_eq_ok passedCoarse).2]
    exact List.filter_congr fun row member => (selected row member).symm
  rw [same] at passedCoarse
  have tellsParts := tells_of_answer answeredFine passed fineColumns
  have tellsWholes := tells_of_answer answeredCoarse passedCoarse coarseColumns
  have listed : matched ⊆ source := by
    rw [(Outcome.filterM_eq_ok passed).2]
    exact List.filter_subset_self _
  have numbers' : ∀ row ∈ matched, ∀ field ∈ fine.fields, (row.get field).isNan = false :=
    fun row member => numbers row (listed member)
  refine ⟨?_, ?_, ?_⟩
  · intro part inParts
    exact filter_agree within numbers' tellsParts.toRecords tellsWholes.toRecords inParts
  · intro name inFine inCoarse whole inWholes
    exact counts_below within numbers' tellsParts tellsWholes inFine inCoarse inWholes
  · intro name fold folds field holds inFine inCoarse whole inWholes
    exact folds_below within numbers' tellsParts tellsWholes folds (holds.of_subset listed) inFine
      inCoarse inWholes

/-- Pay by job and town rolls up to pay by job, where the pay of the clerk is not known. -/
theorem pay_by_job_rolls_up :
    let schema := Schema.ofNames ["job", "town"] ["pay"]
    let pay := Item.measure "pay" ["sum", "max"]
    let statement : Statement :=
      { rows := [[.column "job"], [.overall]], cols := some [[.column "town", pay], [.overall, pay]] }
    let source := Row.table ["job", "town", "pay"] [["cook", "York", 5],
      ["cook", "Bath", .int (-3)], ["clerk", "York", .null], ["cook", "York", 10]]
    ∃ t : Tabulation schema {} statement source,
      ∃ fine ∈ t.plan.mainQueries, ∃ coarse ∈ t.plan.mainQueries, ∃ parts wholes,
        fine.fields = ["job", "town"] ∧ coarse.fields = ["job"] ∧
        t.results.lookup fine.key = some parts ∧ t.results.lookup coarse.key = some wholes ∧
        parts.map (fun part => (part.get "sum_pay").plain) = ["15", "-3", "None"] ∧
        wholes.map (fun whole => (whole.get "sum_pay").plain) = ["12", "None"] ∧
        RollsUp source fine coarse parts wholes := by
  intro schema pay statement source
  obtain ⟨t, fine, inFine, coarse, inCoarse, fineFields, coarseFields, fineColumns, coarseColumns,
      selected, ⟨parts, atFine, shownFine⟩, wholes, atCoarse, shownCoarse⟩ :
      ∃ t : Tabulation schema {} statement source,
        ∃ fine ∈ t.plan.mainQueries, ∃ coarse ∈ t.plan.mainQueries,
          fine.fields = ["job", "town"] ∧ coarse.fields = ["job"] ∧
          fine.columns.Nodup ∧ coarse.columns.Nodup ∧
          (∀ row ∈ source,
            (Filter.passes fine.filter row).isTrue = (Filter.passes coarse.filter row).isTrue) ∧
          (∃ parts ∈ t.results.lookup fine.key,
            parts.map (fun part => (part.get "sum_pay").plain) = ["15", "-3", "None"]) ∧
          ∃ wholes ∈ t.results.lookup coarse.key,
            wholes.map (fun whole => (whole.get "sum_pay").plain) = ["12", "None"] :=
    Tabulation.exists_of_run (by decide +kernel)
  obtain ⟨_, _, looked, answeredFine⟩ := t.find_answer inFine
  cases atFine.symm.trans looked
  obtain ⟨_, _, looked, answeredCoarse⟩ := t.find_answer inCoarse
  cases atCoarse.symm.trans looked
  refine ⟨t, fine, inFine, coarse, inCoarse, parts, wholes, fineFields, coarseFields, atFine,
    atCoarse, shownFine, shownCoarse, ?_⟩
  refine coarse_answer_rolls_up ?_ selected answeredFine answeredCoarse fineColumns coarseColumns ?_
  · rw [fineFields, coarseFields]
    decide
  · rw [fineFields]
    decide

end Crosstab.Source
