import Crosstab.Proofs.Distinct
import Crosstab.Proofs.Sorting
import Crosstab.Query
import Mathlib.Data.List.Induction

/-!
# Merged queries

There is one query for each key, in the order of first request, with the aggregates of all requests.
The induction runs from the last request backwards.
-/
namespace Crosstab

open List GroupingQuery Sorting

/-! ### Sorted fields -/

theorem textOrder_trans (a b c : String) (first : Filter.textOrder a b)
    (second : Filter.textOrder b c) : Filter.textOrder a c := by
  simp only [Filter.textOrder, Bool.not_eq_true', decide_eq_false_iff_not, String.not_lt] at *
  exact String.le_trans first second

theorem textOrder_total (a b : String) : (Filter.textOrder a b || Filter.textOrder b a) := by
  simp only [Filter.textOrder, Bool.or_eq_true, Bool.not_eq_true', decide_eq_false_iff_not,
    String.not_lt]
  exact String.le_total a b

private theorem textOrder_antisymm (a b : String) (first : Filter.textOrder a b)
    (second : Filter.textOrder b a) : a = b := by
  simp only [Filter.textOrder, Bool.not_eq_true', decide_eq_false_iff_not, String.not_lt] at *
  exact String.le_antisymm first second

variable {texts others : List String} {refs : List MeasureRef}

theorem arrange_texts_eq_of_perm (arranged : texts.Perm others) :
    arrange Filter.textOrder texts = arrange Filter.textOrder others :=
  arrange_eq_of_perm textOrder_trans textOrder_total textOrder_antisymm arranged

theorem mem_sortedTexts {text : String} : text ∈ sortedTexts texts ↔ text ∈ texts := by
  rw [sortedTexts, mem_arrange, mem_eraseDups]

theorem nodup_sortedTexts (texts : List String) : (sortedTexts texts).Nodup :=
  (perm_arrange _ _).nodup_iff.mpr (nodup_eraseDups texts)

theorem sortedTexts_sortedTexts (texts : List String) :
    sortedTexts (sortedTexts texts) = sortedTexts texts := by
  conv_lhs => rw [sortedTexts, eraseDups_of_nodup (nodup_sortedTexts texts)]
  exact arrange_of_pairwise (pairwise_arrange textOrder_trans textOrder_total _)

theorem sortedTexts_congr (same : ∀ text, text ∈ texts ↔ text ∈ others) :
    sortedTexts texts = sortedTexts others := by
  apply arrange_texts_eq_of_perm
  rw [perm_ext_iff_of_nodup (nodup_eraseDups _) (nodup_eraseDups _)]
  intro text
  rw [mem_eraseDups, mem_eraseDups, same]

theorem sortedTexts_eq_nil : sortedTexts texts = [] ↔ texts = [] := by
  constructor
  · intro none
    rw [eq_nil_iff_forall_not_mem]
    intro text member
    rw [← mem_sortedTexts, none] at member
    cases member
  · rintro rfl
    rfl

/-! ### Requests -/

theorem mem_addRefs {more : List MeasureRef} {ref : MeasureRef} :
    ref ∈ addRefs refs more ↔ ref ∈ refs ∨ ref ∈ more := mem_adjoinAll

theorem nodup_addRefs (unique : refs.Nodup) (more : List MeasureRef) :
    (addRefs refs more).Nodup := nodup_adjoinAll unique more

/-- Queries answer requests: one query a key, with all that was asked for under it. -/
structure Answers (requests : List QueryRequest) (queries : List GroupingQuery) : Prop where
  /-- The keys come in the order of first request. -/
  keys : queries.map key = (requests.map QueryRequest.key).eraseDups
  /-- Grouping and filter are those of the first request with the key. -/
  grouping : ∀ query ∈ queries, ∃ request,
    requests.find? (fun request => request.key == query.key) = some request ∧
      query.fields = sortedTexts request.fields ∧ query.filter = request.filter
  aggregates : ∀ query ∈ queries, ∀ ref, ref ∈ query.aggregates ↔
    ∃ request ∈ requests, request.key = query.key ∧ ref ∈ request.aggregates
  unique : ∀ query ∈ queries, query.aggregates.Nodup

namespace Answers

variable {requests : List QueryRequest} {queries : List GroupingQuery} {request : QueryRequest}

private theorem nil : Answers [] [] where
  keys := rfl
  grouping := by simp
  aggregates := by simp
  unique := by simp

/-- A further request adds what it asks for, under its key. -/
theorem asked_concat {key : String} {ref : MeasureRef} :
    (∃ other ∈ requests ++ [request], other.key = key ∧ ref ∈ other.aggregates) ↔
      (∃ other ∈ requests, other.key = key ∧ ref ∈ other.aggregates) ∨
        request.key = key ∧ ref ∈ request.aggregates := by
  simp [or_and_right, exists_or]

variable (answers : Answers requests queries)

include answers

theorem mem_keys {key : String} :
    key ∈ queries.map GroupingQuery.key ↔ key ∈ requests.map QueryRequest.key := by
  rw [answers.keys, mem_eraseDups]

private theorem join (known : request.key ∈ queries.map key) :
    Answers (requests ++ [request]) (queries.map fun query =>
      if query.key == request.key then
        { query with aggregates := addRefs query.aggregates request.aggregates }
      else query) := by
  have asked : request.key ∈ requests.map QueryRequest.key := answers.mem_keys.mp known
  refine ⟨?_, ?_, ?_, ?_⟩
  · rw [map_append, map_singleton, eraseDups_concat, if_pos (by simpa using asked),
      ← answers.keys, map_map]
    apply map_congr_left
    intro query _
    simp only [Function.comp_apply]
    split <;> rfl
  · intro query' member
    obtain ⟨query, there, rfl⟩ := mem_map.mp member
    obtain ⟨first, found, fields, filter⟩ := answers.grouping query there
    have still : (requests ++ [request]).find? (fun other => other.key == query.key) =
        some first := by
      rw [find?_append, found]
      rfl
    -- Joining changes neither the key of a query nor its grouping.
    split
    · exact ⟨first, still, fields, filter⟩
    · exact ⟨first, still, fields, filter⟩
  · intro query' member ref
    obtain ⟨query, there, rfl⟩ := mem_map.mp member
    have old := answers.aggregates query there ref
    split
    next same =>
      have joined : request.key = query.key := (beq_iff_eq.mp same).symm
      exact mem_addRefs.trans ((or_congr old (by simp [joined])).trans asked_concat.symm)
    next other =>
      have apart : request.key ≠ query.key := fun equal => other (beq_iff_eq.mpr equal.symm)
      exact (old.trans (by simp [apart])).trans asked_concat.symm
  · intro query' member
    obtain ⟨query, there, rfl⟩ := mem_map.mp member
    split
    · exact nodup_addRefs (answers.unique query there) _
    · exact answers.unique query there

private theorem extend (new : request.key ∉ queries.map key) (purpose : Purpose) :
    Answers (requests ++ [request]) (queries ++ [{
      fields := sortedTexts request.fields
      aggregates := addRefs [] request.aggregates
      filter := request.filter
      purpose := purpose }]) := by
  -- A key without a query was never requested before.
  have unasked : request.key ∉ requests.map QueryRequest.key := fun member =>
    new (answers.mem_keys.mpr member)
  have ownKey : key {
      fields := sortedTexts request.fields
      aggregates := addRefs [] request.aggregates
      filter := request.filter
      purpose := purpose } = request.key := by
    simp only [key, keyFor, QueryRequest.key, sortedTexts_sortedTexts]
  refine ⟨?_, ?_, ?_, ?_⟩
  · rw [map_append, map_append, map_singleton, map_singleton, ownKey,
      eraseDups_concat, if_neg (by simpa using unasked), answers.keys]
  · intro query member
    rw [mem_append, mem_singleton] at member
    rcases member with there | rfl
    · obtain ⟨first, found, fields, filter⟩ := answers.grouping query there
      exact ⟨first, by rw [find?_append, found]; rfl, fields, filter⟩
    · have none : requests.find? (fun other => other.key == request.key) = none := by
        rw [find?_eq_none]
        intro other member same
        exact unasked (mem_map.mpr ⟨other, member, beq_iff_eq.mp same⟩)
      rw [ownKey, find?_append, none]
      simp
  · intro query member ref
    rw [mem_append, mem_singleton] at member
    rw [asked_concat]
    rcases member with there | rfl
    · have apart : request.key ≠ query.key := fun equal =>
        new (mem_map.mpr ⟨query, there, equal.symm⟩)
      simp [answers.aggregates query there ref, apart]
    · have fresh : ¬ ∃ other ∈ requests, other.key = request.key ∧ ref ∈ other.aggregates :=
        fun ⟨other, member, same, _⟩ => unasked (mem_map.mpr ⟨other, member, same⟩)
      rw [ownKey, mem_addRefs]
      simp [fresh]
  · intro query member
    rw [mem_append, mem_singleton] at member
    rcases member with there | rfl
    · exact answers.unique query there
    · exact nodup_addRefs nodup_nil _

private theorem addRequest (purpose : Purpose) (request : QueryRequest) :
    Answers (requests ++ [request]) (Crosstab.addRequest purpose queries request) := by
  have known : (queries.any fun query => query.key == request.key) = true ↔
      request.key ∈ queries.map key := by
    simp [any_eq_true, mem_map]
  unfold Crosstab.addRequest
  split
  next there => exact answers.join (known.mp there)
  next absent => exact answers.extend (fun member => absent (known.mpr member)) purpose

theorem exists_query (member : request ∈ requests) :
    ∃ query ∈ queries, query.key = request.key := by
  have there := answers.mem_keys.mpr (mem_map_of_mem member)
  obtain ⟨query, within, key⟩ := mem_map.mp there
  exact ⟨query, within, key⟩

theorem nodup_keys : (queries.map key).Nodup := by
  rw [answers.keys]
  exact nodup_eraseDups _

theorem exists_request {query : GroupingQuery}
    (member : query ∈ queries) : ∃ request ∈ requests, request.key = query.key ∧
      query.fields = sortedTexts request.fields ∧ query.filter = request.filter := by
  obtain ⟨request, found, fields, filter⟩ := answers.grouping query member
  exact ⟨request, mem_of_find?_eq_some found, by simpa using find?_some found, fields, filter⟩

end Answers

theorem mergeRequests_answers (purpose : Purpose) (requests : List QueryRequest) :
    Answers requests (mergeRequests purpose requests) := by
  induction requests using List.reverseRecOn with
  | nil => exact .nil
  | append_singleton requests request ih =>
    rw [mergeRequests, foldl_append]
    exact ih.addRequest purpose request

end Crosstab
