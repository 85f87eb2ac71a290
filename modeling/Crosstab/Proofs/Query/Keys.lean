import Crosstab.Proofs.Discovery
import Crosstab.Proofs.Filter.Keys

/-!
# Keys of queries

A key is put together without any quoting. It stands for one grouping of the same rows if no name is
empty or contains a character that stands between parts.
-/
namespace Crosstab

open List GroupingQuery

/-! ### Names -/

theorem joined_unique {names others : List String} (apart : ∀ name ∈ names, '|' ∉ name.toList)
    (apart' : ∀ name ∈ others, '|' ∉ name.toList) (filled : names ≠ []) (filled' : others ≠ [])
    (same : "|".intercalate names = "|".intercalate others) : names = others := by
  have split {names : List String} (apart : ∀ name ∈ names, '|' ∉ name.toList) (filled : names ≠ []) :
      ("|".intercalate names).toList.splitOn '|' = names.map String.toList := by
    rw [String.toList_intercalate]
    exact splitOn_intercalate '|' (by simpa using apart) (by simpa using filled)
  have lists := split apart filled
  rw [same, split apart' filled'] at lists
  exact (map_inj_right fun _ _ => String.toList_inj.mp).mp lists.symm

private theorem intercalate_ne_empty {name : String} (filled : name ≠ "") (names : List String) :
    "|".intercalate (name :: names) ≠ "" := by
  intro empty
  rw [← String.toList_inj, String.toList_intercalate, map_cons, intercalate_cons] at empty
  simp only [String.toList_empty, append_eq_nil_iff] at empty
  exact filled (String.toList_inj.mp empty.1)

/-- Names whose joined text can be taken apart again. -/
structure PlainName (name : String) : Prop where
  filled : name ≠ ""
  noBar : '|' ∉ name.toList

private theorem joined_unique_of_plain {names others : List String}
    (plain : ∀ name ∈ names, PlainName name) (plain' : ∀ name ∈ others, PlainName name)
    (same : "|".intercalate names = "|".intercalate others) : names = others := by
  match names, others with
  | [], [] => rfl
  | [], name :: rest =>
    exact absurd same.symm (intercalate_ne_empty (plain' name mem_cons_self).filled rest)
  | name :: rest, [] =>
    exact absurd same (intercalate_ne_empty (plain name mem_cons_self).filled rest)
  | _ :: _, _ :: _ =>
    exact joined_unique (fun name member => (plain name member).noBar)
      (fun name member => (plain' name member).noBar) (cons_ne_nil _ _) (cons_ne_nil _ _) same

private theorem joined_no_sharp {names : List String} (noSharp : ∀ name ∈ names, '#' ∉ name.toList) :
    ∀ c ∈ ("|".intercalate names).toList, (c != '#') := by
  rw [String.toList_intercalate]
  intro c inside
  have other : c ≠ '#' := by
    rintro rfl
    cases names with
    | nil => simp at inside
    | cons name names =>
      rw [map_cons, intercalate_cons, mem_append, mem_flatMap] at inside
      rcases inside with inside | ⟨part, listed, inside⟩
      · exact noSharp name mem_cons_self inside
      · obtain ⟨other, member, rfl⟩ := mem_map.mp listed
        have own := noSharp other (mem_cons_of_mem _ member)
        simp [own] at inside
  simpa using other

/-! ### Keys -/

section

variable {fields others : List String} {filter filter' : Option Filter}

theorem joined_eq_of_keyFor_eq (same : keyFor fields filter = keyFor others filter) :
    "|".intercalate (sortedTexts fields) = "|".intercalate (sortedTexts others) := by
  simp only [keyFor, ← String.toList_inj, String.toList_append] at same ⊢
  exact append_cancel_right (append_cancel_right same)

/-- If no name contains a sharp, the joined names end at the first one. -/
theorem keyFor_unique (noSharp : ∀ field ∈ fields, '#' ∉ field.toList)
    (noSharp' : ∀ field ∈ others, '#' ∉ field.toList)
    (same : keyFor fields filter = keyFor others filter') :
    "|".intercalate (sortedTexts fields) = "|".intercalate (sortedTexts others) ∧
      Filter.keyOf filter = Filter.keyOf filter' := by
  simp only [keyFor, ← String.toList_inj, String.toList_append, append_assoc]
    at same ⊢
  obtain ⟨joined, behind⟩ := append_unique_of_stop
    (joined_no_sharp fun field member => noSharp field (mem_sortedTexts.mp member))
    (joined_no_sharp fun field member => noSharp' field (mem_sortedTexts.mp member))
    (by simp) (by simp) same
  exact ⟨joined, append_cancel_left behind⟩

end

/-! ### Requests -/

/-- Requests that one query can answer: they ask for one grouping of the same rows. -/
structure QueryRequest.Agrees (a b : QueryRequest) : Prop where
  fields : sortedTexts a.fields = sortedTexts b.fields
  rows : Filter.SameRows a.filter b.filter

private theorem FaithfulKeys.of_agrees {requests : List QueryRequest} (source : List Row)
    (agree : ∀ a ∈ requests, ∀ b ∈ requests, a.key = b.key → a.Agrees b) :
    FaithfulKeys requests source := by
  intro a first b second same
  have agrees := agree a first b second same
  exact ⟨agrees.fields, fun row _ => by rw [(agrees.rows row).1]⟩

private theorem Table.queryFilter_eq (table : Table) (narrow : List Filter) :
    table.queryFilter narrow =
      Filter.conjoin none ((table.filter.toList ++ table.guards) ++ narrow) := by
  rw [append_assoc]
  rfl

namespace ResolvedTable

variable {resolved : ResolvedTable}

/-- Conditions on members that were fixed. -/
def Fixes (resolved : ResolvedTable) (narrow : List Filter) : Prop :=
  ∀ condition ∈ narrow, ∃ side, ∃ selection ∈ resolved.selections side,
    condition = .member selection.field selection.allMembers

private theorem Fixes.eq_nil {narrow : List Filter} (fixes : resolved.Fixes narrow)
    (nothing : ∀ side, resolved.selections side = []) : narrow = [] := by
  rw [eq_nil_iff_forall_not_mem]
  intro condition member
  obtain ⟨side, selection, listed, _⟩ := fixes condition member
  rw [nothing side] at listed
  cases listed

private theorem fixes_memberFilters (side : Side) (branch : List Node) :
    resolved.Fixes (resolved.memberFilters side branch) := by
  intro condition member
  obtain ⟨node, _, made⟩ := mem_filterMap.mp member
  obtain ⟨selection, looked, rfl⟩ := Option.map_eq_some_iff.mp made
  exact ⟨side, selection, mem_of_find?_eq_some looked, rfl⟩

/-- A request groups by dimensions of the table and narrows its filter to fixed members. -/
theorem exists_narrow_of_mem_requests {request : QueryRequest} (member : request ∈ resolved.requests) :
    request.fields ⊆ resolved.table.dimensionFields ∧ ∃ narrow, resolved.Fixes narrow ∧
      request.filter = resolved.table.queryFilter narrow := by
  obtain ⟨rowBranch, inRows, colBranch, inCols, asked⟩ := mem_requests.mp member
  have known (side : Side) {branch : List Node} (inside : branch ∈ (resolved.table.axis side).branches) :
      fieldsOf branch ⊆ resolved.table.dimensionFields := fun _ => Table.mem_dimensionFields inside
  rw [crossingRequests, mem_cons, mem_filterMap] at asked
  rcases asked with rfl | ⟨measure, _, denominator⟩
  · refine ⟨append_subset.mpr ⟨known .rows inRows, known .cols inCols⟩, _, ?_, rfl⟩
    intro condition member
    rcases mem_append.mp member with member | member
    · exact fixes_memberFilters .rows rowBranch condition member
    · exact fixes_memberFilters .cols colBranch condition member
  · obtain ⟨side, _, rfl⟩ := Option.map_eq_some_iff.mp denominator
    cases side with
    | cols => exact ⟨known .rows inRows, _, fixes_memberFilters .rows rowBranch, rfl⟩
    | rows => exact ⟨known .cols inCols, _, fixes_memberFilters .cols colBranch, rfl⟩

private theorem agrees_of_key_eq (plain : ∀ field ∈ resolved.table.dimensionFields, PlainName field)
    (ends : (∀ side, resolved.selections side = []) ∨
      ∀ field ∈ resolved.table.dimensionFields, '#' ∉ field.toList)
    (readable : ∀ side, ∀ selection ∈ resolved.selections side,
      (Filter.member selection.field selection.allMembers).Readable)
    {a b : QueryRequest} (first : a ∈ resolved.requests) (second : b ∈ resolved.requests)
    (same : a.key = b.key) : a.Agrees b := by
  obtain ⟨known, narrow, fixes, filter⟩ := exists_narrow_of_mem_requests first
  obtain ⟨known', narrow', fixes', filter'⟩ := exists_narrow_of_mem_requests second
  have grouped (joined : "|".intercalate (sortedTexts a.fields) = "|".intercalate (sortedTexts b.fields)) :
      sortedTexts a.fields = sortedTexts b.fields := joined_unique_of_plain
    (fun field member => plain field (known (mem_sortedTexts.mp member)))
    (fun field member => plain field (known' (mem_sortedTexts.mp member))) joined
  rcases ends with nothing | noSharp
  -- Without fixed members there is one filter for all requests, so keys differ in the names only.
  · have filters : a.filter = b.filter := by
      rw [filter, filter', fixes.eq_nil nothing, fixes'.eq_nil nothing]
    simp only [QueryRequest.key, filters] at same
    exact ⟨grouped (joined_eq_of_keyFor_eq same), filters ▸ .refl _⟩
  · have read {narrow : List Filter} (fixes : resolved.Fixes narrow) :
        ∀ condition ∈ narrow, condition.Readable := by
      intro condition member
      obtain ⟨side, selection, listed, rfl⟩ := fixes condition member
      exact readable side selection listed
    obtain ⟨joined, filters⟩ := keyFor_unique (fun field member => noSharp field (known member))
      (fun field member => noSharp field (known' member)) same
    refine ⟨grouped joined, ?_⟩
    rw [filter, filter', Table.queryFilter_eq, Table.queryFilter_eq] at filters ⊢
    exact Filter.sameRows_of_keyOf_eq (read fixes) (read fixes') _ filters

end ResolvedTable

/-! ### Tables -/

namespace Table

variable {table : Table}

/-- Rankings with one key group by the same fields; all of them are under one filter. -/
theorem rankingRequest_agrees (noBar : ∀ field ∈ table.dimensionFields, '|' ∉ field.toList)
    {entry entry' : Side × Visit Node} (member : entry ∈ table.pendingVisits)
    (member' : entry' ∈ table.pendingVisits)
    (same : (table.rankingRequest entry.2).key = (table.rankingRequest entry'.2).key) :
    (table.rankingRequest entry.2).Agrees (table.rankingRequest entry'.2) := by
  have names {entry : Side × Visit Node} (member : entry ∈ table.pendingVisits) :
      sortedTexts (table.rankingRequest entry.2).fields ≠ [] ∧
        ∀ name ∈ sortedTexts (table.rankingRequest entry.2).fields, '|' ∉ name.toList := by
    have pending := mem_filter.mp (mem_pendingVisits.mp member)
    obtain ⟨field, _, named, _⟩ := exists_of_isPending pending.2
    obtain ⟨branch, inside, starts⟩ := Axis.exists_branch_of_mem_visits pending.1
    constructor
    · rw [Ne, sortedTexts_eq_nil]
      simp [rankingRequest, named]
    · intro name listed
      refine noBar name (mem_dimensionFields inside ((starts.filterMap Node.field?).subset ?_))
      simpa [rankingRequest, fieldsOf, named] using mem_sortedTexts.mp listed
  -- All rankings are under one filter, so their keys differ in the names only.
  have joined := joined_eq_of_keyFor_eq same
  exact ⟨joined_unique (names member).2 (names member').2 (names member).1 (names member').1 joined,
    .refl _⟩

/-- Requests with one key ask for one grouping of the same rows. In discovery, no dimension may have a
bar in its name. In a plan, no name may be empty either; if members were fixed, no name may contain a
sharp, none of a fixed dimension what opens a list of members, and no fixed member may be or contain a
number that is none. -/
theorem requests_with_one_key_agree {table : Table}
    (noBar : ∀ field ∈ table.dimensionFields, '|' ∉ field.toList) :
    (∀ entry ∈ table.pendingVisits, ∀ entry' ∈ table.pendingVisits,
      (table.rankingRequest entry.2).key = (table.rankingRequest entry'.2).key →
        (table.rankingRequest entry.2).Agrees (table.rankingRequest entry'.2)) ∧
    ∀ (discovery : DiscoveryPlan) (found : Results) (resolved : ResolvedTable),
      table.resolve discovery found = .ok resolved →
      (∀ field ∈ table.dimensionFields, field ≠ "") →
      ((∀ side, resolved.selections side = []) ∨
        ∀ field ∈ table.dimensionFields, '#' ∉ field.toList) →
      (∀ side, ∀ selection ∈ resolved.selections side,
        ¬ " in (".toList <:+: selection.field.toList ∧
          ∀ member ∈ selection.allMembers, member.hasNan = false) →
      ∀ a ∈ resolved.requests, ∀ b ∈ resolved.requests, a.key = b.key → a.Agrees b := by
  constructor
  · intro entry member entry' member' same
    exact rankingRequest_agrees noBar member member' same
  · intro discovery found resolved fixed filled ends clear a first b second same
    obtain ⟨rfl, _, _⟩ := resolve_eq_ok fixed
    exact resolved.agrees_of_key_eq (fun field member => ⟨filled field member, noBar field member⟩) ends
      (fun side selection listed => .member (clear side selection listed).1 (clear side selection listed).2)
      first second same

/-- Jobs within towns and towns within jobs are asked for with one key, though the jobs are ranked in
another order. -/
theorem nested_either_way_agrees :
    let schema := Schema.ofNames ["job", "town"] ["pay"]
    let job : Item Binding := .dimension { name := "job", orderBy := some ⟨"pay", "sum"⟩ }
    let pay := Item.measure "pay" ["sum"]
    let statement : Statement := { rows := [[.column "town", job, pay], [job, .column "town", pay]] }
    let source := Row.table ["job", "town", "pay"] [["cook", "York", 5], ["cook", "Bath", 9],
      ["clerk", "York", 7]]
    let key := "job|town#and(town is-not-null, job is-not-null, job in ('clerk','cook'))"
    let orders := [["clerk", "cook"], ["cook", "clerk"]]
    ∃ t : Tabulation schema {} statement source,
      (t.resolved.rowMembers.map fun selection => selection.allMembers.map Value.plain) = orders ∧
      (t.resolved.requests.map fun request => request.key :: request.fields) =
        [[key, "town", "job"], [key, "job", "town"]] ∧
      ∀ a ∈ t.resolved.requests, ∀ b ∈ t.resolved.requests, a.Agrees b := by
  intro schema job pay statement source key orders
  obtain ⟨t, names, fixed, members, asked⟩ : ∃ t : Tabulation schema {} statement source,
      t.table.dimensionFields = ["town", "job"] ∧
      (∀ side ∈ Side.both, ∀ selection ∈ t.resolved.selections side,
        selection.field = "job" ∧ ∀ member ∈ selection.allMembers, member.hasNan = false) ∧
      (t.resolved.rowMembers.map fun selection => selection.allMembers.map Value.plain) = orders ∧
      (t.resolved.requests.map fun request => request.key :: request.fields) =
        [[key, "town", "job"], [key, "job", "town"]] :=
    Tabulation.exists_of_run (by decide +kernel)
  have keyed : ∀ request ∈ t.resolved.requests, request.key = key := by
    intro request member
    have listed := List.mem_map_of_mem (f := fun request => request.key :: request.fields) member
    rw [asked] at listed
    simp only [List.mem_cons, List.cons.injEq, List.not_mem_nil, or_false] at listed
    exact listed.elim And.left And.left
  have noBar : ∀ field ∈ t.table.dimensionFields, '|' ∉ field.toList := by
    rw [names]
    decide
  refine ⟨t, members, asked, fun a first b second => ?_⟩
  refine (requests_with_one_key_agree noBar).2 t.discovery t.found t.resolved t.fixed ?_ (.inr ?_) ?_
    a first b second ((keyed a first).trans (keyed b second).symm)
  · rw [names]
    decide
  · rw [names]
    decide
  · intro side selection listed
    obtain ⟨named, numbers⟩ := fixed side (by cases side <;> decide) selection listed
    rw [named]
    exact ⟨by decide, numbers⟩

end Table

/-- A run that confuses requests over its own rows has requests with one key that do not agree. -/
theorem Tabulation.exists_disagreement {schema : Schema} {settings : Settings} {statement : Statement}
    {source : List Row} {asked : Tabulation schema settings statement source → List QueryRequest}
    (met : (run schema settings statement source).toOption.any
      fun t => ¬ FaithfulKeys (asked t) source) :
    ∃ t : Tabulation schema settings statement source,
      ¬ ∀ a ∈ asked t, ∀ b ∈ asked t, a.key = b.key → a.Agrees b := by
  obtain ⟨t, confused⟩ := Tabulation.exists_of_run met
  exact ⟨t, fun agree => confused (FaithfulKeys.of_agrees source agree)⟩

/-- One key for two groupings: in discovery with a bar in a name, and in a plan with a bar in a name,
with an empty name next to a total, with a sharp in a name, with the opening of a list of members in a
name, and with members that are no numbers. -/
theorem Table.one_key_for_two_groupings :
    let ranked (name : String) : Item Binding := .dimension { name, orderBy := some ⟨"n", "sum"⟩ }
    let sum := Item.measure "n" ["sum"]
    let disagree (names : List String) (nulls : Bool) (rows : AxisClause Binding) (source : List Row) :
        Prop :=
      ∃ t : Tabulation (.ofNames names ["n"]) { includeNulls := .bool nulls } { rows } source,
        ¬ ∀ a ∈ t.resolved.requests, ∀ b ∈ t.resolved.requests, a.key = b.key → a.Agrees b
    let spelled := "x in ('a'), y"
    (∃ t : Tabulation (.ofNames ["a|b", "a", "b"] ["n"]) { includeNulls := .bool true }
        { rows := [[ranked "a|b", sum], [.column "a", ranked "b", sum]] } [],
      ¬ ∀ a ∈ t.table.pendingVisits.map fun entry => t.table.rankingRequest entry.2,
        ∀ b ∈ t.table.pendingVisits.map fun entry => t.table.rankingRequest entry.2,
          a.key = b.key → a.Agrees b) ∧
      disagree ["a|b", "a", "b"] true [[.column "a|b"], [.column "a", .column "b"]] [] ∧
      disagree [""] true [[.column ""], [.overall]] [] ∧
      disagree ["a", "x#a", "x#a#x"] true
        [[.column "a", ranked "x#a", sum], [.column "x#a#x", ranked "a", sum]]
        [[("a", "m"), ("x#a", "m"), ("x#a#x", "q"), ("n", 1)]] ∧
      disagree ["x", "y", spelled] false
        [[.leading 1 "x" "n" "sum", ranked "y", .column spelled, sum],
          [.column "x", .column "y", ranked spelled, sum]]
        (Row.table ["x", "y", spelled, "n"] [["a", "b", "b", 1], ["c", "b", "b", 5]]) ∧
      disagree ["x"] false [[.leading 1 "x" "n" "sum", sum], [.leading (-1) "x" "n" "sum", sum]]
        (Row.table ["x", "n"] [[.real (.tagged 1), 1], [.real (.tagged 2), 5]]) := by
  refine ⟨?_, ?_, ?_, ?_, ?_, ?_⟩ <;>
    exact Tabulation.exists_disagreement (by decide +kernel)

end Crosstab
