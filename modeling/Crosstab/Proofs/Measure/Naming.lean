import Crosstab.Proofs.Statement.Acceptance

/-!
# Names of measures

Aggregations ask for measures with certain identities. Each identity is adjoined once, under a name
that a search finds free, so names and identities go together.
-/
namespace Crosstab

open List Outcome MeasureIdentity Binding Crosstab.Measure

/-! ### Identities -/

def Value.text? : Value → Option String
  | text s => some s
  | _ => none

/-- The side across which the measures of a binding are shares, in upper or lower case. -/
def Binding.side? (binding : Binding) : Option Side :=
  binding.across.text?.bind fun name =>
    if Text.lower name = "rows" then some .rows
    else if Text.lower name = "cols" then some .cols
    else none

/-- The identity that an aggregation of a binding asks for. Shares are percentages unless a format
says otherwise, and a label of the aggregation comes before that of the binding. -/
def Aggregation.identityIn (aggregation : Aggregation) (binding : Binding) : MeasureIdentity where
  field := binding.measure.text?
  method := aggregation.methodName
  across := binding.side?
  format := (aggregation.formatIn binding).text?.or (binding.side?.map fun _ => "percent")
  label := if aggregation.label.isNull then binding.label else aggregation.label

def Binding.identities (binding : Binding) : List MeasureIdentity :=
  binding.aggregations.map fun aggregation => aggregation.identityIn binding

namespace Binding

variable {aggregation : Aggregation} {binding : Binding} {across : Option Side}

theorem isTyped_of_mem (binding : Binding) (typed : binding.isTyped)
    (listed : aggregation ∈ binding.aggregations) : aggregation.isTyped := by
  simp only [isTyped, Bool.and_eq_true, all_eq_true] at typed
  exact typed.2 aggregation listed

private theorem side?_eq_of_readAcross (read : readAcross binding.across = .ok across) :
    binding.side? = across := by
  unfold side?
  cases written : binding.across with
  | null =>
    rw [written] at read
    cases read
    rfl
  | text name =>
    rw [written] at read
    simp only [readAcross, Value.asText, ok_bind] at read
    simp only [Value.text?, Option.bind_some]
    split at read
    next rows =>
      cases read
      rw [if_pos rows]
    next other =>
      split at read
      next cols =>
        cases read
        rw [if_neg other, if_pos cols]
      next => cases read
  | _ =>
    rw [written] at read
    cases read

private theorem readFormat_eq_ok (own : aggregation.format.isOptionalText)
    (shared : binding.format.isOptionalText) {format : Option String}
    (read : readFormat aggregation.format binding.format across = .ok format) :
    format = (aggregation.formatIn binding).text?.or (across.map fun _ => "percent") := by
  unfold readFormat at read
  rw [← formatIn_eq binding own] at read
  obtain absent | ⟨name, present⟩ := Value.cases_of_isOptionalText (isOptionalText_formatIn own shared)
  · rw [absent] at read ⊢
    cases read
    cases across <;> rfl
  · rw [present] at read ⊢
    simp only at read
    split at read <;> cases read
    rfl

end Binding

namespace MeasureIdentity

variable {schema : Schema}

variable {binding : Binding} {aggregation : Aggregation}

theorem isOptionalText_label (typed : aggregation.isTyped) (bindingTyped : binding.isTyped) :
    (aggregation.identityIn binding).label.isOptionalText := by
  simp only [Aggregation.isTyped, isTyped, Bool.and_eq_true] at typed bindingTyped
  unfold Aggregation.identityIn
  split
  · exact bindingTyped.1.1.2
  · exact typed.2

/-- After all checks an aggregation has the identity that it asks for. -/
theorem eq_identityIn {across : Option Side} {identity : MeasureIdentity}
    (typed : aggregation.isTyped) (bindingTyped : binding.isTyped)
    (read : readAcross binding.across = .ok across)
    (checked : ofAggregation schema binding across aggregation = .ok identity) :
    identity = aggregation.identityIn binding := by
  have text := isOptionalText_label typed bindingTyped
  simp only [Aggregation.isTyped, isTyped, Bool.and_eq_true] at typed bindingTyped
  have asked := asked_of_ofAggregation checked ""
  obtain ⟨method, _, checked⟩ := bind_eq_ok.mp checked
  obtain ⟨field, _, checked⟩ := bind_eq_ok.mp checked
  obtain ⟨format, formatted, checked⟩ := bind_eq_ok.mp checked
  obtain ⟨label, labelled, checked⟩ := bind_eq_ok.mp checked
  cases checked
  cases labelled.symm.trans (Value.asKey_of_isOptionalText text)
  have measured : field.elim .null Value.text = binding.measure := congrArg Prod.fst asked
  have named : binding.measure.text? = field := by
    rw [← measured]
    cases field <;> rfl
  have lowered : aggregation.methodName = Text.lower method := (congrArg Prod.snd asked).symm
  rw [Aggregation.identityIn, named, lowered, side?_eq_of_readAcross read,
    readFormat_eq_ok typed.1.2 bindingTyped.1.1.1.2 formatted]

/-- Identities are the same only if they are equal, where a label is a text or null. -/
theorem same_iff {a b : MeasureIdentity} (text : b.label.isOptionalText) : a.same b ↔ a = b := by
  obtain ⟨field, method, across, format, label⟩ := a
  obtain ⟨field', method', across', format', label'⟩ := b
  have labels : label.same label' ↔ label = label' := by
    obtain rfl | ⟨s, rfl⟩ := Value.cases_of_isOptionalText text
    · cases label <;> simp [Value.same, Value.sameAtom, Value.quantity?]
    · cases label <;> simp [Value.same, Value.sameAtom, Value.quantity?]
  simp only [same, Bool.and_eq_true, beq_iff_eq, labels, mk.injEq, and_assoc]

end MeasureIdentity

namespace Measure

/-! ### The search for a name -/

/-- The names that are tried one after the other: the name itself, then its numbered forms. -/
def candidate (base : String) : Nat → String
  | 0 => base
  | n + 1 => base ++ "_" ++ toString (n + 2)

/-- The search for a name from some candidate on: it goes to the next one as long as the name is
taken. -/
inductive Search (taken : List String) (base : String) : Nat → String → Prop where
  | free {n : Nat} (untaken : candidate base n ∉ taken) : Search taken base n (candidate base n)
  | passed {n : Nat} {name : String} (used : candidate base n ∈ taken)
    (next : Search taken base (n + 1) name) : Search taken base n name

namespace Search

variable {taken : List String} {base : String}

variable {n : Nat}

private theorem unique {name other : String} (first : Search taken base n name)
    (second : Search taken base n other) : name = other := by
  induction first with
  | free untaken =>
    cases second with
    | free => rfl
    | passed used => exact absurd used untaken
  | passed used _ ih =>
    cases second with
    | free untaken => exact absurd used untaken
    | passed _ next => exact ih next

private theorem of_first (used : ∀ k < n, candidate base k ∈ taken) (untaken : candidate base n ∉ taken) :
    Search taken base 0 (candidate base n) := by
  -- From each candidate before it, downwards to the first one.
  have later (k : Nat) (before : k ≤ n) : Search taken base (n - k) (candidate base n) := by
    induction k with
    | zero => exact .free untaken
    | succ k ih =>
      refine .passed (used _ (by omega)) ?_
      rw [show n - (k + 1) + 1 = n - k by omega]
      exact ih (by omega)
  simpa using later n (Nat.le_refl n)

end Search

/-- One number more than there are taken names is enough for the search to come to an end. -/
theorem search_freshName (taken : List String) (base : String) :
    Search taken base 0 (freshName taken base) := by
  have free := freshName_not_mem taken base
  unfold freshName at free ⊢
  split
  next used =>
    simp only [if_pos used, find?_map, Function.comp_def] at free ⊢
    have first : candidate base 0 ∈ taken := contains_iff_mem.mp used
    cases found : (range (taken.length + 1)).find? fun n =>
        !taken.contains (base ++ "_" ++ toString (n + 2)) with
    | none =>
      simp only [found] at free
      exact absurd first free
    | some n =>
      obtain ⟨untaken, _, earlier⟩ := find?_range_eq_some.mp found
      refine Search.of_first (n := n + 1) (fun k below => ?_) (by simpa [candidate] using untaken)
      cases k with
      | zero => exact first
      | succ k => simpa [candidate] using earlier k (by omega)
  next unused => exact .free (n := 0) (by simpa [candidate] using unused)

/-! ### Adjunction -/

section Adjunction

variable {asked : List MeasureIdentity} {given : List String} {measures : List Measure}
  {identity : MeasureIdentity}

def withIdentity? (measures : List Measure) (identity : MeasureIdentity) : Option Measure :=
  measures.find? fun measure => measure.identity.same identity

variable {measure : Measure}

private theorem withIdentity?_append (found : withIdentity? measures identity = some measure)
    (more : List Measure) : withIdentity? (measures ++ more) identity = some measure := by
  unfold withIdentity? at found ⊢
  rw [find?_append, found]
  rfl

/-- What comes of aggregations that were bound one after the other: for each identity that was asked
for, the name that was given, and the measures. -/
structure Naming (asked : List MeasureIdentity) (given : List String) (measures : List Measure) :
    Prop where
  found : List.Forall₂ (fun identity name =>
    ∃ measure, withIdentity? measures identity = some measure ∧ measure.name = name) asked given
  order : measures.map Measure.name = given.eraseDups
  searched : ∀ n measure, measures[n]? = some measure →
    Search ((measures.take n).map Measure.name) measure.identity.baseName 0 measure.name

private theorem naming_nil : Naming [] [] [] := ⟨.nil, rfl, by simp⟩

def nameOf (measures : List Measure) (identity : MeasureIdentity) : String :=
  ((withIdentity? measures identity).map Measure.name).getD ""

namespace Naming

variable (naming : Naming asked given measures)

include naming

/-- The measure that is asked for is there: nothing changes but that its name is given again. -/
theorem again (there : withIdentity? measures identity = some measure) :
    Naming (asked ++ [identity]) (given ++ [measure.name]) measures where
  found := rel_append naming.found (.cons ⟨measure, there, rfl⟩ .nil)
  order := by
    have known : measure.name ∈ given := by
      rw [← mem_eraseDups, ← naming.order]
      exact mem_map_of_mem (mem_of_find?_eq_some there)
    rw [eraseDups_concat, if_pos (contains_iff_mem.mpr known), naming.order]
  searched := naming.searched

/-- The measure that is asked for is new: it is put at the end, under a name that is found by
search. -/
theorem extend (text : identity.label.isOptionalText) (absent : withIdentity? measures identity = none) :
    let name := freshName (measures.map Measure.name) identity.baseName
    Naming (asked ++ [identity]) (given ++ [name]) (measures ++ [identity.toMeasure name]) := by
  intro name
  have own : identity.same identity := (same_iff text).mpr rfl
  have new : name ∉ given := by
    rw [← mem_eraseDups, ← naming.order]
    exact freshName_not_mem _ _
  refine ⟨rel_append (naming.found.imp ?_) (.cons ⟨identity.toMeasure name, ?_, rfl⟩ .nil), ?_, ?_⟩
  · rintro other given ⟨measure, there, named⟩
    exact ⟨measure, withIdentity?_append there _, named⟩
  · unfold withIdentity? at absent ⊢
    rw [find?_append, absent]
    simp [toMeasure, Measure.identity, own]
  · rw [eraseDups_concat, if_neg (by simpa using new), ← naming.order, map_append]
    rfl
  · intro n measure there
    by_cases old : n < measures.length
    · rw [getElem?_append_left old] at there
      rw [take_append_of_le_length (Nat.le_of_lt old)]
      exact naming.searched n measure there
    · obtain ⟨rfl, rfl⟩ : n = measures.length ∧ measure = identity.toMeasure name := by
        rw [getElem?_append_right (by omega), getElem?_singleton] at there
        split at there <;> cases there
        exact ⟨by omega, rfl⟩
      rw [take_left]
      exact search_freshName _ _

private theorem adjoin (text : identity.label.isOptionalText) :
    Naming (asked ++ [identity]) (given ++ [(Measure.adjoin measures identity).2])
      (Measure.adjoin measures identity).1 := by
  unfold Measure.adjoin
  split
  next measure there => exact naming.again there
  next absent => exact naming.extend text absent

/-! ### Names and identities -/

theorem unique : (measures.map Measure.name).Nodup := naming.order ▸ nodup_eraseDups _

theorem given_eq : given = asked.map (nameOf measures) := by
  rw [← forall₂_eq_eq_eq, forall₂_map_right_iff]
  refine naming.found.flip.imp ?_
  rintro name identity ⟨measure, found, rfl⟩
  simp [nameOf, found]

variable (texts : ∀ identity ∈ asked, identity.label.isOptionalText = true)

include texts

theorem exists_measure (listed : identity ∈ asked) :
    ∃ measure ∈ measures, measure.identity = identity ∧ measure.name = nameOf measures identity := by
  obtain ⟨_, _, measure, found, _⟩ := exists_right_of_forall₂ naming.found listed
  have same := find?_some found
  exact ⟨measure, mem_of_find?_eq_some found,
    (same_iff (texts identity listed)).mp same, by simp [nameOf, found]⟩

private theorem nameOf_eq_iff {other : MeasureIdentity} (listed : identity ∈ asked)
    (also : other ∈ asked) :
    nameOf measures identity = nameOf measures other ↔ identity = other := by
  refine ⟨fun same => ?_, fun same => same ▸ rfl⟩
  obtain ⟨measure, inside, rfl, named⟩ := naming.exists_measure texts listed
  obtain ⟨measure', inside', rfl, named'⟩ := naming.exists_measure texts also
  rw [← named, ← named'] at same
  rw [inj_on_of_nodup_map naming.unique inside inside' same]

private theorem identity_mem {measure : Measure} (inside : measure ∈ measures) :
    measure.identity ∈ asked ∧ measure.name = nameOf measures measure.identity := by
  have told : measure.name ∈ given := by
    rw [← mem_eraseDups, ← naming.order]
    exact mem_map_of_mem inside
  rw [naming.given_eq] at told
  obtain ⟨identity, listed, same⟩ := mem_map.mp told
  obtain ⟨measure', inside', own, named⟩ := naming.exists_measure texts listed
  obtain rfl := inj_on_of_nodup_map naming.unique inside' inside (named.trans same)
  exact ⟨own ▸ listed, own ▸ named⟩

end Naming

end Adjunction

/-! ### Bindings -/

section Bindings

variable {schema : Schema} {asked : List MeasureIdentity} {given : List String}
  {before after : List Measure}

private theorem Naming.bindAggregations {binding : Binding} {across : Option Side}
    {aggregations : List Aggregation} {names : List String} (naming : Naming asked given before)
    (typed : binding.isTyped) (each : ∀ aggregation ∈ aggregations, aggregation.isTyped)
    (read : readAcross binding.across = .ok across)
    (bound : bindAggregations schema binding across before aggregations = .ok (after, names)) :
    Naming (asked ++ aggregations.map fun aggregation => aggregation.identityIn binding)
      (given ++ names) after := by
  induction aggregations generalizing asked given before names with
  | nil =>
    cases bound
    simpa using naming
  | cons aggregation rest ih =>
    obtain ⟨own, others⟩ := forall_mem_cons.mp each
    obtain ⟨identity, later, checked, following, rfl⟩ := bindAggregations_cons_iff.mp bound
    obtain rfl := eq_identityIn own typed read checked
    have step := naming.adjoin (isOptionalText_label own typed)
    have run := ih step others following
    rw [append_assoc, append_assoc] at run
    exact run

variable {bindings : List Binding}

private theorem Naming.bindAll {names : List (List String)} (naming : Naming asked given before)
    (typed : ∀ binding ∈ bindings, binding.isTyped)
    (bound : bindAll schema before bindings = .ok (after, names)) :
    Naming (asked ++ bindings.flatMap identities) (given ++ names.flatten) after ∧
      names.map length = bindings.map fun binding => binding.identities.length := by
  induction bindings generalizing asked given before names with
  | nil =>
    cases bound
    exact ⟨by simpa using naming, rfl⟩
  | cons binding rest ih =>
    obtain ⟨own, others⟩ := forall_mem_cons.mp typed
    obtain ⟨across, middle, first, later, _, read, one, following, rfl⟩ := bindAll_cons_iff.mp bound
    have step := naming.bindAggregations own (fun _ => binding.isTyped_of_mem own) read one
    obtain ⟨run, lengths⟩ := ih step others following
    -- Names are given for all that is asked for, and none else.
    have length : first.length = binding.identities.length := by
      have now := step.found.length_eq
      have earlier := naming.found.length_eq
      rw [length_append, length_append, earlier] at now
      exact (Nat.add_left_cancel now).symm
    refine ⟨?_, by rw [map_cons, lengths, length, map_cons]⟩
    simpa [identities] using run

private theorem isOptionalText_labels (typed : ∀ binding ∈ bindings, binding.isTyped) :
    ∀ identity ∈ bindings.flatMap identities, identity.label.isOptionalText := by
  intro identity listed
  obtain ⟨binding, inside, listed⟩ := mem_flatMap.mp listed
  obtain ⟨aggregation, within, rfl⟩ := mem_map.mp listed
  have own := typed binding inside
  exact isOptionalText_label (binding.isTyped_of_mem own within) own

/-- The names of measures and their identities go together one to one. Each binding is given the names
of its aggregations, in order; aggregations have one name if and only if they ask for one identity;
measures come in the order in which they are first asked for, under names that are all different. The
name of a measure is where the search for it ends, and every search comes to one end. -/
theorem names_match_identities {bindings : List Binding} {measures : List Measure}
    {names : List (List String)} (typed : ∀ binding ∈ bindings, binding.isTyped = true)
    (bound : bindAll schema [] bindings = .ok (measures, names)) :
    ((if measures.isEmpty then [rowCount] else measures).map Measure.name).Nodup ∧
    (∃ nameOf : MeasureIdentity → String,
      (names = bindings.map fun binding => binding.aggregations.map fun aggregation =>
        nameOf (aggregation.identityIn binding)) ∧
      (∀ first ∈ bindings.flatMap Binding.identities, ∀ second ∈ bindings.flatMap Binding.identities,
        nameOf first = nameOf second ↔ first = second) ∧
      ∀ measure ∈ measures, measure.identity ∈ bindings.flatMap Binding.identities ∧
        measure.name = nameOf measure.identity) ∧
    measures.map Measure.name = names.flatten.eraseDups ∧
    (∀ n measure, measures[n]? = some measure →
      Search ((measures.take n).map Measure.name) measure.identity.baseName 0 measure.name) ∧
    ∀ taken base, ∃! name, Search taken base 0 name := by
  obtain ⟨naming, lengths⟩ := naming_nil.bindAll typed bound
  rw [List.nil_append, List.nil_append] at naming
  have texts := isOptionalText_labels typed
  refine ⟨?_, ⟨nameOf measures, ?_, fun _ listed _ also => naming.nameOf_eq_iff texts listed also,
    fun _ inside => naming.identity_mem texts inside⟩, naming.order, naming.searched,
    fun taken base => ⟨_, search_freshName taken base, fun _ ended =>
      ended.unique (search_freshName taken base)⟩⟩
  · split
    · exact List.nodup_singleton _
    · exact naming.unique
  -- The names of all aggregations are known in a row, and how many of them belong to each binding.
  · rw [List.eq_iff_flatten_eq, naming.given_eq, lengths, List.map_map]
    refine ⟨?_, List.map_congr_left fun binding _ => by simp [Binding.identities]⟩
    rw [List.flatMap, List.map_flatten, List.map_map]
    exact congrArg List.flatten (List.map_congr_left fun binding _ => by simp [Binding.identities])

/-- Sums of pay under three formats and labels, beside a field whose sum has the first numbered name of
the sum of pay. The format of an aggregation that is left empty is that of its binding. -/
theorem pay_named_around_second_pay :
    let schema := Schema.ofNames [] ["pay", "pay_2"]
    let sum : Aggregation := { method := "sum" }
    let bindings : List Binding :=
      [⟨"pay_2", [sum], .null, .null, .null⟩,
        ⟨"pay", [sum, ⟨"SUM", "currency", .null⟩, ⟨"Sum", "", "Pay"⟩], .null, .null, .null⟩,
        ⟨"pay", [⟨"sum", "percent", .null⟩, sum], .null, .null, "Cols"⟩]
    let names := [["sum_pay_2"], ["sum_pay", "sum_pay_3", "sum_pay_4"],
      ["sum_pay_pct_cols", "sum_pay_pct_cols"]]
    (∀ binding ∈ bindings, binding.isTyped = true) ∧
      ∃ measures, bindAll schema [] bindings = .ok (measures, names) ∧
        (∃ nameOf : MeasureIdentity → String,
          (names = bindings.map fun binding => binding.aggregations.map fun aggregation =>
            nameOf (aggregation.identityIn binding)) ∧
          ∀ first ∈ bindings.flatMap Binding.identities,
            ∀ second ∈ bindings.flatMap Binding.identities,
              nameOf first = nameOf second ↔ first = second) ∧
        measures.map Measure.name = names.flatten.eraseDups := by
  intro schema sum bindings names
  have typed : ∀ binding ∈ bindings, binding.isTyped = true := by decide
  obtain ⟨⟨measures, _⟩, bound, rfl⟩ :
      ∃ found, bindAll schema [] bindings = .ok found ∧ found.2 = names := by decide +kernel
  obtain ⟨_, ⟨nameOf, given, apart, _⟩, order, _⟩ := names_match_identities typed bound
  exact ⟨typed, measures, bound, ⟨nameOf, given, apart⟩, order⟩

end Bindings

end Measure

end Crosstab
