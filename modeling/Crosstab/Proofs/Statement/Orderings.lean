import Crosstab.Proofs.Statement.Acceptance

/-!
# Orderings by a measure

A reference is accepted if a binding asks for its aggregate and it is written in lower case. The
first failure in reading order is the failure of the whole.
-/
namespace Crosstab

open Outcome Item Crosstab.Measure Atom Aggregate Text

/-! ### References -/

theorem OrderRef.names_text_iff {field aggregate : String} {asked : Value × String} :
    OrderRef.Names ⟨.text field, .text aggregate⟩ asked ↔ asked = (.text field, aggregate) := by
  obtain ⟨measure, method⟩ := asked
  have same (v : Value) (s : String) : v.same (.text s) ↔ v = .text s := by
    cases v <;> simp [Value.same, Value.sameAtom, Value.quantity?]
  simp [Names, same]

/-- Some binding takes the aggregate of the field, in whatever case either is written. -/
def Statement.Asks (statement : Statement) (field aggregate : String) : Prop :=
  ∃ binding ∈ statement.bindings, ∃ aggregation ∈ binding.aggregations,
    binding.measure = .text field ∧ aggregation.methodName = lower aggregate

namespace Statement

variable {statement : Statement} {schema : Schema}

/-- The aggregates of bindings are in lower case, so one that is not is never found among them. -/
theorem exists_named_iff (sound : ∀ binding ∈ statement.bindings, binding.IsSound schema)
    (field aggregate : String) :
    (∃ asked ∈ statement.aggregates, OrderRef.Names ⟨.text field, .text aggregate⟩ asked) ↔
      statement.Asks field aggregate ∧ lower aggregate = aggregate := by
  have listed : (Value.text field, aggregate) ∈ statement.aggregates ↔
      ∃ binding ∈ statement.bindings, ∃ aggregation ∈ binding.aggregations,
        binding.measure = .text field ∧ aggregation.methodName = aggregate := by
    unfold aggregates
    split
    next none => simp [List.isEmpty_iff.mp none]
    next => simp [Binding.aggregates]
  simp only [OrderRef.names_text_iff, exists_eq_right, listed]
  constructor
  · rintro ⟨binding, member, aggregation, taken, measure, rfl⟩
    have name := ((sound binding member).aggregations aggregation taken).suits.aggregate
    have lowered := lower_of_isValid (isValid_iff.mpr name)
    exact ⟨⟨binding, member, aggregation, taken, measure, lowered.symm⟩, lowered⟩
  · rintro ⟨asks, lowered⟩
    rw [← lowered]
    exact asks

end Statement

/-! ### Dimensions -/

namespace Dimension

variable {dimension : Dimension} {measures : List Measure} {name target : String}

/-- The dimension without the reference that it is ordered by. -/
def unordered (dimension : Dimension) : Dimension :=
  { dimension with
    limit := dimension.limit.map fun limit => { limit with orderBy := .absent }
    orderBy := none }

private theorem isSound_unordered_iff {schema : Schema} : dimension.unordered.IsSound schema [] ↔
    (∃ field, dimension.name = .text field ∧ schema.hasField field) ∧
      (∀ keyword, dimension.order = .text keyword →
        lower keyword = "asc" ∨ lower keyword = "desc") ∧
      ∀ limit, dimension.limit = some limit → limit.count ≠ 0 := by
  have limited : (∀ limit, dimension.unordered.limit = some limit → limit.count ≠ 0) ↔
      ∀ limit, dimension.limit = some limit → limit.count ≠ 0 := by
    cases given : dimension.limit <;> simp [unordered, given]
  constructor
  · intro sound
    exact ⟨sound.known, sound.order, limited.mp sound.limit⟩
  · rintro ⟨known, order, limit⟩
    refine ⟨known, order, limited.mpr limit, fun ref found => ?_⟩
    -- Neither inside the limit nor outside of it is a reference left.
    cases given : dimension.limit <;> simp [orderRef?, unordered, given, OrderTarget.ref?] at found

private theorem readDirection_ne_foreign (order : Value) (field name target : String) :
    readDirection order field ≠ .error (.compile (.orderedByForeignMeasure name target)) := by
  unfold readDirection
  split
  · nofun
  · rw [Ne, bind_eq_error]
    rintro (untextual | ⟨keyword, _, read⟩)
    · cases order <;> cases untextual
    · simp only at read
      split at read
      · cases read
      · split at read <;> cases read

/-- The reference is resolved last, so it is reported where nothing else is wrong. -/
theorem compileOrdering_eq_foreign_iff (typed : dimension.isTyped) (field : String) :
    dimension.compileOrdering measures field =
        .error (.compile (.orderedByForeignMeasure name target)) ↔
      (∀ keyword, dimension.order = .text keyword →
        lower keyword = "asc" ∨ lower keyword = "desc") ∧
      (∀ limit, dimension.limit = some limit → limit.count ≠ 0) ∧
      ∃ ref, dimension.orderTarget = .ref ref ∧ field = name ∧ ref.target = target ∧
        ∀ measure ∈ measures, ¬ref.Names measure.asked := by
  have directed := (checks_readDirection (isOptionalText_order typed) field).isOk_iff
  unfold compileOrdering
  rw [bind_eq_error]
  constructor
  · rintro (early | ⟨direction, read, late⟩)
    · exact absurd early (readDirection_ne_foreign _ _ _ _)
    · refine ⟨directed.mp ⟨direction, read⟩, ?_⟩
      by_cases limited : dimension.limit.map (·.count) = some 0
      · simp only [if_pos limited] at late
        cases late
      simp only [if_neg limited] at late
      refine ⟨limit_ne_zero_iff.mp limited, ?_⟩
      cases given : dimension.orderTarget with
      | absent =>
        rw [given] at late
        cases late
      | other value =>
        rw [given] at late
        cases late
      | ref ref =>
        simp only [given] at late
        rcases resolveOrder_cases measures field ref with ⟨_, _, found⟩ | ⟨none, missed⟩
        · rw [found] at late
          cases late
        · rw [missed] at late
          cases late
          exact ⟨ref, rfl, rfl, rfl, none⟩
  · rintro ⟨ordered, limited, ref, given, rfl, rfl, none⟩
    obtain ⟨direction, read⟩ := directed.mpr ordered
    refine .inr ⟨direction, read, ?_⟩
    rw [if_neg (limit_ne_zero_iff.mpr limited), given]
    rcases resolveOrder_cases measures field ref with
      ⟨_, ⟨_, measure, _, rfl, own, _⟩, _⟩ | ⟨_, missed⟩
    · exact absurd own (none measure (by simp))
    · simp only [missed]
      rfl

end Dimension

variable {schema : Schema} {measures : List Measure} {atom : Atom}

/-- A dimension is refused for its reference where nothing but the reference is wrong with it. -/
theorem Item.compileDimension_eq_foreign_iff {d : Dimension} {name target : String}
    (typed : d.isTyped) :
    compileDimension schema measures d = .error (.compile (.orderedByForeignMeasure name target)) ↔
      d.name = .text name ∧ d.unordered.IsSound schema [] ∧
        ∃ ref, d.orderTarget = .ref ref ∧ ref.target = target ∧
          ∀ measure ∈ measures, ¬ref.Names measure.asked := by
  obtain ⟨field, named⟩ := Dimension.exists_name typed
  unfold compileDimension
  rw [named, Schema.field?_text, ok_bind, Dimension.isSound_unordered_iff, named]
  by_cases known : schema.hasField field
  · simp only [known, if_true, bind_eq_error]
    simp [Dimension.compileOrdering_eq_foreign_iff typed, known]
    tauto
  · simp [known]

private theorem Item.compileTotal_ne_foreign (t : Total) (name target : String) :
    compileTotal t ≠ .error (.compile (.orderedByForeignMeasure name target)) := by
  unfold compileTotal
  split <;> simp

/-! ### Statements -/

namespace Table

variable {statement : Statement} {schema : Schema} {filter : Option Filter} {measures : List Measure}
  {names : List (List String)}

/-- A statement whose filter and bindings are in order fails as the first of its dimensions and totals
does. -/
theorem failure?_compile (includeNulls : Value)
    (filtered : statement.filter.mapM (FilterTerm.compile schema) = .ok filter)
    (bound : bindAll schema [] statement.bindings = .ok (measures, names)) :
    (Table.compile schema includeNulls statement).failure? =
      firstFailure? schema (orRowCount measures) statement.atoms := by
  have failed (measures : List Measure) (side : Side) :
      (Axis.ofClause schema measures (statement.named names side)).failure? =
        firstFailure? schema measures (clauseAtoms (statement.clause side)) := by
    rw [Axis.ofClause, failure?_bind_pure, failure?_compileClause, (statement.named_keeps ..).1]
  rw [compile_eq filtered bound]
  simp only [failure?_both, failed]
  exact (firstFailure?_append _ _ _ _).symm

end Table

/-- A node of a dimension that is ordered by an aggregate of a field ranks by that aggregate. -/
def Atom.RanksAs (atom : Atom) (node : Node) : Prop :=
  ∀ d field aggregate, atom = .dimension d → d.orderTarget = .ref ⟨.text field, .text aggregate⟩ →
    d.name = node.field?.elim .null Value.text ∧
      node.order.orderBy = some ⟨some field, lower aggregate⟩

private theorem Measure.base_of_asked {measure : Measure} {field aggregate : String}
    (asked : measure.asked = (.text field, aggregate)) : measure.base = ⟨some field, aggregate⟩ := by
  obtain ⟨name, given, method, format, across, label⟩ := measure
  cases given <;> cases asked
  rfl

private theorem Atom.ranksAs_of_shows {node : Node}
    (valid : ∀ measure ∈ measures, isValid measure.aggregate)
    (shown : Atom.Shows schema measures atom node.mark) : atom.RanksAs node := by
  rintro d field aggregate rfl ordered
  obtain ⟨id, place, label, bound⟩ := node
  cases shown with
  | @dimension _ _ order named known orders =>
    refine ⟨named, ?_⟩
    obtain ⟨base, direction, limit⟩ := order
    obtain ⟨ref, refers, resolved⟩ := orders.reference
    have own := (Dimension.refers_iff.mp refers).symm.trans ordered
    cases resolved with
    | none => cases own
    | some resolves =>
      cases own
      obtain ⟨before, measure, after, rfl, named, rfl, _⟩ := resolves
      have asked := OrderRef.names_text_iff.mp named
      have lowered : lower aggregate = aggregate := by
        rw [show aggregate = measure.aggregate from congrArg Prod.snd asked.symm]
        exact lower_of_isValid (valid measure (by simp))
      rw [lowered, ← base_of_asked asked]
      rfl

namespace Statement

variable {statement : Statement} {schema : Schema}

variable {measures : List Measure}

private theorem branches_rank {names : List (List String)} {axis : Axis} (side : Side)
    (valid : ∀ measure ∈ measures, isValid measure.aggregate)
    (built : Axis.ofClause schema measures (statement.named names side) = .ok axis) :
    List.Forall₂ (List.Forall₂ Atom.RanksAs)
      (orEmptySequence (clauseSequences (statement.clause side))) axis.branches := by
  obtain ⟨part, compiled, rfl⟩ := Axis.ofClause_eq_ok built
  have shown := Axis.forall₂_branches ⟨part.forest, part.names⟩ (compileClause_shows compiled)
  rw [(statement.named_keeps ..).2] at shown
  simp only [List.forall₂_map_right_iff] at shown
  exact shown.imp fun _ _ shows => shows.imp fun _ _ => ranksAs_of_shows valid

/-- The report of a reference that is not resolved, by the place of its dimension. -/
theorem compile_eq_foreign_iff {filter : Option Filter} {names : List (List String)}
    (includeNulls : Value) (typed : ∀ atom ∈ statement.atoms, atom.isTyped)
    (sound : ∀ binding ∈ statement.bindings, binding.IsSound schema)
    (filtered : statement.filter.mapM (FilterTerm.compile schema) = .ok filter)
    (bound : bindAll schema [] statement.bindings = .ok (measures, names)) (name target : String) :
    Table.compile schema includeNulls statement =
        .error (.compile (.orderedByForeignMeasure name target)) ↔
      ∃ before d after ref, statement.atoms = before ++ .dimension d :: after ∧
        (∀ atom ∈ before, atom.IsSound schema statement.aggregates) ∧
        d.name = .text name ∧ d.unordered.IsSound schema [] ∧
        d.orderTarget = .ref ref ∧ ref.target = target ∧
        ¬∃ asked ∈ statement.aggregates, ref.Names asked := by
  have asked := mem_asked_iff sound bound
  have unnamed (ref : OrderRef) : (¬∃ asked ∈ statement.aggregates, ref.Names asked) ↔
      ∀ measure ∈ orRowCount measures, ¬ref.Names measure.asked := by
    simp only [← asked, List.mem_map, not_exists, not_and]
    constructor
    · intro none measure listed
      exact none _ ⟨measure, listed, rfl⟩
    · rintro none _ ⟨measure, listed, rfl⟩
      exact none measure listed
  have fine {atom : Atom} (member : atom ∈ statement.atoms) :
      (atom.compile schema (orRowCount measures)).failure? = none ↔
        atom.IsSound schema statement.aggregates := by
    rw [failure?_eq_none, (Atom.checks_compile (typed atom member)).isOk_iff,
      Atom.isSound_congr asked]
  rw [← failure?_eq_some, Table.failure?_compile includeNulls filtered bound,
    Atom.firstFailure?, List.findSome?_eq_some_iff]
  simp only [failure?_eq_some, unnamed]
  constructor
  · rintro ⟨before, atom, after, split, failed, earlier⟩
    have member : atom ∈ statement.atoms := by simp [split]
    cases atom with
    | total t => exact absurd failed (compileTotal_ne_foreign t name target)
    | dimension d =>
      obtain ⟨named, plain, ref, ordered, spelled, none⟩ :=
        (compileDimension_eq_foreign_iff (typed _ member)).mp failed
      refine ⟨before, d, after, ref, split, fun atom first => ?_, named, plain, ordered, spelled, none⟩
      exact (fine (by simp [split, first])).mp (earlier atom first)
  · rintro ⟨before, d, after, ref, split, earlier, named, plain, ordered, spelled, none⟩
    have member : Atom.dimension d ∈ statement.atoms := by simp [split]
    refine ⟨before, .dimension d, after, split, ?_, fun atom first => ?_⟩
    · exact (compileDimension_eq_foreign_iff (typed _ member)).mpr
        ⟨named, plain, ref, ordered, spelled, none⟩
    · exact (fine (by simp [split, first])).mpr (earlier atom first)

/-- Orderings by a measure. A reference is resolved where a binding asks for its aggregate, in whatever
case, and the reference is in lower case. It is reported where it is not resolved, and nothing else is
wrong up to its dimension. In a table the nodes of the dimension rank by the aggregate. -/
theorem references_resolve_in_lower_case (typed : statement.isTyped = true)
    (filter : ∀ term ∈ statement.filterTerms, term.IsSound schema)
    (bindings : ∀ binding ∈ statement.bindings, binding.IsSound schema) (includeNulls : Value) :
    (∀ field aggregate,
      (∃ asked ∈ statement.aggregates, OrderRef.Names ⟨.text field, .text aggregate⟩ asked) ↔
        statement.Asks field aggregate ∧ Text.lower aggregate = aggregate) ∧
    (∀ name target, Table.compile schema includeNulls statement =
        .error (.compile (.orderedByForeignMeasure name target)) ↔
      ∃ before d after ref, statement.atoms = before ++ .dimension d :: after ∧
        (∀ atom ∈ before, atom.IsSound schema statement.aggregates) ∧
        d.name = .text name ∧ d.unordered.IsSound schema [] ∧
        d.orderTarget = .ref ref ∧ ref.target = target ∧
        ¬∃ asked ∈ statement.aggregates, ref.Names asked) ∧
    ∀ table, Table.compile schema includeNulls statement = .ok table → ∀ side,
      List.Forall₂ (List.Forall₂ Atom.RanksAs)
        (orEmptySequence (Item.clauseSequences (statement.clause side)))
        (table.axis side).branches := by
  simp only [isTyped, Bool.and_eq_true, List.all_eq_true] at typed
  obtain ⟨⟨termsTyped, bindingsTyped⟩, atomsTyped⟩ := typed
  obtain ⟨kept, filtered⟩ := (checks_filter termsTyped).isOk_iff.mpr filter
  obtain ⟨⟨measures, names⟩, bound⟩ := (Measure.checks_bindAll bindingsTyped []).isOk_iff.mpr bindings
  refine ⟨exists_named_iff bindings,
    compile_eq_foreign_iff includeNulls atomsTyped bindings filtered bound, ?_⟩
  intro table compiled side
  obtain ⟨_, _, made⟩ := Table.compile_eq_ok_iff.mp compiled
  exact branches_rank side (Table.wellFormed_of_compile compiled).aggregates (made.axis side)

theorem isSound_of_bindAll {bindings : List Binding} (typed : bindings.all Binding.isTyped)
    (bound : (bindAll schema [] bindings).toOption.isSome) :
    ∀ binding ∈ bindings, binding.IsSound schema := by
  obtain ⟨found, returned⟩ := Option.isSome_iff_exists.mp bound
  exact (checks_bindAll (List.all_eq_true.mp typed) []).isOk_iff.mp
    ⟨found, eq_ok_of_toOption returned⟩

/-- Towns and jobs by an aggregate of the pay, whose sum is bound on the other side and in capitals:
both rank by the sum, and the mean is reported for the jobs. -/
theorem jobs_rank_by_sum_and_not_by_mean :
    let schema := Schema.ofNames ["town", "job"] ["pay"]
    let ranked (name aggregate : String) : Item Binding :=
      .dimension { name, limit := some ⟨2, .ref ⟨"pay", aggregate⟩⟩, order := "Desc" }
    let statement (aggregate : String) : Statement :=
      { rows := [[ranked "town" "sum", .axis [[.axis []], [ranked "job" aggregate]]]]
        cols := some [[.measure "pay" ["SUM"]]] }
    (∀ aggregate, (statement aggregate).isTyped = true ∧
      ∀ binding ∈ (statement aggregate).bindings, binding.IsSound schema) ∧
    (statement "sum").Asks "pay" "sum" ∧
    (∃ table, Table.compile schema .null (statement "sum") = .ok table ∧
      List.Forall₂ (List.Forall₂ Atom.RanksAs)
        (orEmptySequence (Item.clauseSequences (statement "sum").rows)) table.rows.branches) ∧
    Table.compile schema .null (statement "mean") =
      .error (.compile (.orderedByForeignMeasure "job" "pay.mean")) ∧
    ∃ d ref, Atom.dimension d ∈ (statement "mean").atoms ∧ d.orderTarget = .ref ref ∧
      ref.target = "pay.mean" ∧ ¬∃ asked ∈ (statement "mean").aggregates, ref.Names asked := by
  intro schema ranked statement
  have typed (aggregate : String) : (statement aggregate).isTyped = true := rfl
  have bindings (aggregate : String) :
      ∀ binding ∈ (statement aggregate).bindings, binding.IsSound schema :=
    have bound : (Measure.bindAll schema [] (statement "").bindings).toOption.isSome = true := by
      decide +kernel
    isSound_of_bindAll rfl bound
  have resolved (aggregate : String) := references_resolve_in_lower_case (typed aggregate)
    (by simp [statement, filterTerms]) (bindings aggregate) .null
  obtain ⟨table, compiled, -⟩ :
      ∃ table, Table.compile schema .null (statement "sum") = .ok table ∧ True := by
    decide +kernel
  have refused : Table.compile schema .null (statement "mean") =
      .error (.compile (.orderedByForeignMeasure "job" "pay.mean")) := rfl
  obtain ⟨before, d, after, ref, split, _, _, _, ordered, spelled, none⟩ :=
    ((resolved "mean").2.1 "job" "pay.mean").mp refused
  refine ⟨fun aggregate => ⟨typed aggregate, bindings aggregate⟩,
    ⟨_, .head _, _, .head _, rfl, by decide +kernel⟩,
    ⟨table, compiled, (resolved "sum").2.2 table compiled .rows⟩, refused,
    d, ref, by simp [split], ordered, spelled, none⟩

/-- A reference in capitals is refused beside the binding that takes its aggregate in capitals. -/
theorem reference_in_capitals_is_refused :
    let schema := Schema.ofNames ["town"] ["pay"]
    let pay : Binding := { measure := "pay", aggregations := [{ method := "SUM" }] }
    let towns : Dimension := { name := "town", orderBy := some ⟨"pay", "SUM"⟩ }
    let statement : Statement := { rows := [[.dimension towns, .binding pay]] }
    statement.isTyped = true ∧ (∀ binding ∈ statement.bindings, binding.IsSound schema) ∧
      statement.Asks "pay" "SUM" ∧
      Table.compile schema .null statement =
        .error (.compile (.orderedByForeignMeasure "town" "pay.SUM")) := by
  intro schema pay towns statement
  refine ⟨rfl, isSound_of_bindAll rfl (by decide +kernel), ?_, rfl⟩
  exact ⟨pay, .head _, _, .head _, rfl, rfl⟩

end Statement

end Crosstab
