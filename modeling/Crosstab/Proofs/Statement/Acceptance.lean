import Crosstab.Proofs.Statement.WellFormed
import Crosstab.Proofs.Table

/-!
# Compilation accepts exactly the well-formed statements

Every check of compilation succeeds where the condition that it stands for holds, and reports a
fault of the statement where it does not.
-/
namespace Crosstab

open List Outcome Value Crosstab.Measure Binding Text Item

/-! ### Checks -/

/-- Succeeds where a condition holds, and reports a fault of the statement where it does not. -/
inductive Outcome.Checks {α : Type} (P : Prop) : Outcome α → Prop where
  | accepts (a : α) (holds : P) : Checks P (.ok a)
  | rejects (cause : CompileError) (fails : ¬P) : Checks P (.error (.compile cause))

namespace Outcome.Checks

variable {α β : Type} {P Q : Prop} {x : Outcome α}

theorem congr (checks : Checks P x) (same : P ↔ Q) : Checks Q x := propext same ▸ checks

theorem isOk_iff (checks : Checks P x) : (∃ a, x = .ok a) ↔ P := by
  cases checks with
  | accepts a holds => exact ⟨fun _ => holds, fun _ => ⟨a, rfl⟩⟩
  | rejects cause fails => exact ⟨nofun, fun holds => absurd holds fails⟩

private theorem exists_cause (checks : Checks P x) (fails : ¬P) :
    ∃ cause, x = .error (.compile cause) := by
  cases checks with
  | accepts a holds => exact absurd holds fails
  | rejects cause _ => exact ⟨cause, rfl⟩

theorem bind {f : α → Outcome β} (first : Checks P x)
    (next : ∀ a, x = .ok a → P → Checks Q (f a)) : Checks (P ∧ Q) (x >>= f) := by
  cases first with
  | accepts a holds => exact (next a rfl holds).congr (by simp [holds])
  | rejects cause fails => exact .rejects cause fun both => fails both.1

theorem bind_pure {f : α → β} (first : Checks P x) : Checks P (x >>= fun a => pure (f a)) :=
  (first.bind fun a _ _ => .accepts (f a) trivial).congr (and_iff_left trivial)

theorem ite {c : Prop} [Decidable c] {cause : CompileError} (next : ¬c → Checks P x) :
    Checks (¬c ∧ P) (if c then .error (.compile cause) else x) := by
  split
  next fault => exact .rejects cause fun both => both.1 fault
  next fine => exact (next fine).congr (by simp [fine])

theorem keyword {word first second : String} (a b : α) (cause : CompileError) :
    Checks (word = first ∨ word = second)
      (if word = first then .ok a else if word = second then .ok b
        else .error (.compile cause)) := by
  split
  next one => exact .accepts a (.inl one)
  next other =>
    split
    next two => exact .accepts b (.inr two)
    next none => exact .rejects cause fun either => either.elim other none

end Outcome.Checks

open Outcome (Checks)

variable {v : Value} {schema : Schema}

theorem Value.exists_of_isText (text : v.isText) : ∃ s, v = .text s := by
  cases v <;> cases text
  exact ⟨_, rfl⟩

theorem Value.cases_of_isOptionalText (text : v.isOptionalText) : v = .null ∨ ∃ s, v = .text s := by
  cases v <;> cases text
  · exact .inl rfl
  · exact .inr ⟨_, rfl⟩

theorem Value.asKey_of_isOptionalText (text : v.isOptionalText) : v.asKey = .ok v := by
  obtain rfl | ⟨s, rfl⟩ := v.cases_of_isOptionalText text <;> rfl

theorem Schema.field?_text (schema : Schema) (name : String) :
    schema.field? (.text name) = .ok (if schema.hasField name then some name else none) := rfl

/-! ### Filters -/

namespace FilterTerm

variable {schema : Schema}

theorem checkField_text (schema : Schema) (name : String) : checkField schema (.text name) =
    if schema.hasField name then .ok name
    else .error (.compile (.unknownFilterField (.text name))) := by
  unfold checkField
  rw [Schema.field?_text, ok_bind]
  by_cases known : schema.hasField name
  · rw [if_pos known, if_pos known]
    rfl
  · rw [if_neg known, if_neg known]

/-- The operators that compare by order are those that compare and do not ask for equality. -/
theorem isOrdering_iff {operator : Operator} (compares : operator.isComparison) :
    operator.isOrdering ↔ operator ≠ .equal ∧ operator ≠ .notEqual := by
  cases operator <;> simp_all [Operator.isComparison, Operator.isOrdering]

private theorem checks_compileComparison (schema : Schema) (name symbol : String) (literal : Value) :
    (compileComparison schema (.text name) (.text symbol) literal).Checks
      ((comparison (.text name) (.text symbol) literal).IsSound schema) := by
  have sound : (comparison (.text name) (.text symbol) literal).IsSound schema ↔
      schema.hasField name ∧ ∃ kind, comparisonOf (strip symbol) = some kind ∧
        literal.isNull = false ∧ (kind ≠ .equal → kind ≠ .notEqual → schema.isNumeric name) ∧
        ¬(schema.isNumeric name ∧ literal.isText) := by
    simp only [IsSound, Value.text.injEq, exists_and_left, exists_eq_left']
  unfold compileComparison
  rw [checkField_text, sound]
  by_cases known : schema.hasField name
  · rw [if_pos known]
    refine (Checks.ite fun _ => Checks.ite fun _ => Checks.ite fun _ => Checks.ite fun _ =>
      Checks.accepts _ trivial).congr ?_
    rw [comparisonOf_strip]
    by_cases compares : (readOperator symbol).isComparison
    · have ordering := isOrdering_iff compares
      simp [known, compares, ordering]
    · simp [compares]
  · rw [if_neg known]
    exact .rejects _ fun both => known both.1

private theorem checks_compileNullCheck (schema : Schema) (name : String) (negated : Bool) :
    (compileNullCheck schema (.text name) negated).Checks
      ((nullCheck (.text name) negated).IsSound schema) := by
  unfold compileNullCheck
  rw [checkField_text]
  by_cases known : schema.hasField name
  · rw [if_pos known]
    exact .accepts _ ⟨name, rfl, known⟩
  · rw [if_neg known]
    refine .rejects _ ?_
    rintro ⟨_, ⟨rfl⟩, there⟩
    exact known there

mutual

theorem checks_compile : ∀ {term : FilterTerm}, (∀ sub ∈ term.subterms, sub.isTyped) →
    (term.compile schema).Checks (∀ sub ∈ term.subterms, sub.IsSound schema)
  | .comparison field operator literal, typed => by
    rw [subterms, forall_mem_singleton, isTyped, Bool.and_eq_true] at typed
    obtain ⟨name, rfl⟩ := exists_of_isText typed.1
    obtain ⟨symbol, rfl⟩ := exists_of_isText typed.2
    rw [compile, subterms, forall_mem_singleton]
    exact checks_compileComparison schema name symbol literal
  | .nullCheck field negated, typed => by
    rw [subterms, forall_mem_singleton] at typed
    obtain ⟨name, rfl⟩ := exists_of_isText typed
    rw [compile, subterms, forall_mem_singleton]
    exact checks_compileNullCheck schema name negated
  | .negation operand, typed => by
    rw [subterms, forall_mem_cons] at typed
    rw [compile, subterms]
    refine (checks_compile typed.2).bind_pure.congr ?_
    rw [forall_mem_cons]
    exact (and_iff_right trivial).symm
  | .chain [] connectives, typed => by
    rw [compile, subterms, forall_mem_cons]
    exact .rejects _ fun sound => sound.1.1 rfl
  | .chain (first :: rest) connectives, typed => by
    rw [subterms, subtermsOf, forall_mem_cons, forall_mem_append] at typed
    rw [compile]
    refine (Checks.ite fun alternate => (checks_compile typed.2.1).bind fun _ _ _ =>
      (checks_compileRest (by simpa using alternate) typed.2.2).bind_pure).congr ?_
    rw [subterms, subtermsOf, forall_mem_cons, forall_mem_append, IsSound]
    simp
    tauto

theorem checks_compileRest : ∀ {terms : List FilterTerm} {connectives : List String},
    connectives.length = terms.length → (∀ sub ∈ subtermsOf terms, sub.isTyped) →
    (compileRest schema terms connectives).Checks
      ((∀ connective ∈ connectives, upper connective = "AND" ∨ upper connective = "OR") ∧
        ∀ sub ∈ subtermsOf terms, sub.IsSound schema)
  | [], [], _, _ => by
    rw [compileRest]
    · exact .accepts _ (by simp [subtermsOf])
    · simp
  | term :: terms, connective :: connectives, alternate, typed => by
    rw [subtermsOf, forall_mem_append] at typed
    rw [compileRest]
    have keyword : (opensRun connective).Checks _ := Checks.keyword _ _ _
    refine (keyword.bind fun _ _ _ => (checks_compile typed.1).bind fun _ _ _ =>
      (checks_compileRest (Nat.succ.inj alternate) typed.2).bind_pure).congr ?_
    rw [subtermsOf, forall_mem_append, forall_mem_cons]
    tauto

end

end FilterTerm

/-! ### Bindings -/

namespace Binding

private theorem checks_readAcross {across : Value} (typed : across.isOptionalText) :
    (readAcross across).Checks
      (∀ side, across = .text side → lower side = "rows" ∨ lower side = "cols") := by
  obtain rfl | ⟨name, rfl⟩ := cases_of_isOptionalText typed
  · exact .accepts _ nofun
  · exact (Checks.keyword _ _ _).congr (by simp)

private theorem checks_checkAggregate {schema : Schema} {measure : Value} (method : String)
    (typed : measure.isOptionalText) :
    (checkAggregate schema measure method).Checks (Aggregate.Suits schema measure method) := by
  unfold checkAggregate
  by_cases valid : Aggregate.isValid method
  swap
  · rw [if_pos (by simpa using valid)]
    exact .rejects _ fun suits => valid (Aggregate.isValid_iff.mpr suits.aggregate)
  rw [if_neg (by simpa using valid)]
  have aggregate := Aggregate.isValid_iff.mp valid
  obtain rfl | ⟨name, rfl⟩ := cases_of_isOptionalText typed
  · -- Only a count has no field.
    rw [if_pos (show Value.null.isNull = true from rfl)]
    split
    next other => exact .rejects _ fun suits => absurd (suits.counted rfl) (by simpa using other)
    next count => exact .accepts _ ⟨aggregate, fun _ => by simpa using count, by simp, by simp⟩
  · rw [if_neg (by simp [isNull]), Schema.field?_text, ok_bind]
    by_cases known : schema.hasField name
    · simp only [known, if_true]
      split
      next other =>
        refine .rejects _ fun suits => ?_
        simp only [Bool.and_eq_true, bne_iff_ne, Bool.not_eq_true'] at other
        rw [suits.numeric name rfl other.1] at other
        exact Bool.noConfusion other.2
      next fine =>
        simp only [Bool.and_eq_true, bne_iff_ne, Bool.not_eq_true', not_and, Bool.not_eq_false] at fine
        exact .accepts _ ⟨aggregate, by simp, fun _ same => by cases same; exact known,
          fun _ same => by cases same; exact fine⟩
    · simp only [known]
      exact .rejects _ fun suits => known (suits.known name rfl)

variable {aggregation : Aggregation} {binding : Binding}

/-- A format that is text, and not empty, is the one that counts as given. -/
theorem formatIn_eq (binding : Binding) (own : aggregation.format.isOptionalText) :
    aggregation.formatIn binding =
      if aggregation.format.truthy then aggregation.format else binding.format := by
  unfold Aggregation.formatIn
  obtain absent | ⟨name, present⟩ := cases_of_isOptionalText own
  · simp [absent, truthy]
  · rw [present]
    by_cases empty : name = ""
    · simp [empty, truthy]
    · simp [empty, truthy]

theorem isOptionalText_formatIn (own : aggregation.format.isOptionalText)
    (shared : binding.format.isOptionalText) : (aggregation.formatIn binding).isOptionalText := by
  rw [formatIn_eq binding own]
  split
  · exact own
  · exact shared

private theorem checks_readFormat (own : aggregation.format.isOptionalText)
    (shared : binding.format.isOptionalText) (across : Option Side) :
    (readFormat aggregation.format binding.format across).Checks
      (∀ name, aggregation.formatIn binding = .text name → IsFormatName name) := by
  unfold readFormat
  rw [← formatIn_eq binding own]
  obtain absent | ⟨name, present⟩ := cases_of_isOptionalText (isOptionalText_formatIn own shared)
  · rw [absent]
    exact .accepts _ nofun
  · rw [present]
    simp only
    split
    next known => exact .accepts _ fun _ same => by cases same; exact isFormat_iff.mp known
    next unknown => exact .rejects _ fun all => unknown (isFormat_iff.mpr (all name rfl))

end Binding

private theorem MeasureIdentity.checks_ofAggregation {binding : Binding} {aggregation : Aggregation}
    (typed : aggregation.isTyped) (bindingTyped : binding.isTyped) (across : Option Side) :
    (ofAggregation schema binding across aggregation).Checks
      (aggregation.IsSound schema binding) := by
  simp only [Aggregation.isTyped, isTyped, Bool.and_eq_true] at typed bindingTyped
  obtain ⟨⟨method, format⟩, label⟩ := typed
  obtain ⟨⟨⟨⟨measure, shared⟩, sharedLabel⟩, _⟩, _⟩ := bindingTyped
  obtain ⟨name, named⟩ := exists_of_isText method
  have lowered : aggregation.methodName = lower name := by
    rw [Aggregation.methodName, named, plain]
  have labelled : (if aggregation.label.isNull then binding.label
      else aggregation.label).isOptionalText := by
    split
    · exact sharedLabel
    · exact label
  unfold ofAggregation
  rw [named, asText, ok_bind, asKey_of_isOptionalText labelled]
  refine ((checks_checkAggregate (lower name) measure).bind fun _ _ _ =>
    (checks_readFormat format shared across).bind_pure).congr ?_
  rw [← lowered]
  exact ⟨fun both => ⟨both.1, both.2⟩, fun sound => ⟨sound.suits, sound.format⟩⟩

namespace Measure

variable {schema : Schema} {binding : Binding}

private theorem checks_bindAggregations (typed : binding.isTyped) (across : Option Side)
    {aggregations : List Aggregation} (each : ∀ aggregation ∈ aggregations, aggregation.isTyped)
    (measures : List Measure) :
    (bindAggregations schema binding across measures aggregations).Checks
      (∀ aggregation ∈ aggregations, aggregation.IsSound schema binding) := by
  induction aggregations generalizing measures with
  | nil => exact .accepts _ (by simp)
  | cons aggregation rest ih =>
    rw [forall_mem_cons] at each ⊢
    exact (MeasureIdentity.checks_ofAggregation each.1 typed across).bind fun _ _ _ =>
      (ih each.2 _).bind_pure

private theorem checks_bindOne (typed : binding.isTyped) (measures : List Measure) :
    (bindOne schema measures binding).Checks (binding.IsSound schema) := by
  have parts := typed
  simp only [isTyped, Bool.and_eq_true, List.all_eq_true] at parts
  refine (Checks.ite fun _ => (checks_readAcross parts.1.2).bind fun across _ _ =>
    checks_bindAggregations typed across parts.2 measures).congr ?_
  rw [List.isEmpty_iff]
  exact ⟨fun all => ⟨all.1, all.2.1, all.2.2⟩,
    fun sound => ⟨sound.aggregated, sound.across, sound.aggregations⟩⟩

theorem checks_bindAll {bindings : List Binding} (typed : ∀ binding ∈ bindings, binding.isTyped)
    (measures : List Measure) : (bindAll schema measures bindings).Checks
      (∀ binding ∈ bindings, binding.IsSound schema) := by
  induction bindings generalizing measures with
  | nil => exact .accepts _ (by simp)
  | cons binding rest ih =>
    rw [forall_mem_cons] at typed ⊢
    exact (checks_bindOne typed.1 measures).bind fun bound _ _ => (ih typed.2 bound.1).bind_pure

end Measure

/-! ### Dimensions and totals -/

namespace Dimension

theorem checks_readDirection {order : Value} (typed : order.isOptionalText) (field : String) :
    (readDirection order field).Checks (∀ keyword, order = .text keyword →
      lower keyword = "asc" ∨ lower keyword = "desc") := by
  obtain rfl | ⟨keyword, rfl⟩ := cases_of_isOptionalText typed
  · exact .accepts _ nofun
  · exact (Checks.keyword _ _ _).congr (by simp)

private theorem checks_resolveOrder (measures : List Measure) (field : String) (ref : OrderRef) :
    (resolveOrder measures field ref).Checks (∃ measure ∈ measures, ref.Names measure.asked) := by
  rcases resolveOrder_cases measures field ref with
    ⟨base, ⟨before, measure, after, split, own, _⟩, found⟩ | ⟨none, missed⟩
  · rw [found]
    exact .accepts _ ⟨measure, by simp [split], own⟩
  · rw [missed]
    refine .rejects _ ?_
    rintro ⟨measure, listed, own⟩
    exact none measure listed own

variable {dimension : Dimension}

/-- In a typed dimension nothing but a reference stands at the place of one. -/
theorem orderTarget_eq (typed : dimension.isTyped) :
    dimension.orderTarget = dimension.orderRef?.elim .absent OrderTarget.ref := by
  obtain ⟨name, label, limit, order, outside⟩ := dimension
  cases limit with
  | none => rfl
  | some limit =>
    obtain ⟨count, inside⟩ := limit
    cases inside with
    | absent => rfl
    | ref ref => rfl
    | other value => simp [isTyped] at typed

theorem exists_name (typed : dimension.isTyped) : ∃ field, dimension.name = .text field := by
  simp only [isTyped, Bool.and_eq_true] at typed
  exact exists_of_isText typed.1.1

theorem isOptionalText_order (typed : dimension.isTyped) : dimension.order.isOptionalText := by
  simp only [isTyped, Bool.and_eq_true] at typed
  exact typed.1.2

theorem limit_ne_zero_iff : ¬dimension.limit.map (·.count) = some 0 ↔
    ∀ limit, dimension.limit = some limit → limit.count ≠ 0 := by
  cases dimension.limit <;> simp

private theorem checks_compileOrdering (typed : dimension.isTyped) (measures : List Measure)
    (field : String) : (dimension.compileOrdering measures field).Checks
      ((∀ keyword, dimension.order = .text keyword →
          lower keyword = "asc" ∨ lower keyword = "desc") ∧
        (∀ limit, dimension.limit = some limit → limit.count ≠ 0) ∧
        ∀ ref, dimension.orderRef? = some ref → ∃ measure ∈ measures, ref.Names measure.asked) := by
  refine (checks_readDirection (isOptionalText_order typed) field).bind fun direction _ _ => ?_
  rw [← limit_ne_zero_iff, orderTarget_eq typed]
  refine Checks.ite fun _ => ?_
  cases dimension.orderRef? with
  | none => exact .accepts _ nofun
  | some ref => exact (checks_resolveOrder measures field ref).bind_pure.congr (by simp)

end Dimension

namespace Item

variable {schema : Schema} {measures : List Measure}

private theorem checks_compileDimension {d : Dimension} (typed : d.isTyped) :
    (compileDimension schema measures d).Checks
      (d.IsSound schema (measures.map asked)) := by
  obtain ⟨field, named⟩ := Dimension.exists_name typed
  unfold compileDimension
  rw [named, Schema.field?_text]
  by_cases known : schema.hasField field
  · simp only [known, if_true]
    refine (d.checks_compileOrdering typed measures field).bind_pure.congr ?_
    constructor
    · rintro ⟨order, limit, ref⟩
      exact ⟨⟨field, named, known⟩, order, limit, by simpa using ref⟩
    · intro sound
      exact ⟨sound.order, sound.limit, by simpa using sound.ref⟩
  · simp only [known]
    refine .rejects _ fun sound => ?_
    obtain ⟨other, same, there⟩ := sound.known
    rw [named] at same
    cases same
    exact known there

private theorem checks_compileTotal (t : Total) (aggregates : List (Value × String)) :
    (compileTotal t).Checks (Atom.IsSound schema aggregates (.total t)) := by
  refine (Checks.ite fun _ => Checks.accepts _ trivial).congr ?_
  simp [Atom.IsSound, isNull_iff]

end Item

variable {measures : List Measure} {atom : Atom}

/-! ### Failures of clauses -/

def Outcome.failure? {α : Type} : Outcome α → Option Error
  | .ok _ => none
  | .error e => some e

namespace Outcome

variable {α β γ : Type} {x : Outcome α}

theorem failure?_eq_some {e : Error} : x.failure? = some e ↔ x = .error e := by
  cases x <;> simp [failure?]

theorem failure?_eq_none : x.failure? = none ↔ ∃ a, x = .ok a := by
  cases x <;> simp [failure?]

@[simp] theorem failure?_bind_pure (x : Outcome α) (f : α → β) :
    (x >>= fun a => pure (f a)).failure? = x.failure? := by
  cases x <;> rfl

/-- Of two steps that do not depend on each other the first one fails first. -/
theorem failure?_both (x : Outcome α) (y : Outcome β) (f : α → β → γ) :
    (x >>= fun a => y >>= fun b => pure (f a b)).failure? = x.failure?.or y.failure? := by
  cases x <;> cases y <;> rfl

end Outcome

/-- The part of a dimension or total by itself. -/
def Atom.compile (schema : Schema) (measures : List Measure) : Atom → Outcome Part
  | dimension d => compileDimension schema measures d
  | total t => compileTotal t

def Atom.firstFailure? (schema : Schema) (measures : List Measure) (atoms : List Atom) : Option Error :=
  atoms.findSome? fun atom => (atom.compile schema measures).failure?

theorem Atom.checks_compile (typed : atom.isTyped) :
    (atom.compile schema measures).Checks (atom.IsSound schema (measures.map asked)) := by
  cases atom with
  | dimension d => exact checks_compileDimension typed
  | total t => exact checks_compileTotal t _

theorem Atom.firstFailure?_append (schema : Schema) (measures : List Measure) (left right : List Atom) :
    firstFailure? schema measures (left ++ right) =
      (firstFailure? schema measures left).or (firstFailure? schema measures right) :=
  List.findSome?_append

namespace Item

open Atom (firstFailure? firstFailure?_append)

variable (schema : Schema) (measures : List Measure)

mutual

theorem failure?_compileClause (clause : AxisClause (List String)) :
    (compileClause schema measures clause).failure? =
      firstFailure? schema measures (clauseAtoms clause) := by
  match clause with
  | [] => rfl
  | group :: rest =>
    rw [compileClause, failure?_both, failure?_compileGroup group,
      failure?_compileClause rest, clauseAtoms, firstFailure?_append]

theorem failure?_compileGroup (group : Group (List String)) :
    (compileGroup schema measures group).failure? =
      firstFailure? schema measures (groupAtoms group) := by
  match group with
  | [] => rfl
  | item :: rest =>
    have first := failure?_compile item
    have later := failure?_compileGroup rest
    cases item with
    | binding _ => exact later
    | _ =>
      rw [compileGroup_of_not_binding (by simp), failure?_both, first, later, groupAtoms,
        firstFailure?_append]

theorem failure?_compile (item : Item (List String)) :
    (compile schema measures item).failure? = firstFailure? schema measures (atoms item) := by
  match item with
  | .dimension d => simp [compile, atoms, Atom.firstFailure?, Atom.compile]
  | .total t => simp [compile, atoms, Atom.firstFailure?, Atom.compile]
  | .binding _ => rfl
  | .axis groups => exact failure?_compileClause groups

end

end Item

/-- What fails as the first of some dimensions and totals does checks them all. -/
theorem Atom.checks_of_failure? {α : Type} {x : Outcome α} {atoms : List Atom}
    (typed : ∀ atom ∈ atoms, atom.isTyped) (same : x.failure? = firstFailure? schema measures atoms) :
    x.Checks (∀ atom ∈ atoms, atom.IsSound schema (measures.map asked)) := by
  cases x with
  | ok a =>
    refine .accepts a fun atom member => ?_
    have passes := findSome?_eq_none_iff.mp same.symm atom member
    exact (checks_compile (typed atom member)).isOk_iff.mp (failure?_eq_none.mp passes)
  | error e =>
    obtain ⟨atom, member, failed⟩ := exists_of_findSome?_eq_some same.symm
    have checks : (atom.compile schema measures).Checks _ := checks_compile (typed atom member)
    rw [failure?_eq_some.mp failed] at checks
    cases checks with
    | rejects cause unsound => exact .rejects cause fun sound => unsound (sound atom member)

/-! ### Statements -/

namespace Measure

variable {schema : Schema}

private theorem asked_of_checkAggregate {measure : Value} {method : String} {field : Option String}
    (checked : checkAggregate schema measure method = .ok field) :
    field.elim .null Value.text = measure := by
  unfold checkAggregate at checked
  split at checked
  · cases checked
  · split at checked
    next absent =>
      rw [isNull_iff.mp absent]
      split at checked <;> cases checked
      rfl
    next =>
      obtain ⟨found, looked, returned⟩ := bind_eq_ok.mp checked
      cases found with
      | none => cases returned
      | some name =>
        simp only at returned
        split at returned <;> cases returned
        exact (Schema.field?_eq_some looked).symm

variable {binding : Binding} {across : Option Side} {before after : List Measure}

theorem asked_of_ofAggregation {aggregation : Aggregation} {identity : MeasureIdentity}
    (checked : MeasureIdentity.ofAggregation schema binding across aggregation = .ok identity)
    (name : String) :
    (identity.toMeasure name).asked = (binding.measure, aggregation.methodName) := by
  obtain ⟨method, written, checked⟩ := bind_eq_ok.mp checked
  obtain ⟨field, aggregate, checked⟩ := bind_eq_ok.mp checked
  obtain ⟨format, _, checked⟩ := bind_eq_ok.mp checked
  obtain ⟨label, _, checked⟩ := bind_eq_ok.mp checked
  cases checked
  have named : aggregation.method = .text method := by
    cases same : aggregation.method <;> rw [same] at written <;> cases written
    rfl
  have lowered : aggregation.methodName = lower method := by
    rw [Aggregation.methodName, named, plain]
  exact Prod.ext (asked_of_checkAggregate aggregate) lowered.symm

/-- After an adjunction the aggregate asked for is there, be it in a measure from before. -/
theorem mem_asked_adjoin (measures : List Measure) (identity : MeasureIdentity)
    (aggregate : Value × String) : aggregate ∈ (adjoin measures identity).1.map Measure.asked ↔
      aggregate ∈ measures.map Measure.asked ∨ aggregate = (identity.toMeasure "").asked := by
  unfold adjoin
  split
  next measure found =>
    have same := find?_some found
    simp only [MeasureIdentity.same, Measure.identity, Bool.and_eq_true, beq_iff_eq] at same
    -- What is asked for is part of the identity, so the measure that is there asks for the same.
    have own : (identity.toMeasure "").asked = measure.asked := by
      simp only [Measure.asked, MeasureIdentity.toMeasure, same]
    refine (or_iff_left_of_imp ?_).symm
    rintro rfl
    rw [own]
    exact mem_map_of_mem (mem_of_find?_eq_some found)
  next => simp [Measure.asked, MeasureIdentity.toMeasure]

private theorem mem_asked_bindAggregations {aggregations : List Aggregation} {names : List String}
    (bound : bindAggregations schema binding across before aggregations = .ok (after, names))
    (aggregate : Value × String) : aggregate ∈ after.map asked ↔
      aggregate ∈ before.map asked ∨
        ∃ aggregation ∈ aggregations, aggregate = (binding.measure, aggregation.methodName) := by
  induction aggregations generalizing before names with
  | nil =>
    cases bound
    simp
  | cons aggregation rest ih =>
    obtain ⟨identity, others, checked, later, rfl⟩ := bindAggregations_cons_iff.mp bound
    rw [ih later, mem_asked_adjoin, asked_of_ofAggregation checked, or_assoc]
    simp

private theorem mem_asked_bindAll {bindings : List Binding} {names : List (List String)}
    (bound : bindAll schema before bindings = .ok (after, names)) (aggregate : Value × String) :
    aggregate ∈ after.map asked ↔
      aggregate ∈ before.map asked ∨ aggregate ∈ bindings.flatMap aggregates := by
  induction bindings generalizing before names with
  | nil =>
    cases bound
    simp
  | cons binding rest ih =>
    obtain ⟨across, middle, own, others, _, _, one, later, rfl⟩ := bindAll_cons_iff.mp bound
    rw [ih later, mem_asked_bindAggregations one, flatMap_cons, or_assoc]
    simp [aggregates, eq_comm]

end Measure

namespace Item

variable {β γ : Type} (absent : γ)

/-- Labels take the place of bindings only. -/
theorem relabelClause_keeps (clause : AxisClause β) : ∀ labels,
    clauseAtoms (relabelClause absent clause labels).1 = clauseAtoms clause ∧
      clauseSequences (relabelClause absent clause labels).1 = clauseSequences clause := by
  refine clause_induction (C := fun clause : AxisClause β => ∀ labels,
      clauseAtoms (relabelClause absent clause labels).1 = clauseAtoms clause ∧
        clauseSequences (relabelClause absent clause labels).1 = clauseSequences clause)
    (G := fun group : Group β => ∀ labels,
      groupAtoms (relabelGroup absent group labels).1 = groupAtoms group ∧
        groupSequences (relabelGroup absent group labels).1 = groupSequences group)
    (I := fun item : Item β => ∀ labels, atoms (relabel absent item labels).1 = atoms item ∧
      sequences (relabel absent item labels).1 = sequences item)
    (fun _ _ => ⟨rfl, rfl⟩) (fun _ _ => ⟨rfl, rfl⟩) ?_ (fun _ inside => inside)
    (fun _ => ⟨rfl, rfl⟩) ?_ (fun _ => ⟨rfl, rfl⟩) ?_ clause
  · intro _ labels
    cases labels <;> exact ⟨rfl, rfl⟩
  · intro group rest inside behind labels
    simp only [relabelClause, clauseAtoms, clauseSequences, inside, behind, and_self]
  · intro item rest inside behind labels
    simp only [relabelGroup, groupAtoms, groupSequences_cons, inside, behind, and_self]

end Item

/-- Names in place of the bindings leave the dimensions and totals of a clause as they are. -/
theorem Statement.named_keeps (statement : Statement) (names : List (List String)) (side : Side) :
    clauseAtoms ((statement.named names side).getD []) = clauseAtoms (statement.clause side) ∧
      clauseSequences ((statement.named names side).getD []) =
        clauseSequences (statement.clause side) := by
  obtain ⟨labels, relabelled⟩ := statement.exists_relabel names side
  rw [relabelled]
  exact relabelClause_keeps [] _ labels

/-- References are looked up among the aggregates, in whatever order they come. -/
theorem Atom.isSound_congr {aggregates others : List (Value × String)}
    (same : ∀ aggregate, aggregate ∈ aggregates ↔ aggregate ∈ others) (atom : Atom) :
    atom.IsSound schema aggregates ↔ atom.IsSound schema others := by
  cases atom with
  | total t => exact Iff.rfl
  | dimension d =>
    constructor <;> intro sound <;>
      exact ⟨sound.known, sound.order, sound.limit, by simpa only [same] using sound.ref⟩

namespace Statement

variable {statement : Statement} {schema : Schema}

/-- A statement whose bindings are in order has the measures that it asks for. -/
theorem mem_asked_iff {measures : List Measure} {names : List (List String)}
    (sound : ∀ binding ∈ statement.bindings, binding.IsSound schema)
    (bound : bindAll schema [] statement.bindings = .ok (measures, names))
    (aggregate : Value × String) :
    aggregate ∈ (orRowCount measures).map asked ↔ aggregate ∈ statement.aggregates := by
  have asked := mem_asked_bindAll bound
  unfold aggregates
  cases listed : statement.bindings with
  | nil =>
    rw [listed] at bound
    cases bound
    rfl
  | cons binding rest =>
    -- The first binding has an aggregation, so there is a measure.
    have some : measures ≠ [] := by
      rintro rfl
      obtain ⟨aggregation, rest, first⟩ :=
        exists_cons_of_ne_nil (sound binding (by simp [listed])).aggregated
      have there := (asked (binding.measure, aggregation.methodName)).mpr
        (by simp [listed, Binding.aggregates, first])
      cases there
    rw [← listed, orRowCount, if_neg (by simpa using some), if_neg (by simp [listed]), asked]
    simp

theorem checks_filter (typed : ∀ term ∈ statement.filterTerms, term.isTyped) :
    (statement.filter.mapM (FilterTerm.compile schema)).Checks
      (∀ term ∈ statement.filterTerms, term.IsSound schema) := by
  unfold filterTerms at typed ⊢
  revert typed
  cases statement.filter with
  | none => exact fun _ => .accepts _ (by simp)
  | some term => exact fun typed => (FilterTerm.checks_compile typed).bind_pure

private theorem checks_compile {includeNulls : Value} (typed : statement.isTyped) :
    (Table.compile schema includeNulls statement).Checks (statement.WellFormed schema) := by
  simp only [isTyped, Bool.and_eq_true, all_eq_true] at typed
  obtain ⟨⟨terms, bindings⟩, atoms⟩ := typed
  rw [Statement.atoms, forall_mem_append] at atoms
  refine ((checks_filter terms).bind fun filter _ _ => (checks_bindAll bindings []).bind
    (Q := ∀ atom ∈ statement.atoms, atom.IsSound schema statement.aggregates)
    fun ⟨measures, names⟩ bound sound => ?_).congr
      ⟨fun all => ⟨all.1, all.2.1, all.2.2⟩, fun all => ⟨all.filter, all.bindings, all.atoms⟩⟩
  have axis (side : Side) (atoms : ∀ atom ∈ clauseAtoms (statement.clause side), atom.isTyped) :
      (Axis.ofClause schema (orRowCount measures) (statement.named names side)).Checks
        (∀ atom ∈ clauseAtoms (statement.clause side), atom.IsSound schema statement.aggregates) := by
    rw [← (statement.named_keeps names side).1] at atoms ⊢
    simp only [← Atom.isSound_congr (mem_asked_iff sound bound)]
    exact (Atom.checks_of_failure? atoms (failure?_compileClause schema _ _)).bind_pure
  rw [Statement.atoms, forall_mem_append]
  exact (axis .rows atoms.1).bind fun _ _ _ => (axis .cols atoms.2).bind_pure

/-- A typed statement compiles if and only if it is well formed, and otherwise compilation reports
what is wrong with it. -/
theorem compiles_iff_wellFormed (typed : statement.isTyped = true) (includeNulls : Value) :
    ((∃ table, Table.compile schema includeNulls statement = .ok table) ↔
      statement.WellFormed schema) ∧
    (¬statement.WellFormed schema →
      ∃ cause, Table.compile schema includeNulls statement = .error (.compile cause)) :=
  have checks := checks_compile typed
  ⟨checks.isOk_iff, checks.exists_cause⟩

/-- A total deep inside an axis, behind a group of bindings and empty parentheses: with a limit it
spoils the statement, without one nothing is wrong. -/
theorem limited_total_is_found :
    let schema := Schema.ofNames ["town", "job"] ["pay"]
    let pay : Item Binding := .binding ⟨"pay", [⟨"P90", "", .null⟩], "comma.2", .null, "Cols"⟩
    let towns : Item Binding :=
      .dimension { name := "town", limit := some ⟨-2, .ref ⟨"pay", "p90"⟩⟩, order := "Desc" }
    let statement (limit : Option Limit) : Statement :=
      ⟨[[.axis [[pay], []], .axis [], towns, .axis [[.column "job"], [.total { limit }]]]], none,
        some (.chain [.negation (.comparison "pay" " >= " 3),
          .chain [.nullCheck "town" true] []] ["or"]), .null⟩
    (∀ limit, (statement limit).isTyped = true) ∧ (statement none).WellFormed schema ∧
      (∃ table, Table.compile schema .null (statement none) = .ok table) ∧
      ¬(statement (some ⟨1, .absent⟩)).WellFormed schema ∧
      ∃ cause, Table.compile schema .null (statement (some ⟨1, .absent⟩)) =
        .error (.compile cause) := by
  intro schema pay towns statement
  have typed (limit : Option Limit) : (statement limit).isTyped = true := rfl
  obtain ⟨table, compiled, -⟩ :
      ∃ table, Table.compile schema .null (statement none) = .ok table ∧ True := by
    decide +kernel
  have limited : ¬(statement (some ⟨1, .absent⟩)).WellFormed schema := by
    intro wellFormed
    have total : Atom.total ⟨.null, some ⟨1, .absent⟩, .null⟩ ∈
        (statement (some ⟨1, .absent⟩)).atoms :=
      .tail _ (.tail _ (.head _))
    cases (wellFormed.atoms _ total).1
  exact ⟨typed, (compiles_iff_wellFormed (typed none) .null).1.mp ⟨table, compiled⟩,
    ⟨table, compiled⟩, limited,
    (compiles_iff_wellFormed (typed _) .null).2 limited⟩

end Statement

end Crosstab
