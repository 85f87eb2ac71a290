import Crosstab.Proofs.Filter.Conjunction
import Mathlib.Data.Fintype.Option

/-!
# The meaning of filter clauses

A filter clause is read as it stands, once for any truth values with connectives. The filter that it
compiles to means the same in both readings.
-/
namespace Crosstab

open List Outcome

/-! ### Logics -/

/-- Truth values with tests and connectives. A term that is no proper one has a truth value too. -/
structure Logic (τ : Type) where
  test : Operator → Value → Value → τ
  neg : τ → τ
  conj : τ → τ → τ
  disj : τ → τ → τ
  improper : τ
  test_isNotNull : ∀ literal value, test .isNotNull literal value = neg (test .isNull literal value)
  disj_assoc : ∀ a b c, disj (disj a b) c = disj a (disj b c)

namespace Logic

variable {τ : Type}

/-- Two truth values. Both operands are evaluated, the left one first, and either may fail. -/
def plain : Logic (Outcome Bool) where
  test := Filter.testHolds
  neg a := do return !(← a)
  conj a b := do return (← a) && (← b)
  disj a b := do return (← a) || (← b)
  improper := .error (.misuse .noOperand)
  test_isNotNull _ _ := rfl
  disj_assoc a b c := by simp only [bind_assoc, pure_bind, Bool.or_assoc]

/-- The three truth values of databases. -/
def stored : Logic (Option Bool) where
  test := Filter.testTruth
  neg := Filter.notTruth
  conj := Filter.andTruth
  disj := Filter.orTruth
  improper := none
  test_isNotNull _ _ := rfl
  disj_assoc := by decide

/-- A chain of truth values, each marked whether a disjunction or a conjunction stands before it. A
conjunction takes in the next value only, a disjunction all that follows. -/
def chain (logic : Logic τ) (first : τ) : List (Bool × τ) → τ
  | [] => first
  | (false, next) :: rest => logic.chain (logic.conj first next) rest
  | (true, next) :: rest => logic.disj first (logic.chain next rest)

/-- An evaluation of filters on a row that follows a logic. -/
structure Evaluates (logic : Logic τ) (row : Row) (value : Filter → τ) : Prop where
  test : ∀ field operator literal,
    value (.test field operator literal) = logic.test operator literal (row.get field)
  not : ∀ operand, value (.combine .not [operand]) = logic.neg (value operand)
  and : ∀ first rest,
    value (.combine .and (first :: rest)) = (rest.map value).foldl logic.conj (value first)
  or : ∀ first rest,
    value (.combine .or (first :: rest)) = (rest.map value).foldl logic.disj (value first)

end Logic

/-! ### Reading a clause as it stands -/

namespace FilterTerm

/-- What the symbols of comparisons stand for; two of them are spelled in two ways. -/
def comparisonOf (symbol : String) : Option Operator :=
  match symbol with
  | "=" | "==" => some .equal
  | "!=" | "<>" => some .notEqual
  | ">" => some .greater
  | "<" => some .less
  | ">=" => some .atLeast
  | "<=" => some .atMost
  | _ => none

mutual

/-- The truth value of a term on a row. -/
def read {τ : Type} (logic : Logic τ) (row : Row) : FilterTerm → τ
  | comparison (.text field) (.text symbol) literal =>
    match comparisonOf (Text.strip symbol) with
    | some operator => logic.test operator literal (row.get field)
    | none => logic.improper
  | comparison _ _ _ => logic.improper
  | nullCheck (.text field) false => logic.test .isNull .null (row.get field)
  | nullCheck (.text field) true => logic.neg (logic.test .isNull .null (row.get field))
  | nullCheck _ _ => logic.improper
  | negation operand => logic.neg (operand.read logic row)
  | chain [] _ => logic.improper
  | chain (first :: rest) connectives =>
    logic.chain (first.read logic row) (readRest logic row rest connectives)

/-- The later terms of a chain with the connectives before them. -/
def readRest {τ : Type} (logic : Logic τ) (row : Row) :
    List FilterTerm → List String → List (Bool × τ)
  | term :: terms, connective :: connectives =>
    (decide (Text.upper connective = "OR"), term.read logic row) ::
      readRest logic row terms connectives
  | _, _ => []

end

def holds (row : Row) (term : FilterTerm) : Outcome Bool := term.read .plain row

def truth (row : Row) (term : FilterTerm) : Option Bool := term.read .stored row

end FilterTerm

namespace Filter

/-- Conjunctions and disjunctions join two filters or more, negations negate one, and there is nothing
else but tests. -/
inductive IsNormal : Filter → Prop where
  | test (field : String) (operator : Operator) (literal : Value) :
    IsNormal (.test field operator literal)
  | negation {operand : Filter} (normal : IsNormal operand) : IsNormal (.combine .not [operand])
  | joined {connective : Connective} (joins : connective = .and ∨ connective = .or)
    {operands : List Filter} (several : 2 ≤ operands.length)
    (normal : ∀ operand ∈ operands, IsNormal operand) : IsNormal (.combine connective operands)

end Filter

/-! ### Filters are evaluated in two logics -/

namespace Filter

variable (row : Row)

private theorem eachHolds_bind_foldl (combine : Bool → Bool → Bool) (operands : List Filter)
    (sofar : Outcome Bool) :
    (do let first ← sofar
        let truths ← eachHolds row operands
        return truths.foldl combine first) =
      (operands.map (holds row)).foldl (fun a b => do return combine (← a) (← b)) sofar := by
  induction operands generalizing sofar with
  | nil => simp only [eachHolds, ok_bind, foldl_nil, map_nil, bind_pure]
  | cons operand rest ih =>
    rw [map_cons, foldl_cons, ← ih]
    simp only [eachHolds, bind_assoc, pure_bind, foldl_cons]

theorem plain_evaluates : Logic.plain.Evaluates row (holds row) where
  test field operator literal := by rfl
  not operand := by simp only [holds, firstHolds, bind_assoc, pure_bind]; rfl
  and first rest := by
    have all (truth : Bool) (truths : List Bool) :
        (truth :: truths).all id = truths.foldl (· && ·) truth := by
      induction truths generalizing truth with
      | nil => simp
      | cons next truths ih => simpa [Bool.and_assoc] using ih (truth && next)
    refine Eq.trans ?_ (eachHolds_bind_foldl row (· && ·) rest (holds row first))
    simp only [holds, eachHolds, bind_assoc, pure_bind, all]
  or first rest := by
    have any (truth : Bool) (truths : List Bool) :
        (truth :: truths).any id = truths.foldl (· || ·) truth := by
      induction truths generalizing truth with
      | nil => simp
      | cons next truths ih => simpa [Bool.or_assoc] using ih (truth || next)
    refine Eq.trans ?_ (eachHolds_bind_foldl row (· || ·) rest (holds row first))
    simp only [holds, eachHolds, bind_assoc, pure_bind, any]

theorem stored_evaluates : Logic.stored.Evaluates row (truth row) where
  test field operator literal := by rfl
  not operand := by rfl
  and first rest := by
    have folded (sofar : Option Bool) :
        allTruth row sofar rest = (rest.map (truth row)).foldl andTruth sofar := by
      induction rest generalizing sofar with
      | nil => rfl
      | cons operand rest ih => rw [allTruth, ih]; rfl
    rw [truth, folded]
    rfl
  or first rest := by
    have folded (sofar : Option Bool) :
        anyTruth row sofar rest = (rest.map (truth row)).foldl orTruth sofar := by
      induction rest generalizing sofar with
      | nil => rfl
      | cons operand rest ih => rw [anyTruth, ih]; rfl
    rw [truth, folded]
    · rfl
    · simp
    · simp

end Filter

/-! ### What a clause compiles to -/

variable {schema : Schema} {name : Value} {field : String}

theorem Schema.field?_eq_some (found : schema.field? name = .ok (some field)) :
    name = .text field := by
  obtain ⟨key, keyed, named⟩ := bind_eq_ok.mp found
  have same : name = key := by
    unfold Value.asKey at keyed
    split at keyed
    · cases keyed
      rfl
    · cases keyed
  split at named
  · split at named <;> cases named
    exact same
  · cases named

theorem Schema.hasField_of_field? (named : schema.field? name = .ok (some field)) :
    schema.hasField field := by
  obtain ⟨key, _, named⟩ := bind_eq_ok.mp named
  split at named
  · split at named
    next known =>
      cases named
      exact known
    · cases named
  · cases named

namespace FilterTerm

variable {schema : Schema}

private theorem checkField_eq_ok {name : Value} {field : String}
    (known : checkField schema name = .ok field) : name = .text field ∧ schema.hasField field := by
  obtain ⟨found, looked, returned⟩ := bind_eq_ok.mp known
  cases found with
  | none => cases returned
  | some other =>
    cases returned
    exact ⟨Schema.field?_eq_some looked, Schema.hasField_of_field? looked⟩

theorem comparisonOf_strip (symbol : String) : comparisonOf (Text.strip symbol) =
    if (readOperator symbol).isComparison then some (readOperator symbol) else none := by
  unfold readOperator Operator.ofSymbol comparisonOf
  split <;> simp_all [Operator.isComparison]
  grind

private theorem opensRun_eq_ok {connective : String} {opens : Bool}
    (known : opensRun connective = .ok opens) : opens = decide (Text.upper connective = "OR") := by
  unfold opensRun at known
  grind

/-- The later terms of a chain, each with what it compiles to and the mark of its connective. -/
inductive Joined (P : FilterTerm → Filter → Prop) :
    List FilterTerm → List String → List (Bool × Filter) → Prop where
  | nil : Joined P [] [] []
  | cons {term : FilterTerm} {filter : Filter} {terms : List FilterTerm} {connectives : List String}
    {filters : List (Bool × Filter)} (connective : String) (compiled : P term filter)
    (rest : Joined P terms connectives filters) :
    Joined P (term :: terms) (connective :: connectives)
      ((decide (Text.upper connective = "OR"), filter) :: filters)

/-- Filters that clauses compile to are built from tests by negation and by joining chains. -/
structure Builds (schema : Schema) (P : FilterTerm → Filter → Prop) : Prop where
  comparison : ∀ field symbol literal operator, schema.hasField field = true →
    comparisonOf (Text.strip symbol) = some operator →
      P (.comparison (.text field) (.text symbol) literal) (.test field operator literal)
  nullCheck : ∀ field negated, schema.hasField field = true → P (.nullCheck (.text field) negated)
    (.test field (if negated then .isNotNull else .isNull) .null)
  negation : ∀ term filter, P term filter → P (.negation term) (.combine .not [filter])
  chain : ∀ first rest connectives filter filters, P first filter → Joined P rest connectives filters →
    P (.chain (first :: rest) connectives) (joinRuns (splitRuns filter filters))

variable {P : FilterTerm → Filter → Prop}

mutual

theorem Builds.compile (builds : Builds schema P) : ∀ {term : FilterTerm} {filter : Filter},
    term.compile schema = .ok filter → P term filter
  | .comparison name symbol literal, filter, compiled => by
    rw [FilterTerm.compile, compileComparison] at compiled
    obtain ⟨field, known, written⟩ := bind_eq_ok.mp compiled
    obtain ⟨text, symbolic, checked⟩ := bind_eq_ok.mp written
    obtain ⟨rfl⟩ : symbol = .text text := by cases symbol <;> cases symbolic; rfl
    dsimp only at checked
    split at checked
    next => cases checked
    next compares =>
      -- Three checks of the literal are left; whatever fails one of them does not compile.
      iterate 3
        split at checked
        next => cases checked
      cases checked
      obtain ⟨rfl, there⟩ := checkField_eq_ok known
      refine builds.comparison field text literal _ there ?_
      rw [comparisonOf_strip, if_pos (by simpa using compares)]
  | .nullCheck name negated, filter, compiled => by
    rw [FilterTerm.compile, compileNullCheck] at compiled
    obtain ⟨field, known, returned⟩ := bind_eq_ok.mp compiled
    cases returned
    obtain ⟨rfl, there⟩ := checkField_eq_ok known
    exact builds.nullCheck field negated there
  | .negation operand, filter, compiled => by
    rw [FilterTerm.compile] at compiled
    obtain ⟨operand', own, compiled⟩ := bind_eq_ok.mp compiled
    cases compiled
    exact builds.negation operand operand' (builds.compile own)
  | .chain [] connectives, filter, compiled => by
    rw [FilterTerm.compile] at compiled
    cases compiled
  | .chain (first :: rest) connectives, filter, compiled => by
    rw [FilterTerm.compile] at compiled
    split at compiled
    next => cases compiled
    next alternate =>
      obtain ⟨first', own, compiled⟩ := bind_eq_ok.mp compiled
      obtain ⟨rest', others, compiled⟩ := bind_eq_ok.mp compiled
      cases compiled
      exact builds.chain first rest connectives first' rest' (builds.compile own)
        (builds.compileRest (by simpa using alternate) others)

theorem Builds.compileRest (builds : Builds schema P) : ∀ {terms : List FilterTerm}
    {connectives : List String} {filters : List (Bool × Filter)},
    connectives.length = terms.length → compileRest schema terms connectives = .ok filters →
      Joined P terms connectives filters
  | [], [], filters, _, compiled => by
    rw [FilterTerm.compileRest] at compiled
    · cases compiled
      exact .nil
    · simp
  | term :: terms, connective :: connectives, filters, alternate, compiled => by
    rw [FilterTerm.compileRest] at compiled
    obtain ⟨opens, known, compiled⟩ := bind_eq_ok.mp compiled
    obtain ⟨filter, own, compiled⟩ := bind_eq_ok.mp compiled
    obtain ⟨rest, others, compiled⟩ := bind_eq_ok.mp compiled
    cases compiled
    rw [opensRun_eq_ok known]
    exact .cons connective (builds.compile own) (builds.compileRest (Nat.succ.inj alternate) others)

end

/-! ### Chains mean what precedence says -/

section Chains

variable {τ : Type} {logic : Logic τ} {row : Row} {value : Filter → τ}

theorem exists_splitRuns (first : Filter) (filters : List (Bool × Filter)) :
    ∃ run runs, splitRuns first filters = (first :: run) :: runs := by
  cases filters with
  | nil => exact ⟨[], [], rfl⟩
  | cons marked rest =>
    obtain ⟨opens, next⟩ := marked
    cases opens with
    | true => exact ⟨[], _, rfl⟩
    | false =>
      obtain ⟨run, runs, split⟩ := exists_splitRuns next rest
      exact ⟨next :: run, runs, by rw [splitRuns, split]⟩

theorem value_joinOperands {connective : Connective} {join : τ → τ → τ}
    (joins : ∀ first rest,
      value (.combine connective (first :: rest)) = (rest.map value).foldl join (value first))
    (first : Filter) (rest : List Filter) :
    value (joinOperands connective (first :: rest)) = (rest.map value).foldl join (value first) := by
  cases rest with
  | nil => rfl
  | cons next rest => exact joins first (next :: rest)

private theorem foldl_disj (logic : Logic τ) (first next : τ) (rest : List τ) :
    rest.foldl logic.disj (logic.disj first next) = logic.disj first (rest.foldl logic.disj next) :=
  have : Std.Associative logic.disj := ⟨logic.disj_assoc⟩
  foldl_assoc

variable {filters : List (Bool × Filter)}

/-- Splitting into runs follows precedence. The first run is entered with any value, since the
filters before it may have been joined already. -/
theorem chain_eq_of_splitRuns (evaluates : logic.Evaluates row value) {first : Filter}
    {run : List Filter} {runs : List (List Filter)}
    (split : splitRuns first filters = (first :: run) :: runs) (entered : τ) :
    logic.chain entered (filters.map (Prod.map id value)) =
      (runs.map fun run => value (joinOperands .and run)).foldl logic.disj
        ((run.map value).foldl logic.conj entered) := by
  induction filters generalizing first run runs entered with
  | nil =>
    cases split
    rfl
  | cons marked rest ih =>
    obtain ⟨opens, next⟩ := marked
    obtain ⟨run', runs', later⟩ := exists_splitRuns next rest
    cases opens with
    -- A run opens: all that was entered so far is one operand of the disjunction.
    | true =>
      rw [splitRuns, later] at split
      cases split
      simp only [map_cons, map_nil, foldl_cons, foldl_nil, foldl_disj,
        value_joinOperands evaluates.and, ← ih later]
      rfl
    -- The run goes on, and the next filter is joined to what was entered.
    | false =>
      rw [splitRuns, later] at split
      cases split
      exact ih later (logic.conj entered (value next))

private theorem value_joinRuns (evaluates : logic.Evaluates row value) (first : Filter)
    (filters : List (Bool × Filter)) : value (joinRuns (splitRuns first filters)) =
      logic.chain (value first) (filters.map (Prod.map id value)) := by
  obtain ⟨run, runs, split⟩ := exists_splitRuns first filters
  rw [split, joinRuns, map_cons, value_joinOperands evaluates.or,
    value_joinOperands evaluates.and, map_map, chain_eq_of_splitRuns evaluates split]
  rfl

private theorem Joined.readRest_eq {terms : List FilterTerm} {connectives : List String}
    (joined : Joined (fun term filter => value filter = term.read logic row) terms connectives filters) :
    filters.map (Prod.map id value) = readRest logic row terms connectives := by
  induction joined with
  | nil =>
    rw [readRest]
    · rfl
    · simp
  | cons connective own _ ih => rw [map_cons, ih, Prod.map, own]; rfl

/-- A filter has the truth value of the clause that it was compiled from. -/
theorem builds_read (evaluates : logic.Evaluates row value) :
    Builds schema fun term filter => value filter = term.read logic row where
  comparison field symbol literal operator _ compares := by
    rw [evaluates.test, read, compares]
  nullCheck field negated _ := by
    rw [evaluates.test]
    cases negated with
    | false => rfl
    | true => rw [read, ← logic.test_isNotNull]; rfl
  negation term filter own := by rw [evaluates.not, read, own]
  chain first rest connectives filter filters own joined := by
    rw [value_joinRuns evaluates, read, own, joined.readRest_eq]

end Chains

/-! ### Normal forms -/

variable {Q : Filter → Prop} {first : Filter} {filters : List (Bool × Filter)}

private theorem forall_splitRuns (own : Q first) (others : ∀ marked ∈ filters, Q marked.2) :
    ∀ run ∈ splitRuns first filters, run ≠ [] ∧ ∀ filter ∈ run, Q filter := by
  induction filters generalizing first with
  | nil => simpa [splitRuns] using own
  | cons marked rest ih =>
    obtain ⟨opens, next⟩ := marked
    obtain ⟨following, others⟩ := forall_mem_cons.mp others
    have later := ih following others
    cases opens with
    | true =>
      rw [splitRuns, forall_mem_cons]
      exact ⟨by simpa using own, later⟩
    | false =>
      obtain ⟨run, runs, split⟩ := exists_splitRuns next rest
      rw [split, forall_mem_cons] at later
      rw [splitRuns, split, forall_mem_cons, forall_mem_cons]
      exact ⟨⟨cons_ne_nil _ _, own, later.1.2⟩, later.2⟩

/-- What joining keeps holds of a chain if it holds of the filters in it. -/
theorem forall_joinRuns
    (joined : ∀ connective operands, connective = .and ∨ connective = .or → 2 ≤ operands.length →
      (∀ operand ∈ operands, Q operand) → Q (.combine connective operands)) (own : Q first)
    (others : ∀ marked ∈ filters, Q marked.2) : Q (joinRuns (splitRuns first filters)) := by
  have operands (connective : Connective) (joins : connective = .and ∨ connective = .or)
      (operands : List Filter) (some : operands ≠ []) (each : ∀ operand ∈ operands, Q operand) :
      Q (joinOperands connective operands) := by
    match operands with
    | [] => exact absurd rfl some
    | [single] => exact each single mem_cons_self
    | first :: next :: rest => exact joined connective _ joins (by simp) each
  have runs := forall_splitRuns own others
  obtain ⟨run, rest, split⟩ := exists_splitRuns first filters
  refine operands .or (.inr rfl) _ (by simp [split]) fun operand chained => ?_
  obtain ⟨run, listed, rfl⟩ := mem_map.mp chained
  exact operands .and (.inl rfl) run (runs run listed).1 (runs run listed).2

theorem Joined.forall_right {terms : List FilterTerm} {connectives : List String}
    (joined : Joined (fun _ filter => Q filter) terms connectives filters) :
    ∀ marked ∈ filters, Q marked.2 := by
  induction joined with
  | nil => simp
  | cons _ own _ ih => exact forall_mem_cons.mpr ⟨own, ih⟩

private theorem builds_isNormal : Builds schema fun _ filter => filter.IsNormal where
  comparison field _ literal operator _ _ := .test field operator literal
  nullCheck field _ _ := .test field _ .null
  negation _ _ own := .negation own
  chain _ _ _ _ _ own joined :=
    forall_joinRuns (fun _ _ joins several normal => .joined joins several normal) own
      joined.forall_right

/-- A filter means what the clause that it was compiled from says, with conjunctions binding tighter than
disjunctions, on every row and in two truth values as well as in three; and it is in normal form. -/
theorem compile_keeps_meaning {term : FilterTerm} {filter : Filter}
    (compiled : term.compile schema = .ok filter) :
    (∀ row, filter.holds row = term.holds row) ∧ (∀ row, filter.truth row = term.truth row) ∧
      filter.IsNormal :=
  ⟨fun row => (builds_read (Filter.plain_evaluates row)).compile compiled,
    fun row => (builds_read (Filter.stored_evaluates row)).compile compiled,
    builds_isNormal.compile compiled⟩

/-- Someone in York whose pay is not known: whether they pass is answered in two truth values only. -/
theorem mixed_chain_keeps_meaning :
    let schema := Schema.ofNames ["town"] ["pay"]
    let term : FilterTerm := .chain
      [.negation (.comparison "town" "==" "York"),
        .comparison "pay" " >= " 3,
        .chain [.comparison "town" "<>" "Bath", .nullCheck "pay" true]
          ["or"]]
      ["Or", "AND"]
    let filter : Filter := .combine .or
      [.combine .not [.test "town" .equal "York"],
        .combine .and [.test "pay" .atLeast 3,
          .combine .or [.test "town" .notEqual "Bath", .test "pay" .isNotNull .null]]]
    let row : Row := [("town", "York"), ("pay", .null)]
    term.compile schema = .ok filter ∧
      ((∀ row, filter.holds row = term.holds row) ∧ (∀ row, filter.truth row = term.truth row) ∧
        filter.IsNormal) ∧
      term.holds row = .ok false ∧ term.truth row = none := by
  intro schema term filter row
  have compiled : term.compile schema = .ok filter := by rfl
  exact ⟨compiled, compile_keeps_meaning compiled, by rfl, by rfl⟩

end FilterTerm

end Crosstab
