import Crosstab.Proofs.Outcome
import Crosstab.Store.Condition

/-!
# Conjunctions of filters

A narrowed filter is passed by the rows that pass the filter and meet every condition. A conjunction
of nothing has no truth value among three.
-/
namespace Crosstab.Filter

open List Outcome Condition

variable {row : Row}

theorem keys_eq_map (operands : List Filter) : keys operands = operands.map key := by
  induction operands with
  | nil => rfl
  | cons operand rest ih => rw [keys, ih, map_cons]

theorem eachHolds_eq_mapM (operands : List Filter) :
    eachHolds row operands = operands.mapM (holds row) := by
  induction operands with
  | nil => rfl
  | cons operand rest ih =>
    rw [eachHolds, mapM_cons, ih]

variable {operands extra : List Filter} {base : Option Filter} {filter built : Filter}

theorem holds_and_iff :
    holds row (combine .and operands) = .ok true ↔
      ∀ operand ∈ operands, holds row operand = .ok true := by
  have evaluated : holds row (combine .and operands) =
      (operands.mapM (holds row) >>= fun truths => pure (truths.all id)) := by
    rw [holds, eachHolds_eq_mapM]
  rw [evaluated, bind_eq_ok]
  constructor
  · rintro ⟨truths, each, returned⟩ operand member
    obtain ⟨truth, listed, held⟩ := exists_of_mem_mapM each member
    have all := pure_eq_ok.mp returned
    rw [all_eq_true] at all
    have yes : truth := all truth listed
    rw [held, yes]
  · intro all
    refine ⟨operands.map fun _ => true, ?_, by simp⟩
    rw [mapM_eq_ok, forall₂_map_right_iff, forall₂_same]
    exact all

/-- A narrowed filter is passed where the filter is passed and all conditions hold. -/
theorem passes_conjoin_iff :
    passes (conjoin base extra) row = .ok true ↔
      passes base row = .ok true ∧ ∀ filter ∈ extra, holds row filter = .ok true := by
  have parts : (passes base row = .ok true ∧ ∀ filter ∈ extra, holds row filter = .ok true) ↔
      ∀ filter ∈ base.toList ++ extra, holds row filter = .ok true := by
    cases base with
    | none => simp [passes]
    | some filter => simp [passes]
  rw [parts]
  unfold conjoin
  split
  next none => simp [none, passes]
  next single only => simp [only, passes]
  next => exact holds_and_iff

theorem exists_passes_conjoin_iff :
    (∃ truth, passes (conjoin base extra) row = .ok truth) ↔
      (∃ truth, passes base row = .ok truth) ∧
        ∀ filter ∈ extra, ∃ truth, holds row filter = .ok truth := by
  have parts : ((∃ truth, passes base row = .ok truth) ∧
      ∀ filter ∈ extra, ∃ truth, holds row filter = .ok truth) ↔
        ∀ filter ∈ base.toList ++ extra, ∃ truth, holds row filter = .ok truth := by
    cases base with
    | none => simp [passes]
    | some filter => simp [passes]
  rw [parts]
  unfold conjoin
  split
  next none => simp [none, passes]
  next single only => simp [only, passes]
  next =>
    show (∃ truth, holds row (combine .and _) = .ok truth) ↔ _
    rw [holds, eachHolds_eq_mapM]
    constructor
    · rintro ⟨_, evaluated⟩ filter listed
      obtain ⟨truths, each, _⟩ := bind_eq_ok.mp evaluated
      obtain ⟨truth, _, own⟩ := exists_of_mem_mapM each listed
      exact ⟨truth, own⟩
    · intro each
      obtain ⟨truths, evaluated, _⟩ := exists_mapM_eq_ok fun filter listed =>
        (each filter listed).imp fun _ own => ⟨own, trivial⟩
      exact ⟨_, bind_eq_ok.mpr ⟨truths, evaluated, rfl⟩⟩

/-! ### Three truth values -/

private theorem andTruth_eq_true {a b : Option Bool} :
    andTruth a b = some true ↔ a = some true ∧ b = some true := by
  rcases a with _ | _ | _ <;> rcases b with _ | _ | _ <;> simp [andTruth]

private theorem allTruth_eq_true {sofar : Option Bool} :
    allTruth row sofar operands = some true ↔
      sofar = some true ∧ ∀ operand ∈ operands, truth row operand = some true := by
  induction operands generalizing sofar with
  | nil => simp [allTruth]
  | cons operand rest ih => rw [allTruth, ih, andTruth_eq_true, forall_mem_cons, and_assoc]

theorem truth_and_iff : truth row (combine .and operands) = some true ↔
    operands ≠ [] ∧ ∀ operand ∈ operands, truth row operand = some true := by
  cases operands with
  | nil => simp [truth]
  | cons first rest =>
    rw [truth, allTruth_eq_true]
    simp

/-- A narrowed filter is true where the filter and all conditions are; no filter counts as true. -/
theorem truth_conjoin_iff :
    (∀ filter ∈ conjoin base extra, truth row filter = some true) ↔
      (∀ filter ∈ base, truth row filter = some true) ∧
        ∀ filter ∈ extra, truth row filter = some true := by
  have parts : ((∀ filter ∈ base, truth row filter = some true) ∧
      ∀ filter ∈ extra, truth row filter = some true) ↔
        ∀ filter ∈ base.toList ++ extra, truth row filter = some true := by
    rw [forall_mem_append]
    simp
  rw [parts]
  unfold conjoin
  split
  next none => simp [none]
  next single only => simp [only]
  next inhabited _ =>
    simp only [Option.mem_def, Option.some.injEq, forall_eq', truth_and_iff]
    exact and_iff_right inhabited

/-! ### Conjuncts -/

mutual

/-- Of the conjunctions that are looked through for conjuncts none is empty. -/
def isJoined : Filter → Bool
  | combine .and operands => !operands.isEmpty && areJoined operands
  | _ => true

def areJoined : List Filter → Bool
  | [] => true
  | operand :: rest => isJoined operand && areJoined rest

end

section

variable {T : Filter → Prop} {E : Prop}

mutual

/-- What holds of a conjunction where it holds of the operands holds of a filter where it holds of the
conjuncts. Conjunctions of nothing are an exception, if it does not hold of them. -/
theorem iff_forall_conjuncts
    (joint : ∀ operands, T (combine .and operands) ↔
      (operands ≠ [] ∨ E) ∧ ∀ operand ∈ operands, T operand) : ∀ filter : Filter,
    T filter ↔ (filter.isJoined ∨ E) ∧ ∀ conjunct ∈ filter.conjuncts, T conjunct
  | .combine .and operands => by
    have each := forall_iff_forall_conjuncts joint operands
    rw [joint, isJoined, conjuncts, each, Bool.and_eq_true, Bool.not_eq_true', isEmpty_eq_false_iff]
    tauto
  | .combine .or operands => by simp [isJoined, conjuncts]
  | .combine .not operands => by simp [isJoined, conjuncts]
  | .combine (.other name) operands => by simp [isJoined, conjuncts]
  | .test field operator value => by simp [isJoined, conjuncts]
  | .member field values => by simp [isJoined, conjuncts]

theorem forall_iff_forall_conjuncts
    (joint : ∀ operands, T (combine .and operands) ↔
      (operands ≠ [] ∨ E) ∧ ∀ operand ∈ operands, T operand) : ∀ operands : List Filter,
    (∀ operand ∈ operands, T operand) ↔
      (areJoined operands ∨ E) ∧ ∀ conjunct ∈ conjunctsOf operands, T conjunct
  | [] => by simp [areJoined, conjunctsOf]
  | operand :: rest => by
    have first := iff_forall_conjuncts joint operand
    have later := forall_iff_forall_conjuncts joint rest
    rw [forall_mem_cons, first, later, areJoined, conjunctsOf, forall_mem_append, Bool.and_eq_true]
    tauto

end

end

theorem passes_iff_conjuncts {filter : Option Filter} : passes filter row = .ok true ↔
    ∀ conjunct ∈ allConjuncts filter, holds row conjunct = .ok true := by
  cases filter with
  | none => simp [passes, allConjuncts]
  | some filter =>
    -- In two truth values a conjunction of nothing holds.
    have joint := iff_forall_conjuncts (T := fun filter => holds row filter = .ok true) (E := True)
      (fun operands => by simp [holds_and_iff]) filter
    simpa [passes, allConjuncts] using joint

theorem truth_iff_conjuncts : truth row filter = some true ↔
    filter.isJoined ∧ ∀ conjunct ∈ filter.conjuncts, truth row conjunct = some true := by
  have joint := iff_forall_conjuncts (T := fun filter => truth row filter = some true) (E := False)
    (fun operands => by simp [truth_and_iff]) filter
  simpa using joint

/-! ### Conditions on columns -/

variable {columns : Condition.Columns}

theorem buildAll_eq_mapM (operands : List Filter) :
    buildAll columns operands = operands.mapM (build columns) := by
  induction operands with
  | nil => rfl
  | cons operand rest ih => rw [buildAll, mapM_cons, ih]

mutual

theorem isJoined_of_build : ∀ {filter built : Filter},
    build columns filter = .ok built → filter.isJoined
  | .test .., _, _ => by simp [isJoined]
  | .member .., _, _ => by simp [isJoined]
  | .combine .or _, _, _ => by simp [isJoined]
  | .combine .not _, _, _ => by simp [isJoined]
  | .combine (.other _) _, _, _ => by simp [isJoined]
  | .combine .and operands, built, returned => by
    rw [build] at returned
    obtain ⟨parts, each, returned⟩ := bind_eq_ok.mp returned
    rw [isJoined, areJoined_of_buildAll each, Bool.and_true, Bool.not_eq_true',
      isEmpty_eq_false_iff]
    rintro rfl
    cases each
    cases returned

theorem areJoined_of_buildAll : ∀ {operands parts : List Filter},
    buildAll columns operands = .ok parts → areJoined operands
  | [], _, _ => by simp [areJoined]
  | operand :: rest, _, each => by
    obtain ⟨first, built, each⟩ := bind_eq_ok.mp each
    obtain ⟨others, later, _⟩ := bind_eq_ok.mp each
    rw [areJoined, isJoined_of_build built, areJoined_of_buildAll later]
    rfl

end

/-- A filter becomes a condition that is true on a row. -/
def IsMet (columns : Condition.Columns) (row : Row) (filter : Filter) : Prop :=
  ∃ built, build columns filter = .ok built ∧ built.truth row = some true

private theorem build_and_eq_ok :
    build columns (combine .and operands) = .ok built ↔
      ∃ parts, parts ≠ [] ∧ operands.mapM (build columns) = .ok parts ∧
        built = combine .and parts := by
  rw [build, bind_eq_ok]
  simp only [buildAll_eq_mapM]
  constructor
  · rintro ⟨parts, each, returned⟩
    cases parts with
    | nil => cases returned
    | cons first rest =>
      cases returned
      exact ⟨first :: rest, by simp, each, rfl⟩
  · rintro ⟨parts, inhabited, each, rfl⟩
    obtain ⟨first, rest, rfl⟩ := exists_cons_of_ne_nil inhabited
    exact ⟨first :: rest, each, rfl⟩

private theorem isMet_and_iff : IsMet columns row (combine .and operands) ↔
    operands ≠ [] ∧ ∀ operand ∈ operands, IsMet columns row operand := by
  unfold IsMet
  simp only [build_and_eq_ok]
  constructor
  · rintro ⟨_, ⟨parts, inhabited, each, rfl⟩, held⟩
    obtain ⟨_, held⟩ := truth_and_iff.mp held
    refine ⟨?_, fun operand member => ?_⟩
    · rintro rfl
      cases each
      exact inhabited rfl
    · obtain ⟨part, listed, built⟩ := exists_of_mem_mapM each member
      exact ⟨part, built, held part listed⟩
  · rintro ⟨inhabited, met⟩
    obtain ⟨parts, each, held⟩ := exists_mapM_eq_ok met
    have some : parts ≠ [] := by
      rintro rfl
      cases held
      exact inhabited rfl
    refine ⟨_, ⟨parts, some, each, rfl⟩, truth_and_iff.mpr ⟨some, fun part listed => ?_⟩⟩
    obtain ⟨_, _, true⟩ := exists_left_of_forall₂ held listed
    exact true

theorem truth_built_iff (returned : build columns filter = .ok built) :
    built.truth row = some true ↔ ∀ conjunct ∈ filter.conjuncts, IsMet columns row conjunct := by
  have joint := iff_forall_conjuncts (T := IsMet columns row) (E := False)
    (fun operands => by simp [isMet_and_iff]) filter
  have own : IsMet columns row filter ↔ built.truth row = some true := by
    simp [IsMet, returned]
  rw [← own, joint]
  simp [isJoined_of_build returned]

end Crosstab.Filter
