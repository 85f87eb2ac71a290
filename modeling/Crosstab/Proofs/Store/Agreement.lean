import Crosstab.Proofs.Filter.Meaning
import Crosstab.Proofs.Store.Comparison
import Crosstab.Proofs.Value.Key
import Crosstab.Source
import Crosstab.Store.Table

/-!
# Agreement of the two readings of a filter

Where a filter has a known truth value over the columns of a table, that is its value in memory. So
the table keeps no row that is not kept in memory.
-/
namespace Crosstab

open List Outcome Condition Value ColumnType

/-- The values of a row are null or values of their columns. -/
def Row.isTyped (columns : Condition.Columns) (row : Row) : Bool :=
  columns.all fun column => (row.get column.1).isNull || column.2.admits (row.get column.1)

private theorem Row.admits_of_isTyped {columns : Condition.Columns} {row : Row} {field : String}
    {type : ColumnType} (typed : row.isTyped columns) (known : columns.lookup field = some type)
    (present : (row.get field).isNull = false) : type.admits (row.get field) := by
  obtain ⟨before, after, rfl, _⟩ := lookup_eq_some_iff.mp known
  have own := all_eq_true.mp typed (field, type) (by simp)
  simpa [present] using own

theorem Operator.isNullTest_of_isComparison {operator : Operator}
    (compares : operator.isComparison) : operator.isNullTest = false := by
  cases operator <;> first | rfl | cases compares

namespace Filter

/-! ### Filters that fit columns -/

/-- The columns exist and take the literals, negations have one operand, and conjunctions and
disjunctions at least one. -/
inductive Fits (columns : Condition.Columns) : Filter → Prop where
  | nullTest {field : String} {operator : Operator} {literal : Value} {type : ColumnType}
    (known : columns.lookup field = some type) (asks : operator.isNullTest = true) :
    Fits columns (.test field operator literal)
  | comparison {field : String} {operator : Operator} {literal : Value} {type : ColumnType}
    (known : columns.lookup field = some type) (compares : operator.isComparison = true)
    (admitted : type.admits literal = true) (comparable : type.comparesWith literal = true)
    (near : literal.exceedsWord = false) : Fits columns (.test field operator literal)
  | member {field : String} {values : List Value} {type : ColumnType}
    (known : columns.lookup field = some type)
    (admitted : ∀ v ∈ values, v.isNull = true ∨ type.admits v = true)
    (near : ∀ v ∈ values, v.exceedsWord = false) : Fits columns (.member field values)
  | negation {operand : Filter} (fits : Fits columns operand) :
    Fits columns (.combine .not [operand])
  | joined {connective : Connective} (joins : connective = .and ∨ connective = .or)
    {operands : List Filter} (some : operands ≠ [])
    (fits : ∀ operand ∈ operands, Fits columns operand) : Fits columns (.combine connective operands)

mutual

/-- The values that the tests of a filter bring together on a row. -/
def meetings (row : Row) : Filter → List (List Value)
  | test field operator literal => if operator.isNullTest then [] else [[row.get field, literal]]
  | member field values => [row.get field :: values]
  | combine _ operands => meetingsOf row operands

def meetingsOf (row : Row) : List Filter → List (List Value)
  | [] => []
  | operand :: rest => meetings row operand ++ meetingsOf row rest

end

/-- No test of a filter rounds a value of a row. -/
def exactOn (row : Row) (filter : Filter) : Bool := (filter.meetings row).all meetExactly

mutual

/-- Somewhere a filter has a negation. -/
def negates : Filter → Bool
  | test .. => false
  | member .. => false
  | combine connective operands => connective == .not || anyNegates operands

def anyNegates : List Filter → Bool
  | [] => false
  | operand :: rest => negates operand || anyNegates rest

end

variable {row : Row} {columns : Condition.Columns} {filter : Filter} {operands : List Filter}

private theorem exactOn_combine {connective : Connective} :
    exactOn row (.combine connective operands) = operands.all (exactOn row) := by
  unfold exactOn
  rw [meetings]
  induction operands with
  | nil => rfl
  | cons operand rest ih => rw [meetingsOf, all_append, ih, all_cons]

private theorem negates_combine {connective : Connective} :
    negates (.combine connective operands) = (connective == .not || operands.any negates) := by
  rw [negates]
  congr 1
  induction operands with
  | nil => rfl
  | cons operand rest ih => rw [anyNegates, ih, any_cons]

/-! ### Fitting filters are conditions -/

theorem Fits.build (fits : filter.Fits columns) : Condition.build columns filter = .ok filter := by
  induction fits with
  | @nullTest field operator literal type known asks =>
    rw [Condition.build, buildTest, columnType, known]
    cases operator <;> first | rfl | cases asks
  | @comparison field operator literal type known compares admitted comparable near =>
    have present := isNull_of_admits admitted
    rw [Condition.build, buildTest, columnType, known, ok_bind, near, comparable]
    cases literal with
    | null => cases present
    | _ => cases operator <;> first | rfl | cases compares
  | @member field values type known _ near =>
    have stored : values.any exceedsWord = false := by simpa using near
    rw [Condition.build, columnType, known, stored]
    rfl
  | negation _ ih =>
    rw [Condition.build, buildAll_eq_mapM, mapM_eq_self (by simpa using ih)]
    rfl
  | @joined connective joins operands some _ ih =>
    rw [Condition.build, buildAll_eq_mapM, mapM_eq_self ih]
    cases operands with
    | nil => exact absurd rfl some
    | cons first rest => rcases joins with rfl | rfl <;> rfl

private theorem convertAll_eq_mapM (rows : List Row) (operands : List Filter) :
    convertAll columns rows operands = operands.mapM (convert columns rows) := by
  induction operands with
  | nil => rfl
  | cons operand rest ih => rw [convertAll, mapM_cons, ih]

/-- The members stay as they are: all that a column admits is in its domain already, and texts are read
only where a column of texts meets something else. -/
theorem convertMembers_eq_ok {rows : List Row} {field : String} {values : List Value} {type : ColumnType}
    (known : columns.lookup field = some type) (admitted : ∀ v ∈ values, v.isNull ∨ type.admits v) :
    convertMembers columns rows field values = .ok (.member field values) := by
  have listed : ∀ v ∈ values.filter (fun v => !v.isNull), type.admits v = true := by
    intro v member
    obtain ⟨member, present⟩ := mem_filter.mp member
    exact (admitted v member).resolve_left (by simpa using present)
  obtain ⟨domain, joined, suits⟩ := type.exists_ofMembers listed
  have converted : values.mapM domain.convert = .ok values := by
    refine mapM_eq_self fun v member => ?_
    rcases admitted v member with null | admitted
    · rw [isNull_iff.mp null]
      rfl
    · exact suits.convert admitted
  have unread : ¬(type = .string ∧ domain ≠ .text) := by
    rintro ⟨textual, other⟩
    exact other (suits.text textual)
  rw [convertMembers, columnType, known]
  simp only [ok_bind, joined, converted, if_neg unread]
  rfl

theorem Fits.convert (fits : filter.Fits columns) (rows : List Row) :
    Condition.convert columns rows filter = .ok filter := by
  induction fits with
  | nullTest known asks =>
    rw [Condition.convert, convertTest, if_pos asks]
    rfl
  | @comparison field operator literal type known compares admitted _ _ =>
    have asksNot : ¬operator.isNullTest := by
      simp [Operator.isNullTest_of_isComparison compares]
    rw [Condition.convert, convertTest, if_neg asksNot, columnType, known,
      ok_bind, Domain.Suits.convert (.inl rfl) admitted]
    rfl
  | member known admitted _ =>
    rw [Condition.convert, convertMembers_eq_ok known admitted]
  | negation _ ih =>
    rw [Condition.convert, convertAll_eq_mapM, mapM_eq_self (by simpa using ih)]
    rfl
  | joined joins some _ ih =>
    rw [Condition.convert, convertAll_eq_mapM, mapM_eq_self ih]
    rfl

/-! ### Relations between truth values -/

/-- A relation between plain and stored truth values that tests and connectives respect, apart from
negation. -/
structure Preserved (R : Bool → Option Bool → Prop) : Prop where
  known : ∀ b, R b (some b)
  unknown : R false none
  conj : ∀ a x b y, R a x → R b y → R (a && b) (andTruth x y)
  disj : ∀ a x b y, R a x → R b y → R (a || b) (orTruth x y)

/-- A stored truth value that is known is the plain one. -/
def Agrees (plain : Bool) (stored : Option Bool) : Prop := ∀ truth, stored = some truth → truth = plain

/-- Both truth values are true, or none is. -/
def BothTrue (plain : Bool) (stored : Option Bool) : Prop := stored = some true ↔ plain = true

private theorem preserved_agrees : Preserved Agrees where
  known := by unfold Agrees; decide
  unknown := by unfold Agrees; decide
  conj := by unfold Agrees; decide
  disj := by unfold Agrees; decide

private theorem preserved_bothTrue : Preserved BothTrue where
  known := by unfold BothTrue; decide
  unknown := by unfold BothTrue; decide
  conj := by unfold BothTrue; decide
  disj := by unfold BothTrue; decide

private theorem agrees_not : ∀ a x, Agrees a x → Agrees (!a) (notTruth x) := by
  unfold Agrees
  decide

/-! ### Tests -/

section Tests

variable {R : Bool → Option Bool → Prop} {operator : Operator} {literal value : Value}
  {values : List Value}

/-- A comparison with null is false in memory and unknown in a database; else both compare. -/
theorem Preserved.comparison (preserved : Preserved R) (compares : operator.isComparison)
    (given : literal.isNull = false)
    (same : value.isNull = false → operator.holds value literal = .ok (operator.compares value literal)) :
    ∃ plain, testHolds operator literal value = .ok plain ∧
      R plain (testTruth operator literal value) := by
  have plain : testHolds operator literal value =
      if value.isNull then .ok false else operator.holds value literal := by
    cases operator <;> first | rfl | cases compares
  have stored : testTruth operator literal value =
      if value.isNull || literal.isNull then none else some (operator.compares value literal) := by
    cases operator <;> first | rfl | cases compares
  rw [plain, stored, given]
  cases null : value.isNull with
  | true => exact ⟨false, rfl, preserved.unknown⟩
  | false => exact ⟨_, same null, preserved.known _⟩

private theorem memberTruth_of_present (present : value.isNull = false) : memberTruth values value =
    some ((values.filter fun v => !v.isNull).any fun v => v.sameStored value) := by
  have whole : ∀ b, orTruth (some b) (some false) = some b := by decide
  unfold memberTruth
  cases rest : values.filter fun v => !v.isNull with
  | nil => simp [present, whole]
  | cons first others => simp [present, whole]

private theorem memberTruth_null_of_listed (listed : values.any isNull) :
    memberTruth values .null = some true := by
  have known : ∀ x, orTruth x (some true) = some true := by decide
  have shorter : (values.filter fun v => !v.isNull).length ≠ values.length := by
    rw [Ne, length_filter_eq_length_iff]
    intro present
    obtain ⟨v, member, null⟩ := any_eq_true.mp listed
    simpa [null] using present v member
  unfold memberTruth
  simp only [if_neg shorter]
  exact known _

private theorem memberTruth_null_of_unlisted (unlisted : values.any isNull = false) :
    memberTruth values .null = if values.isEmpty then some false else none := by
  have all : values.filter (fun v => !v.isNull) = values := by
    simpa using unlisted
  unfold memberTruth
  simp only [all, ↓reduceIte]
  rfl

/-- Membership by keys goes with membership in a database: null is a member only where it is listed, and
else unknown to be one. -/
theorem Preserved.member (preserved : Preserved R)
    (same : value.isNull = false →
      ∀ v ∈ values, v.isNull = false → v.sameKey value = v.sameStored value) :
    R (values.any fun v => v.sameKey value) (memberTruth values value) := by
  by_cases null : value.isNull
  · obtain rfl := isNull_iff.mp null
    simp only [sameKey_null]
    cases listed : values.any isNull with
    | true =>
      rw [memberTruth_null_of_listed listed]
      exact preserved.known true
    | false =>
      rw [memberTruth_null_of_unlisted listed]
      split
      · exact preserved.known false
      · exact preserved.unknown
  · have present : value.isNull = false := by simpa using null
    have among : (values.any fun v => v.sameKey value) =
        (values.filter fun v => !v.isNull).any fun v => v.sameStored value := by
      rw [any_filter, Bool.eq_iff_iff, any_eq_true, any_eq_true]
      refine exists_congr fun v => and_congr_right fun member => ?_
      cases absent : v.isNull with
      | true =>
        obtain rfl := isNull_iff.mp absent
        simp [sameKey_null, present]
      | false => simp [same present v member absent]
    rw [memberTruth_of_present present, among]
    exact preserved.known _

end Tests

/-! ### Trees -/

section Trees

variable {R : Bool → Option Bool → Prop}

/-- Both readings of a filter exist and are related. -/
def Reads (R : Bool → Option Bool → Prop) (row : Row) (filter : Filter) : Prop :=
  ∃ plain, filter.holds row = .ok plain ∧ R plain (filter.truth row)

private theorem exists_foldl {plain : Bool → Bool → Bool}
    {stored : Option Bool → Option Bool → Option Bool}
    (step : ∀ a x b y, R a x → R b y → R (plain a b) (stored x y))
    (each : ∀ operand ∈ operands, operand.Reads R row) {first : Bool} {sofar : Option Bool}
    (start : R first sofar) :
    ∃ b, (operands.map (holds row)).foldl (fun a b => do return plain (← a) (← b)) (.ok first) = .ok b ∧
      R b ((operands.map (truth row)).foldl stored sofar) := by
  induction operands generalizing first sofar with
  | nil => exact ⟨first, rfl, start⟩
  | cons operand rest ih =>
    obtain ⟨b, evaluated, related⟩ := each operand mem_cons_self
    simp only [map_cons, foldl_cons, evaluated]
    exact ih (fun other member => each other (mem_cons_of_mem _ member))
      (step first sofar b _ start related)

/-- The induction over fitting filters. A relation that negation does not respect is carried through
filters that negate nothing. -/
theorem Fits.reads (fits : filter.Fits columns) (typed : row.isTyped columns)
    (exact : filter.exactOn row) (preserved : Preserved R)
    (negation : filter.negates → ∀ a x, R a x → R (!a) (notTruth x)) : filter.Reads R row := by
  induction fits with
  | @nullTest field operator literal type known asks =>
    cases operator <;> first | exact ⟨_, rfl, preserved.known _⟩ | cases asks
  | @comparison field operator literal type known compares admitted comparable near =>
    refine preserved.comparison compares (isNull_of_admits admitted) fun present => ?_
    have alike := alike_of_admits (Row.admits_of_isTyped typed known present) admitted
    have met : meetExactly [row.get field, literal] := by
      simpa [exactOn, meetings, Operator.isNullTest_of_isComparison compares] using exact
    exact Operator.holds_eq_compares compares alike met (by simp) (by simp)
  | @member field values type known admitted near =>
    refine ⟨_, rfl, preserved.member fun present v member absent => ?_⟩
    have own := (admitted v member).resolve_left (by simp [absent])
    have alike := alike_of_admits own (Row.admits_of_isTyped typed known present)
    have met : meetExactly (row.get field :: values) := by
      simpa [exactOn, meetings] using exact
    rw [alike.sameKey_eq, alike.sameStored_eq met (mem_cons_of_mem _ member) mem_cons_self]
  -- The filter itself negates, so the relation respects negation.
  | @negation operand _ ih =>
    have negates : negates (.combine .not [operand]) := by rfl
    rw [exactOn_combine] at exact
    obtain ⟨b, evaluated, related⟩ := ih (by simpa using exact) fun _ => negation negates
    rw [Reads, (plain_evaluates row).not, evaluated]
    exact ⟨!b, rfl, negation negates _ _ related⟩
  | @joined connective joins operands some _ ih =>
    rw [exactOn_combine, all_eq_true] at exact
    have each (operand : Filter) (member : operand ∈ operands) : operand.Reads R row := by
      refine ih operand member (exact operand member) fun negates => negation ?_
      rw [negates_combine, any_eq_true.mpr ⟨operand, member, negates⟩, Bool.or_true]
    cases operands with
    | nil => exact absurd rfl some
    | cons first rest =>
      obtain ⟨b, evaluated, related⟩ := each first mem_cons_self
      have others (operand : Filter) (member : operand ∈ rest) :=
        each operand (mem_cons_of_mem _ member)
      rcases joins with rfl | rfl
      · rw [Reads, (plain_evaluates row).and, (stored_evaluates row).and, evaluated]
        exact exists_foldl preserved.conj others related
      · rw [Reads, (plain_evaluates row).or, (stored_evaluates row).or, evaluated]
        exact exists_foldl preserved.disj others related

private theorem Fits.exists_agreeing (fits : filter.Fits columns) (typed : row.isTyped columns)
    (exact : filter.exactOn row) :
    ∃ plain, filter.holds row = .ok plain ∧ Agrees plain (filter.truth row) ∧
      (filter.negates = false → BothTrue plain (filter.truth row)) := by
  obtain ⟨plain, evaluated, agrees⟩ := fits.reads typed exact preserved_agrees fun _ => agrees_not
  refine ⟨plain, evaluated, agrees, fun positive => ?_⟩
  obtain ⟨other, again, both⟩ :=
    fits.reads typed exact preserved_bothTrue fun negates => by simp [positive] at negates
  cases evaluated.symm.trans again
  exact both

end Trees

end Filter

namespace StoredTable

end StoredTable

end Crosstab
