import Crosstab.Proofs.Number.Nearest
import Crosstab.Store.Condition

/-!
# Comparisons in a database

A database rounds an integer that meets a double. Where the integers are doubles as they stand,
values compare as they do in memory.
-/
namespace Crosstab

namespace Value

def isReal : Value → Bool
  | real _ => true
  | _ => false

def isExact : Value → Bool
  | int n => Quantity.ofDouble (Double.nearest (decide (n < 0)) n.natAbs 1) == .finite n
  | _ => true

/-- Values that one comparison brings together, without rounding any of them. -/
def meetExactly (values : List Value) : Bool := !values.any isReal || values.all isExact

def isNumber (v : Value) : Bool := v.quantity?.any (· != .nan)

variable {a b : Value} {values : List Value}

theorem isNumber_iff : a.isNumber ↔ ∃ q, a.quantity? = some q ∧ q ≠ .nan := by
  cases quantity : a.quantity? <;> simp [isNumber, quantity]

theorem isNan_of_isNumber (number : a.isNumber) : a.isNan = false := by
  cases a with
  | real x =>
    cases nan : x.isNan with
    | false => exact nan
    | true => simp [isNumber, quantity?, Quantity.ofDouble, nan] at number
  | _ => rfl

theorem quantity?_meeting (exact : meetExactly values) (ofA : a ∈ values) (ofB : b ∈ values) :
    (a.meeting b).quantity? = a.quantity? := by
  cases a with
  | int n =>
    cases b with
    | real x =>
      have double : values.any isReal := List.any_eq_true.mpr ⟨_, ofB, rfl⟩
      have whole : values.all isExact := by simpa [meetExactly, double] using exact
      have kept := List.all_eq_true.mp whole _ ofA
      simpa [isExact, meeting, quantity?] using kept
    | _ => rfl
  | _ => rfl

private theorem same_of_quantities {p q : Quantity} (ofA : a.quantity? = some p)
    (ofB : b.quantity? = some q) : a.same b = p.same q := by
  cases a <;> cases b <;> simp_all [same, sameAtom, quantity?]

private theorem less?_of_quantities {p q : Quantity} (ofA : a.quantity? = some p)
    (ofB : b.quantity? = some q) : a.less? b = some (p.less q) := by
  cases a <;> cases b <;> simp_all [less?, lessAtom?, quantity?]

theorem sameKey_null (v : Value) : v.sameKey .null = v.isNull ∧ null.sameKey v = v.isNull := by
  cases v <;> simp [sameKey, same, sameAtom, quantity?, isNull]

/-- Two values of one kind: texts, dates or numbers. -/
inductive Alike : Value → Value → Prop where
  | texts (s t : String) : Alike (text s) (text t)
  | dates (d e : Date) : Alike (date d) (date e)
  | numbers {a b : Value} (ofA : a.isNumber = true) (ofB : b.isNumber = true) : Alike a b

namespace Alike

section

variable (alike : Alike a b)
include alike

private theorem symm : Alike b a := by
  cases alike with
  | texts s t => exact .texts t s
  | dates d e => exact .dates e d
  | numbers ofA ofB => exact .numbers ofB ofA

private theorem isNull_left : a.isNull = false := by
  cases alike with
  | numbers ofA _ => cases a <;> first | rfl | cases ofA
  | _ => rfl

/-- Values of one kind have an order, and it is the same in a database. -/
theorem less?_eq (exact : meetExactly values) (ofA : a ∈ values)
    (ofB : b ∈ values) : a.less? b = some (a.belowStored b) := by
  cases alike with
  | texts s t => simp [belowStored, isNan, meeting, less?, lessAtom?]
  | dates d e => simp [belowStored, isNan, meeting, less?, lessAtom?]
  | numbers first second =>
    obtain ⟨p, left, _⟩ := isNumber_iff.mp first
    obtain ⟨q, right, _⟩ := isNumber_iff.mp second
    have met := less?_of_quantities ((quantity?_meeting exact ofA ofB).trans left)
      ((quantity?_meeting exact ofB ofA).trans right)
    rw [less?_of_quantities left right]
    simp [belowStored, isNan_of_isNumber second, met]

theorem sameStored_eq (exact : meetExactly values) (ofA : a ∈ values)
    (ofB : b ∈ values) : a.sameStored b = a.same b := by
  cases alike with
  | texts s t => rfl
  | dates d e => rfl
  | numbers first second =>
    obtain ⟨p, left, _⟩ := isNumber_iff.mp first
    obtain ⟨q, right, _⟩ := isNumber_iff.mp second
    have met := same_of_quantities ((quantity?_meeting exact ofA ofB).trans left)
      ((quantity?_meeting exact ofB ofA).trans right)
    rw [same_of_quantities left right]
    simp [sameStored, isNan_of_isNumber first, met]

theorem sameKey_eq : a.sameKey b = a.same b := by
  cases alike with
  | texts s t => rfl
  | dates d e => rfl
  | numbers first second =>
    have number := isNan_of_isNumber first
    cases a with
    | real x =>
      have number : x.isNan = false := number
      cases b <;> simp [sameKey, number]
    | _ => rfl

end

end Alike

end Value

theorem Operator.holds_eq_compares {operator : Operator} {a b : Value} {values : List Value}
    (compares : operator.isComparison) (alike : Value.Alike a b)
    (exact : Value.meetExactly values) (ofA : a ∈ values) (ofB : b ∈ values) :
    operator.holds a b = .ok (operator.compares a b) := by
  unfold holds Operator.compares
  rw [alike.less?_eq exact ofA ofB, alike.symm.less?_eq exact ofB ofA, alike.sameStored_eq exact ofA ofB]
  cases operator <;> first | rfl | cases compares

namespace ColumnType

/-- A column takes a value as it stands: texts among texts, dates among dates, numbers and truth values
among each other. -/
def admits (type : ColumnType) (value : Value) : Bool :=
  match Domain.ofType type, value with
  | .text, .text _ => true
  | .date, .date _ => true
  | .truth, value => value.isNumber
  | .number, value => value.isNumber
  | _, _ => false

variable {type : ColumnType} {a b : Value}

theorem alike_of_admits (first : type.admits a) (second : type.admits b) : Value.Alike a b := by
  unfold admits at first second
  cases domain : Domain.ofType type with
  | text =>
    obtain ⟨s, rfl⟩ : ∃ s, a = .text s := by cases a <;> simp_all
    obtain ⟨t, rfl⟩ : ∃ t, b = .text t := by cases b <;> simp_all
    exact .texts s t
  | date =>
    obtain ⟨d, rfl⟩ : ∃ d, a = .date d := by cases a <;> simp_all
    obtain ⟨e, rfl⟩ : ∃ e, b = .date e := by cases b <;> simp_all
    exact .dates d e
  | truth => exact .numbers (by simpa [domain] using first) (by simpa [domain] using second)
  | number => exact .numbers (by simpa [domain] using first) (by simpa [domain] using second)

theorem isNull_of_admits (admitted : type.admits a) : a.isNull = false :=
  (alike_of_admits admitted admitted).isNull_left

end ColumnType

/-! ### Domains of columns -/

/-- A domain in which values of a column may meet: its own, or numbers where it has truth values. -/
def Domain.Suits (type : ColumnType) (domain : Domain) : Prop :=
  domain = ofType type ∨ ofType type = .truth ∧ domain = .number

private theorem Domain.ofLiteral?_of_isNumber {value : Value} (number : value.isNumber) :
    ofLiteral? value = some .truth ∨ ofLiteral? value = some .number := by
  cases value <;> simp_all [Value.isNumber, Value.quantity?, ofLiteral?]

namespace Domain.Suits

variable {type : ColumnType} {domain : Domain} {value : Value}

/-- A domain that suits a column leaves the values of the column as they are. -/
theorem convert (suits : Suits type domain) (admitted : type.admits value) :
    domain.convert value = .ok value := by
  cases value with
  | text s =>
    have textual : ofType type = .text := by
      unfold ColumnType.admits at admitted
      cases column : ofType type <;> simp_all [Value.isNumber, Value.quantity?]
    obtain rfl : domain = .text := by simpa [Suits, textual] using suits
    rfl
  | _ => rfl

theorem text (suits : Suits type domain) (textual : type = .string) : domain = .text := by
  subst textual
  simpa [Suits, ofType] using suits

/-- A suitable domain stays one where it meets the domain of a value of the column. -/
theorem exists_join (suits : Suits type domain) (admitted : type.admits value) :
    ∃ other joined, ofLiteral? value = some other ∧ join domain other = some joined ∧
      Suits type joined := by
  unfold ColumnType.admits at admitted
  unfold Suits at suits
  cases column : ofType type with
  | text =>
    obtain ⟨s, rfl⟩ : ∃ s, value = .text s := by cases value <;> simp_all
    obtain rfl : domain = .text := by simpa [column] using suits
    exact ⟨.text, .text, rfl, rfl, .inl column.symm⟩
  | date =>
    obtain ⟨d, rfl⟩ : ∃ d, value = .date d := by cases value <;> simp_all
    obtain rfl : domain = .date := by simpa [column] using suits
    exact ⟨.date, .date, rfl, rfl, .inl column.symm⟩
  | truth =>
    rcases ofLiteral?_of_isNumber (by simpa [column] using admitted) with read | read <;>
      rcases suits with rfl | ⟨_, rfl⟩ <;> simp [read, join, Suits, column]
  | number =>
    obtain rfl : domain = .number := by simpa [column] using suits
    rcases ofLiteral?_of_isNumber (by simpa [column] using admitted) with read | read <;>
      simp [read, join, Suits, column]

end Domain.Suits

theorem ColumnType.exists_ofMembers (type : ColumnType) {literals : List Value}
    (admitted : ∀ v ∈ literals, type.admits v) :
    ∃ domain, Domain.ofMembers type literals = .ok domain ∧ Domain.Suits type domain := by
  have folded (start : Domain) (suits : Domain.Suits type start) : ∃ domain,
      literals.foldlM (fun domain member => do Domain.join domain (← Domain.ofLiteral? member)) start =
        some domain ∧ Domain.Suits type domain := by
    induction literals generalizing start with
    | nil => exact ⟨start, rfl, suits⟩
    | cons v rest ih =>
      obtain ⟨other, joined, read, met, wider⟩ := suits.exists_join (admitted v List.mem_cons_self)
      obtain ⟨domain, later, suits⟩ :=
        ih (fun u member => admitted u (List.mem_cons_of_mem _ member)) joined wider
      refine ⟨domain, ?_, suits⟩
      rw [List.foldlM_cons]
      simp only [read, met, Option.bind_eq_bind, Option.bind_some]
      exact later
  obtain ⟨domain, joined, suits⟩ := folded _ (.inl rfl)
  exact ⟨domain, by rw [Domain.ofMembers, joined], suits⟩

end Crosstab
