import Crosstab.Proofs.Axis.Denotation
import Crosstab.Proofs.Filter.Meaning
import Crosstab.Proofs.Statement.Compilation
import Crosstab.Proofs.Statement.Spelling

/-!
# Well-formed statements

When a statement is well formed, said of each of its pieces alone and without the order in which
compilation comes across them.
-/
namespace Crosstab

/-! ### Terms of filters -/

namespace FilterTerm

mutual

/-- A term and all terms inside it. -/
def subterms : FilterTerm → List FilterTerm
  | comparison field operator value => [comparison field operator value]
  | nullCheck field negated => [nullCheck field negated]
  | negation operand => negation operand :: subterms operand
  | chain terms connectives => chain terms connectives :: subtermsOf terms

def subtermsOf : List FilterTerm → List FilterTerm
  | [] => []
  | term :: rest => subterms term ++ subtermsOf rest

end

/-- The names in a term are texts. -/
def isTyped : FilterTerm → Bool
  | comparison field operator _ => field.isText && operator.isText
  | nullCheck field _ => field.isText
  | _ => true

/-- What is asked of a term itself, the terms inside it left aside. -/
def IsSound (schema : Schema) : FilterTerm → Prop
  | comparison field operator literal =>
    ∃ name symbol kind, field = .text name ∧ schema.hasField name = true ∧
      operator = .text symbol ∧ comparisonOf (Text.strip symbol) = some kind ∧
      literal.isNull = false ∧ (kind ≠ .equal → kind ≠ .notEqual → schema.isNumeric name = true) ∧
      ¬(schema.isNumeric name = true ∧ literal.isText = true)
  | nullCheck field _ => ∃ name, field = .text name ∧ schema.hasField name = true
  | negation _ => True
  | chain terms connectives => terms ≠ [] ∧ connectives.length + 1 = terms.length ∧
    ∀ connective ∈ connectives, Text.upper connective = "AND" ∨ Text.upper connective = "OR"

end FilterTerm

/-! ### Bindings -/

def Value.isOptionalText (v : Value) : Bool := v.isNull || v.isText

/-- There is such an aggregate, and the measure, which only a count can do without, is a field that it
can be taken of. -/
structure Aggregate.Suits (schema : Schema) (measure : Value) (method : String) : Prop where
  aggregate : Aggregate.IsName method
  counted : measure = .null → method = "count"
  known : ∀ field, measure = .text field → schema.hasField field = true
  numeric : ∀ field, measure = .text field → method ≠ "count" → schema.isNumeric field = true

namespace Aggregation

def isTyped (aggregation : Aggregation) : Bool :=
  aggregation.method.isText && aggregation.format.isOptionalText && aggregation.label.isOptionalText

def methodName (aggregation : Aggregation) : String := Text.lower aggregation.method.plain

/-- The format that applies: one that is absent or empty leaves it to the binding. -/
def formatIn (aggregation : Aggregation) (binding : Binding) : Value :=
  match aggregation.format with
  | .null | .text "" => binding.format
  | own => own

structure IsSound (schema : Schema) (binding : Binding) (aggregation : Aggregation) : Prop where
  suits : Aggregate.Suits schema binding.measure aggregation.methodName
  format : ∀ name, aggregation.formatIn binding = .text name → Binding.IsFormatName name

end Aggregation

namespace Binding

def isTyped (binding : Binding) : Bool :=
  binding.measure.isOptionalText && binding.format.isOptionalText &&
    binding.label.isOptionalText && binding.across.isOptionalText &&
    binding.aggregations.all Aggregation.isTyped

structure IsSound (schema : Schema) (binding : Binding) : Prop where
  aggregated : binding.aggregations ≠ []
  across : ∀ side, binding.across = .text side → Text.lower side = "rows" ∨ Text.lower side = "cols"
  aggregations : ∀ aggregation ∈ binding.aggregations, aggregation.IsSound schema binding

def aggregates (binding : Binding) : List (Value × String) :=
  binding.aggregations.map fun aggregation => (binding.measure, aggregation.methodName)

end Binding

/-! ### Dimensions and totals -/

def OrderTarget.ref? : OrderTarget → Option OrderRef
  | ref r => some r
  | _ => none

namespace Dimension

def isTyped (dimension : Dimension) : Bool :=
  dimension.name.isText && dimension.order.isOptionalText &&
    dimension.limit.all fun limit =>
      match limit.orderBy with
      | .other _ => false
      | _ => true

/-- The reference inside the limit, or else the one outside. -/
def orderRef? (dimension : Dimension) : Option OrderRef :=
  (dimension.limit.bind fun limit => limit.orderBy.ref?).or dimension.orderBy

structure IsSound (schema : Schema) (aggregates : List (Value × String)) (dimension : Dimension) :
    Prop where
  known : ∃ field, dimension.name = .text field ∧ schema.hasField field = true
  order : ∀ keyword, dimension.order = .text keyword →
    Text.lower keyword = "asc" ∨ Text.lower keyword = "desc"
  limit : ∀ limit, dimension.limit = some limit → limit.count ≠ 0
  ref : ∀ ref, dimension.orderRef? = some ref → ∃ aggregate ∈ aggregates, ref.Names aggregate

end Dimension

namespace Atom

def isTyped : Atom → Bool
  | dimension d => d.isTyped
  | total _ => true

def IsSound (schema : Schema) (aggregates : List (Value × String)) : Atom → Prop
  | dimension d => d.IsSound schema aggregates
  | total t => t.limit = none ∧ t.order = .null

end Atom

namespace Item

variable {β : Type}

mutual

/-- The dimensions and totals of a clause, at every depth. -/
def clauseAtoms : AxisClause β → List Atom
  | [] => []
  | group :: rest => groupAtoms group ++ clauseAtoms rest

def groupAtoms : Group β → List Atom
  | [] => []
  | item :: rest => atoms item ++ groupAtoms rest

def atoms : Item β → List Atom
  | dimension d => [.dimension d]
  | total t => [.total t]
  | binding _ => []
  | axis groups => clauseAtoms groups

end

end Item

/-! ### Statements -/

namespace Statement

variable (statement : Statement)

def filterTerms : List FilterTerm := statement.filter.elim [] FilterTerm.subterms

def atoms : List Atom :=
  Item.clauseAtoms statement.rows ++ Item.clauseAtoms (statement.cols.getD [])

/-- The aggregates that the statement asks for: the number of rows, if it asks for none. -/
def aggregates : List (Value × String) :=
  if statement.bindings.isEmpty then [(.null, "count")]
  else statement.bindings.flatMap Binding.aggregates

/-- Names are texts, and what may be left out is a text or null. -/
def isTyped : Bool :=
  statement.filterTerms.all FilterTerm.isTyped && statement.bindings.all Binding.isTyped &&
    statement.atoms.all Atom.isTyped

structure WellFormed (schema : Schema) : Prop where
  filter : ∀ term ∈ statement.filterTerms, term.IsSound schema
  bindings : ∀ binding ∈ statement.bindings, binding.IsSound schema
  atoms : ∀ atom ∈ statement.atoms, atom.IsSound schema statement.aggregates

end Statement

end Crosstab
