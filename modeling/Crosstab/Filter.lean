import Crosstab.Schema
import Crosstab.Sorting
import Crosstab.Statement

/-!
# Filters

A filter is a tree of tests. Its key is a text that stands for it when queries are told apart. It is
compiled from a clause, and read on a row in two truth values, where a comparison with null is false,
or in three, where it is unknown.
-/
namespace Crosstab

inductive Operator where
  | equal
  | notEqual
  | greater
  | less
  | atLeast
  | atMost
  | isNull
  | isNotNull
  | other (name : String)
  deriving DecidableEq, Repr

namespace Operator

def symbol : Operator → String
  | equal => "="
  | notEqual => "!="
  | greater => ">"
  | less => "<"
  | atLeast => ">="
  | atMost => "<="
  | isNull => "is-null"
  | isNotNull => "is-not-null"
  | other name => name

def ofSymbol (symbol : String) : Operator :=
  if symbol = "=" then equal
  else if symbol = "!=" then notEqual
  else if symbol = ">" then greater
  else if symbol = "<" then less
  else if symbol = ">=" then atLeast
  else if symbol = "<=" then atMost
  else if symbol = "is-null" then isNull
  else if symbol = "is-not-null" then isNotNull
  else other symbol

def isComparison : Operator → Bool
  | equal | notEqual | greater | less | atLeast | atMost => true
  | _ => false

def isOrdering : Operator → Bool
  | greater | less | atLeast | atMost => true
  | _ => false

def isNullTest : Operator → Bool
  | isNull | isNotNull => true
  | _ => false

end Operator

inductive Connective where
  | and
  | or
  | not
  | other (name : String)
  deriving DecidableEq, Repr

namespace Connective

def name : Connective → String
  | and => "and"
  | or => "or"
  | not => "not"
  | other name => name

def ofName (name : String) : Connective :=
  if name = "and" then and
  else if name = "or" then or
  else if name = "not" then not
  else other name

end Connective

inductive Filter where
  | test (field : String) (operator : Operator) (value : Value)
  | member (field : String) (values : List Value)
  | combine (connective : Connective) (operands : List Filter)
  deriving Repr

namespace Filter

/-- The key of a test; literals are quoted, so that a text is never taken for a number. -/
def testKey (field : String) (operator : Operator) (value : Value) : String :=
  if operator.isNullTest then field ++ " " ++ operator.symbol
  else field ++ " " ++ operator.symbol ++ " " ++ value.literal

def textOrder (a b : String) : Bool := !decide (b < a)

/-- The key of a membership does not depend on the order of the members. -/
def memberKey (field : String) (values : List Value) : String :=
  field ++ " in (" ++ ",".intercalate (Sorting.arrange textOrder (values.map Value.literal)) ++ ")"

mutual

def key : Filter → String
  | test field operator value => testKey field operator value
  | member field values => memberKey field values
  | combine .not (operand :: _) => "not(" ++ key operand ++ ")"
  | combine connective operands => connective.name ++ "(" ++ ", ".intercalate (keys operands) ++ ")"

def keys : List Filter → List String
  | [] => []
  | operand :: rest => key operand :: keys rest

end

mutual

/-- Every negation has something to negate. -/
def isComplete : Filter → Bool
  | test .. => true
  | member .. => true
  | combine .not [] => false
  | combine .not (operand :: _) => isComplete operand
  | combine _ operands => areComplete operands

def areComplete : List Filter → Bool
  | [] => true
  | operand :: rest => isComplete operand && areComplete rest

end

mutual

def fields : Filter → List String
  | test field _ _ => [field]
  | member field _ => [field]
  | combine _ operands => (fieldsOf operands).eraseDups

def fieldsOf : List Filter → List String
  | [] => []
  | operand :: rest => fields operand ++ fieldsOf rest

end

/-- The key of an optional filter; no filter has the empty key. -/
def keyOf (filter : Option Filter) : String := (filter.map key).getD ""

def key? (filter : Filter) : Outcome String :=
  if filter.isComplete then .ok filter.key else .error (.misuse .noOperand)

/-- Adds conditions to a filter, which stays one operand. -/
def conjoin (base : Option Filter) (extra : List Filter) : Option Filter :=
  match base.toList ++ extra with
  | [] => none
  | [single] => some single
  | operands => some (combine .and operands)

mutual

/-- The conditions that all have to hold, looking through nested conjunctions only. -/
def conjuncts : Filter → List Filter
  | combine .and operands => conjunctsOf operands
  | filter => [filter]

def conjunctsOf : List Filter → List Filter
  | [] => []
  | operand :: rest => conjuncts operand ++ conjunctsOf rest

end

def allConjuncts (filter : Option Filter) : List Filter :=
  match filter with
  | none => []
  | some filter => filter.conjuncts

end Filter

/-! ### Clauses -/

namespace FilterTerm

def checkField (schema : Schema) (name : Value) : Outcome String := do
  match ← schema.field? name with
  | some field => return field
  | none => .error (.compile (.unknownFilterField name))

/-- The operator that a symbol stands for, with its second spellings. -/
def readOperator (symbol : String) : Operator :=
  let symbol := Text.strip symbol
  if symbol = "==" then .equal
  else if symbol = "<>" then .notEqual
  else Operator.ofSymbol symbol

/-- Checks one comparison: a known operator, a literal, and numbers where they are needed. -/
def compileComparison (schema : Schema) (name symbol value : Value) : Outcome Filter := do
  let field ← checkField schema name
  let symbol ← symbol.asText
  let operator := readOperator symbol
  if !operator.isComparison then .error (.compile (.unsupportedOperator symbol field))
  else if value.isNull then .error (.compile (.missingLiteral field operator.symbol))
  else if operator.isOrdering && !schema.isNumeric field then
    .error (.compile (.orderNeedsNumber operator.symbol field))
  else if schema.isNumeric field && value.isText then
    .error (.compile (.numberAgainstText field value.literal))
  else return .test field operator value

def compileNullCheck (schema : Schema) (name : Value) (negated : Bool) : Outcome Filter := do
  let field ← checkField schema name
  return .test field (if negated then .isNotNull else .isNull) .null

/-- Whether a connective, in upper or lower case, opens a new run of conjoined terms. -/
def opensRun (connective : String) : Outcome Bool :=
  let connective := Text.upper connective
  if connective = "AND" then .ok false
  else if connective = "OR" then .ok true
  else .error (.compile (.unknownConnective connective))

/-- Puts further terms, each with a mark whether it opens a run, behind a first term. -/
def splitRuns (first : Filter) : List (Bool × Filter) → List (List Filter)
  | [] => [[first]]
  | (true, next) :: rest => [first] :: splitRuns next rest
  | (false, next) :: rest =>
    match splitRuns next rest with
    | [] => [[first]]
    | run :: runs => (first :: run) :: runs

/-- One operand stands for itself. -/
def joinOperands (connective : Connective) : List Filter → Filter
  | [single] => single
  | operands => .combine connective operands

def joinRuns (runs : List (List Filter)) : Filter :=
  joinOperands .or (runs.map (joinOperands .and))

mutual

def compile (schema : Schema) : FilterTerm → Outcome Filter
  | comparison name symbol value => compileComparison schema name symbol value
  | nullCheck name negated => compileNullCheck schema name negated
  | negation operand => do return .combine .not [← compile schema operand]
  | chain [] _ => .error (.compile .emptyFilterGroup)
  | chain (first :: rest) connectives =>
    if connectives.length != rest.length then .error (.compile .malformedFilterChain)
    else do
      let first ← compile schema first
      return joinRuns (splitRuns first (← compileRest schema rest connectives))

/-- The later terms of a chain; a connective is checked before the term behind it. -/
def compileRest (schema : Schema) : List FilterTerm → List String → Outcome (List (Bool × Filter))
  | term :: terms, connective :: connectives => do
    let opens ← opensRun connective
    let filter ← compile schema term
    return (opens, filter) :: (← compileRest schema terms connectives)
  | _, _ => .ok []

end

end FilterTerm

/-! ### Evaluation -/

namespace Value

/-- A value as a database compares it with another one: an integer that meets a double becomes one. -/
def meeting (a b : Value) : Value :=
  match a, b with
  | int n, real _ => real (Double.nearest (decide (n < 0)) n.natAbs 1)
  | a, _ => a

/-- Equality in a database, where what is no number equals itself. -/
def sameStored (a b : Value) : Bool :=
  (a.isNan && b.isNan) || (a.meeting b).same (b.meeting a)

/-- Order in a database, where what is no number is above all numbers. -/
def belowStored (a b : Value) : Bool :=
  if b.isNan then !a.isNan && a.quantity?.isSome else (a.meeting b).less? (b.meeting a) == some true

end Value

namespace Operator

/-- Compares two values that are not null. The kinds have to admit an order even where only equality
is asked for. -/
def holds (operator : Operator) (a b : Value) : Outcome Bool :=
  match a.less? b, b.less? a with
  | some below, some above =>
    match operator with
    | equal => .ok (a.same b)
    | notEqual => .ok (!a.same b)
    | greater => .ok above
    | less => .ok below
    | atLeast => .ok (above || a.same b)
    | atMost => .ok (below || a.same b)
    | other name => .error (.missingKey name)
    | isNull => .ok false
    | isNotNull => .ok true
  | _, _ => Outcome.wrongType

/-- Compares two values that are not null, in the order of databases. -/
def compares (operator : Operator) (a b : Value) : Bool :=
  match operator with
  | equal => a.sameStored b
  | notEqual => !a.sameStored b
  | greater => b.belowStored a
  | less => a.belowStored b
  | atLeast => b.belowStored a || a.sameStored b
  | atMost => a.belowStored b || a.sameStored b
  | _ => false

end Operator

namespace Filter

def testHolds (operator : Operator) (literal value : Value) : Outcome Bool :=
  match operator with
  | .isNull => .ok value.isNull
  | .isNotNull => .ok !value.isNull
  | _ => if value.isNull then .ok false else operator.holds value literal

mutual

/-- Whether a row passes a filter, in two truth values. Every operand is evaluated; an unnamed
connective asks for one that holds. -/
def holds (row : Row) : Filter → Outcome Bool
  | test field operator literal => testHolds operator literal (row.get field)
  | member field values => .ok (values.any fun v => v.sameKey (row.get field))
  | combine .not operands => do
    match ← firstHolds row operands with
    | some holds => return !holds
    | none => .error (.misuse .noOperand)
  | combine .and operands => do return (← eachHolds row operands).all id
  | combine _ operands => do return (← eachHolds row operands).any id

def firstHolds (row : Row) : List Filter → Outcome (Option Bool)
  | [] => .ok none
  | operand :: _ => do return some (← holds row operand)

def eachHolds (row : Row) : List Filter → Outcome (List Bool)
  | [] => .ok []
  | operand :: rest => do
    let first ← holds row operand
    return first :: (← eachHolds row rest)

end

def passes (filter : Option Filter) (row : Row) : Outcome Bool :=
  match filter with
  | none => .ok true
  | some filter => filter.holds row

def notTruth (a : Option Bool) : Option Bool := a.map not

/-- The conjunction of truth values that may be unknown: false if one is false. -/
def andTruth : Option Bool → Option Bool → Option Bool
  | some false, _ => some false
  | _, some false => some false
  | some true, some true => some true
  | _, _ => none

/-- The disjunction of truth values that may be unknown: true if one is true. -/
def orTruth : Option Bool → Option Bool → Option Bool
  | some true, _ => some true
  | _, some true => some true
  | some false, some false => some false
  | _, _ => none

def testTruth (operator : Operator) (literal value : Value) : Option Bool :=
  match operator with
  | .isNull => some value.isNull
  | .isNotNull => some !value.isNull
  | _ => if value.isNull || literal.isNull then none else some (operator.compares value literal)

/-- Membership, in three truth values. Nulls among the members ask for null; without other members
no comparison takes place. -/
def memberTruth (members : List Value) (value : Value) : Option Bool :=
  let rest := members.filter fun v => !v.isNull
  let among :=
    if rest.isEmpty then some false
    else if value.isNull then none
    else some (rest.any fun v => v.sameStored value)
  if rest.length = members.length then among else orTruth among (some value.isNull)

mutual

/-- The truth of a filter on a row, in three truth values. -/
def truth (row : Row) : Filter → Option Bool
  | test field operator literal => testTruth operator literal (row.get field)
  | member field values => memberTruth values (row.get field)
  | combine .not [] => none
  | combine .not (operand :: _) => notTruth (truth row operand)
  | combine _ [] => none
  | combine .and (first :: rest) => allTruth row (truth row first) rest
  | combine _ (first :: rest) => anyTruth row (truth row first) rest

def allTruth (row : Row) : Option Bool → List Filter → Option Bool
  | sofar, [] => sofar
  | sofar, operand :: rest => allTruth row (andTruth sofar (truth row operand)) rest

def anyTruth (row : Row) : Option Bool → List Filter → Option Bool
  | sofar, [] => sofar
  | sofar, operand :: rest => anyTruth row (orTruth sofar (truth row operand)) rest

end

end Filter

end Crosstab
