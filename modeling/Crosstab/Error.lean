import Crosstab.Value

/-!
# Errors

Every way in which compiling, planning, executing or showing a table can fail, by cause. The wording
stands in one place, in the `message` functions.
-/
namespace Crosstab

inductive Side where
  | rows
  | cols
  deriving DecidableEq, Repr

namespace Side

def name : Side → String
  | rows => "rows"
  | cols => "cols"

def both : List Side := [rows, cols]

end Side

inductive CompileError where
  | unknownField (name : Value)
  | unknownFilterField (name : Value)
  | unsupportedOperator (operator field : String)
  | missingLiteral (field operator : String)
  | orderNeedsNumber (operator field : String)
  | numberAgainstText (field literal : String)
  | emptyFilterGroup
  | malformedFilterChain
  | unknownConnective (name : String)
  | orderedTotal
  | unknownDirection (direction field : String)
  | zeroLimit (field : String)
  | orderedByForeignMeasure (field target : String)
  | missingAggregation (measure : Value)
  | unknownAcross (side : String)
  | unknownAggregation (method : String)
  | aggregationNeedsField (method : String)
  | unknownMeasure (name : Value)
  | aggregationNeedsNumber (method field : String)
  | unknownFormat (format : String)
  deriving Repr

def CompileError.message : CompileError → String
  | unknownField name => "Unknown field '" ++ name.plain ++ "'"
  | unknownFilterField name => "Unknown field '" ++ name.plain ++ "' in WHERE clause"
  | unsupportedOperator operator field => s!"Unsupported comparison operator '{operator}' on '{field}'"
  | missingLiteral field operator =>
    s!"Comparison '{field} {operator}' needs a literal; use IS NULL for nulls"
  | orderNeedsNumber operator field =>
    s!"Operator '{operator}' requires a numeric field, '{field}' is not numeric"
  | numberAgainstText field literal =>
    s!"Cannot compare numeric field '{field}' with string literal {literal}"
  | emptyFilterGroup => "Empty filter group"
  | malformedFilterChain => "Malformed filter: operators and terms do not alternate"
  | unknownConnective name => s!"Unknown boolean operator '{name}'"
  | orderedTotal => "ALL cannot carry an ordering or a limit"
  | unknownDirection direction field => s!"Unknown ordering '{direction}' on '{field}'"
  | zeroLimit field => s!"Limit on '{field}' must be non-zero"
  | orderedByForeignMeasure field target =>
    s!"Ordering of '{field}' references '@{target}', which is not a measure of this table"
  | missingAggregation measure =>
    "Measure '" ++ measure.plain ++ "' needs an aggregation, e.g. " ++ measure.plain ++ ".sum"
  | unknownAcross side => s!"ACROSS must name ROWS or COLS, got '{side}'"
  | unknownAggregation method => s!"Unknown aggregation '{method}'"
  | aggregationNeedsField method => s!"Aggregation '{method}' needs a measure field"
  | unknownMeasure name => "Unknown measure '" ++ name.plain ++ "'"
  | aggregationNeedsNumber method field =>
    s!"Aggregation '{method}' requires a numeric field, '{field}' is not numeric"
  | unknownFormat format => s!"Unknown format '{format}'"

inductive PlanError where
  | repeatedField (side : Side) (fields : List String)
  | sharedFields (fields : List String)
  | forcedNull (field column measure : String)
  | pendingOrdering (field : String)
  | noDiscoveryResult (field : String)
  | noResult (count : Nat) (key : String)
  deriving DecidableEq, Repr

def PlanError.message : PlanError → String
  | repeatedField side fields =>
    "Field repeated along one " ++ side.name ++ " branch: " ++ " * ".intercalate fields
  | sharedFields fields => "Fields used on both ROWS and COLS: " ++ ", ".intercalate fields
  | forcedNull field column measure =>
    s!"Ordering of '{field}' by {column} cannot be computed: the filter forces '{measure}' to NULL"
  | pendingOrdering field =>
    s!"Ordering of '{field}' is still pending; run discovery and resolve first"
  | noDiscoveryResult field => s!"No discovery result for ordering of '{field}'"
  | noResult count key => s!"No result for {count} planned queries, e.g. '{key}'"

inductive ExecutionError where
  | failed (query reason : String)
  | timedOut (seconds query : String)
  deriving DecidableEq, Repr

def ExecutionError.message : ExecutionError → String
  | failed query reason => s!"Query failed: {query}: {reason}"
  | timedOut seconds query => s!"Query timed out after {seconds}s: {query}"

inductive InvalidValue where
  | unknownItem (type : Value)
  | unknownTerm (type : Value)
  | notAnInteger (text : String)
  /-- A numeral of more digits than are read. -/
  | numeralTooLong (digits : Nat)
  | notANumber (text : String)
  | nanAsInteger
  | textAsNumber
  | missingPrecision
  | precisionTooBig
  | precisionTooLong
  /-- A precision with something after its digits, asked for a value of the named type. -/
  | precisionMalformed (precision type : String)
  | twoSeparators
  | noDecimalPrecision
  | scaleBeyondPrecision (precision scale : Nat)
  | settings (problems : List String)
  | unknownLevel (level : Value)
  | unknownResultForm (form : Value)
  | unsupportedAggregate (name : String)
  | noSourceTable
  | unsupportedTest (operator : String)
  | unsupportedConnective (name : String)
  | unsupportedStatistic (name : String)
  | statisticNeedsField (name : String)
  | negativeConcurrency
  deriving Repr

def shownLiteral : Nat := 200

def InvalidValue.message : InvalidValue → String
  | unknownItem type => "Unknown axis item type: " ++ type.plain
  | unknownTerm type => "Unknown filter term type: " ++ type.plain
  | notAnInteger text =>
    "invalid literal for int() with base 10: " ++
      String.ofList ((Text.quotedChars text.toList).take shownLiteral)
  | numeralTooLong digits =>
    "Exceeds the limit (" ++ toString Number.digitLimit ++
      " digits) for integer string conversion: value has " ++ toString digits ++
      " digits; use sys.set_int_max_str_digits() to increase the limit"
  | notANumber text => "could not convert string to float: " ++ Text.quoted text
  | nanAsInteger => "cannot convert float NaN to integer"
  | textAsNumber => "Unknown format code 'f' for object of type 'str'"
  | missingPrecision => "Format specifier missing precision"
  | precisionTooBig => "precision too big"
  | precisionTooLong => "Too many decimal digits in format string"
  | precisionMalformed precision type =>
    s!"Invalid format specifier '.{precision}f' for object of type '{type}'"
  | twoSeparators => "Cannot specify both ',' and '_'."
  | noDecimalPrecision => "Decimal type precision cannot be zero"
  | scaleBeyondPrecision precision scale =>
    "Decimal type precision must be greater than or equal to scale. " ++
      s!"Got precision={precision} and scale={scale}"
  | settings problems => "Configuration validation errors: " ++ "; ".intercalate problems
  | unknownLevel level => "Unknown level: " ++ level.literal
  | unknownResultForm form => "Unknown return_format: " ++ form.plain
  | unsupportedAggregate name => name
  | noSourceTable => "No source table; pass table_name or call register_arrow_dataset"
  | unsupportedTest operator => s!"Unsupported operator: {operator}"
  | unsupportedConnective name => s!"Unsupported filter combinator: {name}"
  | unsupportedStatistic name => s!"Unsupported aggregation type: {name}"
  | statisticNeedsField name => s!"Aggregation '{name}' needs a field"
  | negativeConcurrency => "Semaphore initial value must be >= 0"

inductive Misuse where
  | wrongType
  | noMember
  | overflow
  | noOperand
  /-- An integer that no double represents, or a sum beyond the integers of a store. -/
  | inexact
  | unknownType
  | noTable
  | noColumn
  | incomparable
  /-- A literal that cannot become a value of the column. -/
  | inconvertible
  | emptyQuery
  /-- An aggregate with the name of a field of the grouping. -/
  | repeatedColumn
  | ambiguousColumn
  /-- A list of members whose types do not meet. -/
  | unmixable
  | unrepresentable
  | closed
  deriving DecidableEq, Repr

def Misuse.message : Misuse → String
  | wrongType => "operation not supported for values of this kind"
  | noMember => "value has no such member"
  | overflow => "value too large"
  | noOperand => "combination without operands"
  | inexact => "integer not representable"
  | unknownType => "type not recognised"
  | noTable => "table not found"
  | noColumn => "column not found"
  | incomparable => "column and literal have no comparison"
  | inconvertible => "literal cannot be converted"
  | emptyQuery => "query without columns"
  | repeatedColumn => "column name used twice"
  | ambiguousColumn => "aggregate name used twice"
  | unmixable => "members of different types"
  | unrepresentable => "member out of range"
  | closed => "'NoneType' object has no attribute 'table'"

inductive FaultKind where
  | engine
  | compile
  | plan
  | execution
  | value
  | key
  | timeout
  | other (name : String)
  deriving DecidableEq, Repr

structure Fault where
  kind : FaultKind
  message : String
  deriving DecidableEq, Repr

inductive Error where
  | compile (cause : CompileError)
  | plan (cause : PlanError)
  | execution (cause : ExecutionError)
  | invalid (cause : InvalidValue)
  | missingKey (key : String)
  | misuse (cause : Misuse)
  | reported (fault : Fault)
  /-- A later submission took the place of this request. -/
  | superseded
  deriving Repr

namespace Error

def message : Error → String
  | compile cause => cause.message
  | plan cause => cause.message
  | execution cause => cause.message
  | invalid cause => cause.message
  | missingKey key => Text.quoted key
  | misuse cause => cause.message
  | reported ⟨.key, text⟩ => Text.quoted text
  | reported fault => fault.message
  | superseded => ""

/-- Errors of the engine itself, which callers see unchanged. -/
def isOwn : Error → Bool
  | compile _ => true
  | plan _ => true
  | execution _ => true
  | reported fault =>
    match fault.kind with
    | .engine => true
    | .compile => true
    | .plan => true
    | .execution => true
    | _ => false
  | _ => false

def isTimeout : Error → Bool
  | reported ⟨.timeout, _⟩ => true
  | _ => false

end Error

/-- A computation of the library: a result, or the cause of its failure. -/
abbrev Outcome := Except Error

namespace Outcome

def wrongType {α : Type} : Outcome α := .error (.misuse .wrongType)

def noMember {α : Type} : Outcome α := .error (.misuse .noMember)

end Outcome

namespace Value

/-- The text inside a value of which a text was expected to be asked something. -/
def asText : Value → Outcome String
  | text s => .ok s
  | _ => Outcome.noMember

def asKey (v : Value) : Outcome Value :=
  if v.hashable then .ok v else Outcome.wrongType

def asDouble : Value → Outcome Double
  | bool b => .ok (Double.nearest false b.toNat 1)
  | int n =>
    match Double.ofInt? n with
    | some x => .ok x
    | none => .error (.misuse .overflow)
  | real x => .ok x
  | _ => Outcome.wrongType

def asInt : Value → Outcome Int
  | bool b => .ok b.toNat
  | int n => .ok n
  | real x =>
    if x.isNan then .error (.invalid .nanAsInteger)
    else if x.isInfinite then .error (.misuse .overflow)
    else .ok x.truncate
  | text s =>
    match Number.readNumeral s with
    | .value n => .ok n
    | .tooLong digits => .error (.invalid (.numeralTooLong digits))
    | .malformed => .error (.invalid (.notAnInteger s))
  | _ => Outcome.wrongType

end Value

end Crosstab
