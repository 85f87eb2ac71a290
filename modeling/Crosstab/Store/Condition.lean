import Crosstab.Store.Column

/-!
# Conditions on typed columns

A filter becomes a condition on a table in two stages: it is built against the columns, and it runs
on texts that may be none of their values.
-/
namespace Crosstab

/-! ### Dates -/

namespace Date

def isLeap (year : Nat) : Bool := year % 4 == 0 && (year % 100 != 0 || year % 400 == 0)

def daysIn (year month : Nat) : Nat :=
  if month = 2 then (if isLeap year then 29 else 28)
  else if month = 4 ∨ month = 6 ∨ month = 9 ∨ month = 11 then 30
  else 31

def isValid (date : Date) : Bool :=
  decide (1 ≤ date.month ∧ date.month ≤ 12 ∧ 1 ≤ date.day ∧ date.day ≤ daysIn date.year date.month)

end Date

namespace DateText

def naturalOf (digits : List Char) : Nat := Number.naturalValue digits

/-- One or two digits, the separator before them, and what follows. -/
def part? (separator : Char) : List Char → Option (Nat × List Char)
  | c :: rest =>
    let digits := (rest.take 2).takeWhile Char.isDigit
    if c = separator ∧ !digits.isEmpty then some (naturalOf digits, rest.drop digits.length) else none
  | [] => none

/-- Year, month and day, whether they make a day of the calendar or not. -/
def parts? (text : String) : Option Date :=
  let text := text.toList.dropWhile (· == ' ')
  let year := text.takeWhile Char.isDigit
  match text.drop year.length with
  | separator :: rest =>
    if year.isEmpty || !(['-', '/', ' ', '\\'] : List Char).contains separator then none
    else do
      let (month, rest) ← part? separator (separator :: rest)
      let (day, rest) ← part? separator rest
      if (rest.head?.map Char.isDigit).getD false then none else some ⟨naturalOf year, month, day⟩
  | [] => none

def read? (text : String) : Option Date := (parts? text).filter Date.isValid

/-- Names of months and days of the week, which short forms begin. -/
def calendarNames : List String :=
  ["january", "february", "march", "april", "may", "june", "july", "august", "september", "october",
   "november", "december", "monday", "tuesday", "wednesday", "thursday", "friday", "saturday",
   "sunday"]

/-- Words that may stand between the parts of a date or mark a time. -/
def joiningWords : List String :=
  ["at", "on", "and", "ad", "m", "t", "of", "st", "nd", "rd", "th", "am", "pm", "z", "utc", "gmt",
   "h", "s"]

def isCalendarName (word : String) : Bool :=
  calendarNames.any fun name => name == word || (word.length == 3 && name.startsWith word)

/-- The runs of letters and the runs of digits of a text, the rest in runs as well. -/
def words (text : String) : List (List Char) :=
  let charClass (c : Char) : Nat := if c.isDigit then 0 else if c.isAlpha then 1 else 2
  text.toList.splitBy fun a b => charClass a == charClass b

/-- A number that can be a day or a year, or a date without separators. -/
def isDateNumber (digits : List Char) : Bool :=
  if digits.length = 8 then
    Date.isValid ⟨naturalOf (digits.take 4), naturalOf ((digits.drop 4).take 2), naturalOf (digits.drop 6)⟩
  else decide (digits.length ≤ 4) && naturalOf digits != 0

def isWiderDate (text : String) : Bool :=
  let words := words (Text.lower text)
  let numbers := words.filter fun word => word.all Char.isDigit
  let names := words.filter fun word => word.all Char.isAlpha
  let marks := words.filter fun word => !word.all Char.isAlphanum
  names.all (fun word =>
      isCalendarName (String.ofList word) || joiningWords.contains (String.ofList word)) &&
    marks.all (fun word => word.all fun c => [' ', '-', '/', '.', ',', ':', ';', '+', '\''].contains c) &&
    (numbers.any isDateNumber || names.any fun word => isCalendarName (String.ofList word)) &&
    numbers.all fun digits => decide (digits.length ≤ 8)

/-- A text that a condition on dates admits. -/
def isRecognised (text : String) : Bool :=
  match parts? text with
  | some date => date.isValid && isWiderDate text
  | none => isWiderDate text

end DateText

/-! ### Conditions -/

namespace ColumnType

/-- The values of a column have a comparison with a literal. Zero and one serve as truth values, and
texts as dates. -/
def comparesWith (type : ColumnType) (literal : Value) : Bool :=
  match type, literal with
  | _, .null => true
  | string, .text _ => true
  | bool, .bool _ => true
  | bool, .int n => n == 0 || n == 1
  | date, .date _ => true
  | date, .text s => DateText.isRecognised s
  | type, .int _ => type.isNumeric
  | type, .real _ => type.isNumeric
  | _, _ => false

end ColumnType

inductive Domain where
  | text
  | truth
  | number
  | date
  deriving DecidableEq, Repr

namespace Domain

def ofType : ColumnType → Domain
  | .string => text
  | .bool => truth
  | .date => date
  | _ => number

def ofLiteral? : Value → Option Domain
  | .text _ => some text
  | .bool _ => some truth
  | .int _ => some number
  | .real _ => some number
  | .date _ => some date
  | _ => none

/-- The domain in which two others meet: a text may stand for anything, and truth values are zero
and one among numbers. -/
def join : Domain → Domain → Option Domain
  | text, other => some other
  | other, text => some other
  | truth, number => some number
  | number, truth => some number
  | a, b => if a = b then some a else none

def ofMembers (type : ColumnType) (members : List Value) : Outcome Domain :=
  let joined := members.foldlM (fun domain member => do join domain (← ofLiteral? member)) (ofType type)
  match joined with
  | some domain => .ok domain
  | none => .error (.misuse .unmixable)

def trueWords : List String := ["true", "t", "yes", "y", "1"]

def falseWords : List String := ["false", "f", "no", "n", "0"]

def read? (domain : Domain) (s : String) : Option Value :=
  match domain with
  | text => some (.text s)
  | truth =>
    if trueWords.contains (Text.lower s) then some (.bool true)
    else if falseWords.contains (Text.lower s) then some (.bool false)
    else none
  | number => (Number.readInt? s).map .int <|> (Number.readDouble? s).map .real
  | date => (DateText.read? s).map .date

def convert (domain : Domain) (literal : Value) : Outcome Value :=
  match literal with
  | .text s =>
    match domain.read? s with
    | some value => .ok value
    | none => .error (.misuse .inconvertible)
  | literal => .ok literal

end Domain

namespace Condition

abbrev Columns := List (String × ColumnType)

variable (columns : Columns)

def columnType (name : String) : Outcome ColumnType :=
  match columns.lookup name with
  | some type => .ok type
  | none => .error (.misuse .noColumn)

/-- A test with an integer beyond those of a store: nothing equals it, and nothing has an order with
it. -/
def buildFarTest (field : String) : Operator → Outcome Filter
  | .equal => .ok (.member field [])
  | .notEqual => .ok (.combine .not [.member field []])
  | _ => Outcome.wrongType

/-- Builds one test. Equality with null asks for null. -/
def buildTest (field : String) (operator : Operator) (literal : Value) : Outcome Filter := do
  let type ← columnType columns field
  match operator with
  | .other name => .error (.invalid (.unsupportedTest name))
  | .isNull => return .test field .isNull literal
  | .isNotNull => return .test field .isNotNull literal
  | operator =>
    if literal.exceedsWord then buildFarTest field operator
    else if !type.comparesWith literal then .error (.misuse .incomparable)
    else
      match operator, literal with
      | .equal, .null => return .test field .isNull .null
      | .notEqual, .null => return .test field .isNotNull .null
      | operator, literal => return .test field operator literal

mutual

/-- Builds a condition, from left to right and operands first. -/
def build : Filter → Outcome Filter
  | .test field operator literal => buildTest columns field operator literal
  | .member field values => do
    discard (columnType columns field)
    if values.any Value.exceedsWord then .error (.misuse .unrepresentable)
    else return .member field values
  | .combine connective operands => do
    let built ← buildAll operands
    match connective, built with
    | _, [] => .error (.misuse .noOperand)
    | .not, operands => return .combine .not operands
    | .other _, [single] => return single
    | .other name, _ => .error (.invalid (.unsupportedConnective name))
    | connective, operands => return .combine connective operands

def buildAll : List Filter → Outcome (List Filter)
  | [] => .ok []
  | filter :: rest => do
    let first ← build filter
    return first :: (← buildAll rest)

end

/-- Converts the literal of a test to the domain of its column. -/
def convertTest (field : String) (operator : Operator) (literal : Value) : Outcome Filter := do
  if operator.isNullTest then return .test field operator literal
  else
    let type ← columnType columns field
    return .test field operator (← (Domain.ofType type).convert literal)

variable (rows : List Row)

/-- Converts the members of a list to the domain that they share with the column. A column of texts
that meets another domain is read text by text; the members are then those of its texts that read
as one of the literals. -/
def convertMembers (field : String) (values : List Value) : Outcome Filter := do
  let type ← columnType columns field
  let literals := values.filter fun v => !v.isNull
  let domain ← Domain.ofMembers type literals
  let converted ← values.mapM domain.convert
  if type = .string ∧ domain ≠ .text then
    let texts := Value.distinct ((rows.map fun row => row.get field).filter Value.isText)
    let readings ← texts.mapM fun text => do return (text, ← domain.convert text)
    let spelled := readings.filter fun reading => converted.any fun v => v.sameStored reading.2
    return .member field (spelled.map (·.1) ++ converted)
  else return .member field converted

mutual

def convert : Filter → Outcome Filter
  | .test field operator literal => convertTest columns field operator literal
  | .member field values => convertMembers columns rows field values
  | .combine connective operands => do
    return .combine connective (← convertAll operands)

def convertAll : List Filter → Outcome (List Filter)
  | [] => .ok []
  | filter :: rest => do
    let first ← convert filter
    return first :: (← convertAll rest)

end

end Condition

end Crosstab
