import Crosstab.Error

/-!
# Schemas

The fields of a source and their kinds. A kind may be given by name, or follow from the type of a
column.
-/
namespace Crosstab

inductive Kind where
  | numeric
  | string
  | temporal
  | boolean
  | other
  /-- A kind that was given under another name; nothing is known of it. -/
  | foreign (label : Value)
  deriving Repr

namespace Kind

def ofLabel : Value → Kind
  | .text "numeric" => numeric
  | .text "string" => string
  | .text "temporal" => temporal
  | .text "boolean" => boolean
  | .text "other" => other
  | label => foreign label

def label : Kind → Value
  | numeric => .text "numeric"
  | string => .text "string"
  | temporal => .text "temporal"
  | boolean => .text "boolean"
  | other => .text "other"
  | foreign label => label

def isNumeric : Kind → Bool
  | numeric => true
  | _ => false

end Kind

/-! ### Names of types -/

def sizedNumberTypes : List String :=
  ["int8", "int16", "int32", "int64", "uint8", "uint16", "uint32", "uint64", "float16", "float32",
   "float64"]

namespace Kind

/-- The types of the columns of a file, by kind. Durations count as temporal, and so do intervals. -/
def columnTypes : List (Kind × List String) :=
  [(numeric, sizedNumberTypes ++ ["decimal128", "decimal256"]),
   (string, ["string", "utf8", "large_string", "large_utf8", "dictionary", "dictionary_int"]),
   (temporal, ["date32", "date64", "time32", "time64", "timestamp", "timestamp_tz", "duration",
     "interval", "month_day_nano_interval"]),
   (boolean, ["bool", "bool_"]),
   (other, ["null", "binary", "large_binary", "binary_view", "string_view", "fixed_binary", "list",
     "struct", "map", "bool8", "uuid", "json_"])]

/-- Types of a file's columns that stand for nothing without their parameters. -/
def openColumnTypes : List String :=
  ["decimal32", "decimal64", "list_", "large_list", "list_view", "large_list_view", "map_", "union",
   "sparse_union", "dense_union", "run_end_encoded", "fixed_shape_tensor", "opaque", "field"]

def ofColumnType (name : String) : Outcome Kind :=
  match columnTypes.find? (·.2.contains name) with
  | some (kind, _) => .ok kind
  | none => if openColumnTypes.contains name then Outcome.wrongType else Outcome.noMember

end Kind

inductive TypeToken where
  | word (letters : List Char)
  | quote (text : List Char)
  | mark (c : Char)
  deriving DecidableEq, Repr

namespace TypeToken

def isWordChar (c : Char) : Bool := c.isAlphanum || c == '_'

/-- The token that starts with `c`, and what follows it. A quotation ends with its own quote. -/
def next (c : Char) (rest : List Char) : TypeToken × List Char :=
  if isWordChar c then
    (word (c :: rest.takeWhile isWordChar), rest.dropWhile isWordChar)
  else if c = '\'' ∨ c = '"' then
    match rest.dropWhile (· != c) with
    | _ :: after => (quote (rest.takeWhile (· != c)), after)
    | [] => (mark c, rest)
  else (mark c, rest)

/-- The tokens of a text; the fuel bounds their number. -/
def scan : Nat → List Char → List TypeToken
  | 0, _ => []
  | _ + 1, [] => []
  | fuel + 1, c :: rest =>
    if Text.isBlank c then scan fuel rest
    else
      let (token, rest) := next c rest
      token :: scan fuel rest

def ofText (text : String) : List TypeToken :=
  let letters := (Text.lower text).toList
  scan letters.length letters

end TypeToken

namespace Kind

/-- Database types without parameters, by kind. -/
def plainTypes : List (Kind × List String) :=
  [(boolean, ["boolean", "bool"]),
   (numeric, sizedNumberTypes ++ ["int", "halffloat", "float", "double"]),
   (string, ["string", "str"]),
   (temporal, ["date", "time"]),
   (other, ["null", "binary", "bytes", "uuid", "json", "jsonb", "inet", "macaddr", "point",
     "linestring", "polygon", "multipoint", "multilinestring", "multipolygon", "geography",
     "geometry"])]

def intervalUnits : List String :=
  ["y", "q", "m", "w", "d", "h", "s", "ms", "us", "ns", "year", "quarter", "month", "week", "day",
   "hour", "minute", "second", "millisecond", "microsecond", "nanosecond", "years", "quarters",
   "months", "weeks", "days", "hours", "minutes", "seconds", "milliseconds", "microseconds",
   "nanoseconds"]

def isCount (letters : List Char) : Bool := !letters.isEmpty && letters.all Char.isDigit

/-- A kind that a type expression begins with, and the tokens after it. -/
abbrev Reading := Outcome (Kind × List TypeToken)

def unreadable : Reading := .error (.misuse .unknownType)

/-- The precision and the scale of a decimal, which may be left out. The scale is part of the
precision. -/
def readDecimal : List TypeToken → Reading
  | .mark '(' :: .word precision :: .mark ',' :: .word scale :: .mark ')' :: rest =>
    if isCount precision && isCount scale then
      let precision := Number.naturalValue precision
      let scale := Number.naturalValue scale
      if precision = 0 then .error (.invalid .noDecimalPrecision)
      else if precision < scale then .error (.invalid (.scaleBeyondPrecision precision scale))
      else .ok (numeric, rest)
    else unreadable
  | rest => .ok (numeric, rest)

def readWidth : List TypeToken → Reading
  | .mark '(' :: .word width :: .mark ')' :: rest =>
    if isCount width then .ok (string, rest) else unreadable
  | rest => .ok (string, rest)

/-- The zone and the scale of an instant, either of which may be left out. A scale is one digit. -/
def readInstant : List TypeToken → Reading
  | .mark '(' :: .word [scale] :: .mark ')' :: rest =>
    if scale.isDigit then .ok (temporal, rest) else unreadable
  | .mark '(' :: .quote _ :: .mark ')' :: rest => .ok (temporal, rest)
  | .mark '(' :: .quote _ :: .mark ',' :: .word [scale] :: .mark ')' :: rest =>
    if scale.isDigit then .ok (temporal, rest) else unreadable
  | rest => .ok (temporal, rest)

def readInterval : List TypeToken → Reading
  | .mark '(' :: .quote unit :: .mark ')' :: rest =>
    if intervalUnits.contains (String.ofList unit) then .ok (other, rest) else unreadable
  | rest => .ok (other, rest)

/-- The mark that must follow an element type, and the tokens after it. -/
def expect (mark : Char) : List TypeToken → Outcome (List TypeToken)
  | .mark c :: rest => if c = mark then .ok rest else .error (.misuse .unknownType)
  | _ => .error (.misuse .unknownType)

mutual

/-- Reads one type. The fuel bounds the depth and the number of element types. -/
def readType : Nat → List TypeToken → Reading
  | 0, _ => unreadable
  | fuel + 1, .mark '!' :: rest => readType fuel rest
  | fuel + 1, .word letters :: rest =>
    match String.ofList letters, rest with
    | "decimal", rest => readDecimal rest
    | "bignumeric", rest => readDecimal rest
    | "bigdecimal", rest => readDecimal rest
    | "varchar", rest => readWidth rest
    | "char", rest => readWidth rest
    | "timestamp", rest => readInstant rest
    | "interval", rest => readInterval rest
    | "array", .mark '<' :: rest => do
      let (_, rest) ← readType fuel rest
      return (other, ← expect '>' rest)
    | "map", .mark '<' :: rest => do
      let (_, rest) ← readType fuel rest
      let (_, rest) ← readType fuel (← expect ',' rest)
      return (other, ← expect '>' rest)
    | "struct", .mark '<' :: .mark '>' :: rest => .ok (other, rest)
    | "struct", .mark '<' :: rest => readMembers fuel rest
    | name, rest =>
      match plainTypes.find? (·.2.contains name) with
      | some (kind, _) => .ok (kind, rest)
      | none => unreadable
  | _ + 1, _ => unreadable

/-- Reads the named members of a record up to the closing bracket. -/
def readMembers : Nat → List TypeToken → Reading
  | 0, _ => unreadable
  | fuel + 1, .word _ :: .mark ':' :: rest => do
    match ← readType fuel rest with
    | (_, .mark ',' :: rest) => readMembers fuel rest
    | (_, .mark '>' :: rest) => return (other, rest)
    | _ => unreadable
  | _ + 1, _ => unreadable

end

/-- The kind of a column of a database. A leading mark says that the column has no nulls, which does
not matter here. The expression must be one type and nothing more. -/
def ofStoredType (text : String) : Outcome Kind := do
  let tokens := TypeToken.ofText text
  match ← readType (tokens.length + 1) tokens with
  | (kind, []) => return kind
  | _ => .error (.misuse .unknownType)

end Kind

/-! ### Fields -/

structure Schema where
  fields : List (String × Kind)
  deriving Repr

namespace Schema

def kind? (schema : Schema) (name : String) : Option Kind := schema.fields.lookup name

def hasField (schema : Schema) (name : String) : Bool := (schema.kind? name).isSome

def isNumeric (schema : Schema) (name : String) : Bool :=
  match schema.kind? name with
  | some kind => kind.isNumeric
  | none => false

def field? (schema : Schema) (name : Value) : Outcome (Option String) := do
  match ← name.asKey with
  | .text s => return if schema.hasField s then some s else none
  | _ => return none

/-- A schema from columns and their kinds; of columns with one name the last one counts. -/
def ofKinds (columns : List (String × Kind)) : Schema where
  fields := columns.foldl (fun fields column => fields.filter (·.1 != column.1) ++ [column]) []

/-- A schema from columns and their types. A type that has no kind spoils the whole schema. -/
def ofColumns (kind : String → Outcome Kind) (columns : List (String × String)) : Outcome Schema := do
  return ofKinds (← columns.mapM fun column => do return (column.1, ← kind column.2))

def ofNames (texts numbers : List String) : Schema :=
  ⟨texts.map (·, .string) ++ numbers.map (·, .numeric)⟩

end Schema

end Crosstab
