import Crosstab.Error

/-!
# Display of cell values

How a raw value is shown under a format: an amount of money, a share, an integer, a fixed number of
places, or plainly. Shares are laid out by a number of places or by a whole layout.
-/
namespace Crosstab

/-! ### Layouts -/

inductive Alignment where
  | left
  | right
  | centre
  /-- The sign stands left, and the digits stand right. -/
  | apart
  deriving DecidableEq, Repr

def Alignment.ofMark? : Char → Option Alignment
  | '<' => some left
  | '>' => some right
  | '^' => some centre
  | '=' => some apart
  | _ => none

structure Layout where
  places : Nat
  alignment : Alignment := .right
  width : Nat := 0
  /-- What stands before a number that is not negative. -/
  positiveSign : List Char := []
  /-- What rounds to zero counts as not negative. -/
  unsignedZero : Bool := false
  /-- A point ends a number without places. -/
  pointed : Bool := false
  separator : Option Char := none
  deriving Repr

namespace Layout

/-- The largest number that a setting can hold. -/
def writtenLimit : Nat := 9223372036854775807

def placesLimit : Nat := 2147483647

def usualPlaces : Nat := 6

/-- A run of digits at the start of a text, if there is one, and what follows it. -/
def readCount (text : List Char) : Outcome (Option Nat × List Char) :=
  let digits := text.takeWhile Text.isDigit
  let count := Text.digitsValue (digits.map fun c => (Text.digit? c).getD 0)
  if writtenLimit < count then .error (.invalid .precisionTooLong)
  else .ok (if digits.isEmpty then none else some count, text.drop digits.length)

def readMark (mark : Char) : List Char → Bool × List Char
  | c :: rest => if c = mark then (true, rest) else (false, c :: rest)
  | [] => (false, [])

/-- The sign of numbers that are not negative; the sign of negative ones may be asked for as well. -/
def readSign : List Char → List Char × List Char
  | '+' :: rest => (['+'], rest)
  | ' ' :: rest => ([' '], rest)
  | '-' :: rest => ([], rest)
  | text => ([], text)

/-- The separator of thousands. There is at most one. -/
def readSeparator (text : List Char) : Outcome (Option Char × List Char) :=
  let (comma, text) := readMark ',' text
  let (bar, text) := readMark '_' text
  if bar && (comma || (readMark ',' text).1) then .error (.invalid .twoSeparators)
  else .ok (if comma then some ',' else if bar then some '_' else none, text)

/-- Reads the places, which end a setting, for values of the named type. -/
def readPlaces (setting type : String) (text : List Char) : Outcome Nat := do
  match ← readCount text with
  | (none, _) => .error (.invalid .missingPrecision)
  | (some count, []) => return count
  | (some _, _) => .error (.invalid (.precisionMalformed setting type))

def readField (setting type : String) (alignment : Alignment) (text : List Char) : Outcome Layout := do
  let (positiveSign, text) := readSign text
  let (unsignedZero, text) := readMark 'z' text
  let (pointed, text) := readMark '#' text
  let (width, text) ← readCount text
  let (separator, text) ← readSeparator text
  let places ←
    match text with
    | [] => pure usualPlaces
    | '.' :: text => readPlaces setting type text
    | _ => .error (.invalid (.precisionMalformed setting type))
  return {
    places, alignment, positiveSign, unsignedZero, pointed, separator, width := width.getD 0 }

def ofSetting (setting type : String) : Outcome Layout :=
  match setting.toList with
  | [] => .error (.invalid .missingPrecision)
  | mark :: text =>
    match Alignment.ofMark? mark with
    | some alignment => readField setting type alignment text
    | none => do return { places := ← readPlaces setting type (mark :: text) }

def fill (layout : Layout) (sign body : List Char) : List Char :=
  let room := layout.width - (sign.length + body.length)
  let points (count : Nat) := List.replicate count '.'
  match layout.alignment with
  | .left => sign ++ body ++ points room
  | .right => points room ++ sign ++ body
  | .centre => points (room / 2) ++ sign ++ body ++ points (room - room / 2)
  | .apart => sign ++ points room ++ body

def render (layout : Layout) (x : Double) : String :=
  let shown := (Number.fixed layout.separator.isSome layout.places x.abs).toList
  let pointed := layout.pointed && x.isFinite && layout.places == 0
  let body := shown.map (fun c => if c = ',' then layout.separator.getD ',' else c) ++
    if pointed then ['.'] else []
  let zero := layout.unsignedZero && body.all fun c => !(c.isDigit && c != '0') && !c.isAlpha
  String.ofList (layout.fill (if x.negative && !zero then ['-'] else layout.positiveSign) body)

end Layout

/-! ### Formats -/

inductive Display where
  | currency
  | percent
  | integer
  | places (count : Nat)
  | general
  deriving DecidableEq, Repr

namespace Display

/-- The text with one final line break removed; a pattern may end before it. -/
def withoutFinalBreak (text : List Char) : List Char :=
  match text.reverse with
  | '\n' :: rest => rest.reverse
  | _ => text

/-- The digits after a keyword and a point, which must fill the text. -/
def placesAfter? (keyword : String) (name : List Char) : Option (List Nat) :=
  let lead := keyword.toList ++ ['.']
  if lead.isPrefixOf name then
    let digits := (withoutFinalBreak (name.drop lead.length)).map Text.digit?
    if digits.isEmpty || digits.any Option.isNone then none
    else some (digits.map (·.getD 0))
  else none

/-- The display that a format name in lower case stands for; unknown names show plainly. -/
def ofName (name : String) : Outcome Display :=
  if name = "currency" then .ok currency
  else if name = "percent" then .ok percent
  else if name = "integer" then .ok integer
  else
    match placesAfter? "decimal" name.toList <|> placesAfter? "comma" name.toList with
    | some digits =>
      if Number.digitLimit < digits.length then .error (.invalid (.numeralTooLong digits.length))
      else .ok (places (Text.digitsValue digits))
    | none => .ok general

def ofFormat (format : Value) : Outcome Display :=
  if format.truthy then do ofName (Text.lower (← format.asText)) else .ok general

/-- A value with fixed places and commas between groups of three digits. A date has no digits to place
and shows the pattern itself. -/
def fixedText (count : Nat) (value : Value) : Outcome String :=
  match value with
  | .date _ => .ok (",." ++ toString count ++ "f")
  | .text _ =>
    .error (.invalid (if Layout.writtenLimit < count then .precisionTooLong else .textAsNumber))
  | other =>
    if other.quantity?.isSome && decide (Layout.writtenLimit < count) then
      .error (.invalid .precisionTooLong)
    else do
      let x ← other.asDouble
      if Layout.placesLimit < count then .error (.invalid .precisionTooBig)
      else return Number.fixed true count x

def magnitude : Value → Outcome Value
  | .bool b => .ok (.int b.toNat)
  | .int n => .ok (.int n.natAbs)
  | .real x => .ok (.real x.abs)
  | _ => Outcome.wrongType

def currencyText (value : Value) : Outcome String := do
  match value.less? (.int 0) with
  | none => Outcome.wrongType
  | some negative =>
    let amount ← fixedText 2 (← magnitude value)
    return (if negative then "-$" else "$") ++ amount

/-- A hundred times a value, with the name of its type; a text repeats and stays a text. -/
def hundredfold : Value → Outcome (Value × String)
  | .bool b => .ok (.int (100 * b.toNat), "int")
  | .int n => .ok (.int (100 * n), "int")
  | .real x => .ok (.real (x.mul (Double.nearest false 100 1)), "float")
  | .text s => .ok (.text s, "str")
  | _ => Outcome.wrongType

def percentText (decimals : Value) (value : Value) : Outcome String := do
  let (share, type) ← hundredfold value
  let layout ← Layout.ofSetting decimals.plain type
  match share with
  | .text _ => .error (.invalid .textAsNumber)
  | share =>
    let x ← share.asDouble
    if Layout.placesLimit < layout.places then .error (.invalid .precisionTooBig)
    else return layout.render x ++ "%"

def trimZeros (text : String) : String :=
  let kept := text.toList.reverse.dropWhile (· == '0')
  String.ofList (kept.dropWhile (· == '.')).reverse

/-- Whole numbers with all their digits, others with at most two places. -/
def generalText (value : Value) : Outcome String :=
  match value with
  | .bool b => .ok (Number.groupedInt b.toNat)
  | .int n => .ok (Number.groupedInt n)
  | .real x =>
    if x.isWhole then .ok (Number.groupedInt x.truncate)
    else .ok (trimZeros (Number.fixed true 2 x))
  | other => do return trimZeros (← fixedText 2 other)

/-- Shows a value; `decimals` is the number of places of a share. -/
def render (display : Display) (decimals : Value) (value : Value) : Outcome String :=
  match display with
  | currency => currencyText value
  | percent => percentText decimals value
  | integer => fixedText 0 value
  | places count => fixedText count value
  | general => generalText value

end Display

/-- The text shown for a raw value under a format. Nothing is shown for null and for what is no
number, whatever the format. -/
def formatValue (value format decimals : Value) : Outcome String :=
  if value.isNull || value.isNan then .ok ""
  else do (← Display.ofFormat format).render decimals value

end Crosstab
