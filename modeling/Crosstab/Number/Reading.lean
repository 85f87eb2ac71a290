import Crosstab.Number.Double
import Crosstab.Text.Case

/-!
# Reading numerals

Integers and doubles from text. Blanks may stand around a numeral, digits may come from any script,
and single underscores may separate digits.
-/
namespace Crosstab.Number

def plainDigits (text : List Char) : List Char :=
  text.map fun c =>
    match Text.digit? c with
    | some value => Char.ofNat (48 + value)
    | none => c

/-- Takes out underscores; each must have a digit on both sides. `afterDigit` tells whether the
character before the text is a digit. -/
def dropUnderscores (afterDigit : Bool) : List Char → Option (List Char)
  | [] => some []
  | '_' :: rest =>
    match rest with
    | next :: _ =>
      if afterDigit && next.isDigit then dropUnderscores false rest else none
    | [] => none
  | c :: rest => (dropUnderscores c.isDigit rest).map (c :: ·)

/-- The numeral inside the surrounding blanks, in ordinary digits and without underscores. -/
def numeral? (text : String) : Option (List Char) :=
  dropUnderscores false (plainDigits (Text.trim Text.isNumeralBlank text.toList))

/-- Splits off a sign; `true` stands for minus. -/
def splitSign : List Char → Bool × List Char
  | '-' :: rest => (true, rest)
  | '+' :: rest => (false, rest)
  | text => (false, text)

def naturalValue (digits : List Char) : Nat :=
  Text.digitsValue (digits.map fun c => c.toNat - 48)

def digitLimit : Nat := 4300

/-- What a text says as an integer numeral. -/
inductive Numeral where
  | value (n : Int)
  /-- Too many digits stand at the front of the text, whatever follows them. -/
  | tooLong (digits : Nat)
  | malformed
  deriving DecidableEq, Repr

/-- Reads an integer numeral. The length of its leading digits is checked before the rest. -/
def readNumeral (text : String) : Numeral :=
  let (negative, body) := splitSign (plainDigits (Text.trim Text.isNumeralBlank text.toList))
  match dropUnderscores false (body.takeWhile fun c => c.isDigit || c == '_') with
  | none => .malformed
  | some digits =>
    if digitLimit < digits.length then .tooLong digits.length
    else if digits.isEmpty || !(body.dropWhile fun c => c.isDigit || c == '_').isEmpty then .malformed
    else .value (if negative then -(naturalValue digits : Int) else naturalValue digits)

def readInt? (text : String) : Option Int :=
  match readNumeral text with
  | .value n => some n
  | _ => none

/-- The exponent part of a numeral, which must be the whole text. -/
def readExponent? : List Char → Option Int
  | [] => some 0
  | mark :: rest =>
    if mark = 'e' ∨ mark = 'E' then
      let (negative, digits) := splitSign rest
      if digits.isEmpty || !digits.all Char.isDigit then none
      else some (if negative then -(naturalValue digits : Int) else naturalValue digits)
    else none

/-- The double nearest to `digits * 10 ^ exponent`. Decimals beyond all doubles are decided by their
length, so that no huge power is computed. -/
def ofScientific (negative : Bool) (digits : Nat) (exponent : Int) : Double :=
  let lead : Int := decimalLength digits + exponent
  if digits = 0 ∨ lead < -400 then Double.zero negative
  else if 400 < lead then Double.infinity negative
  else Double.ofDecimal negative digits exponent

/-- The double that a text writes: decimal notation, or a name of infinity or of no number. -/
def readDouble? (text : String) : Option Double := do
  let (negative, body) := splitSign (← numeral? text)
  let name := String.ofList (body.map Char.toLower)
  if name = "inf" ∨ name = "infinity" then some (Double.infinity negative)
  else if name = "nan" then some Double.nan
  else
    let whole := body.takeWhile Char.isDigit
    let rest := body.dropWhile Char.isDigit
    let (places, rest) :=
      match rest with
      | '.' :: more => (more.takeWhile Char.isDigit, more.dropWhile Char.isDigit)
      | other => ([], other)
    if whole.isEmpty && places.isEmpty then none
    else
      let exponent ← readExponent? rest
      some (ofScientific negative (naturalValue (whole ++ places)) (exponent - places.length))

end Crosstab.Number
