/-!
# Doubles

Binary floating point numbers of 64 bits. All arithmetic is exact arithmetic on rationals followed
by one rounding to the nearest integer, with halves going to the even neighbour.
-/
namespace Crosstab

namespace Number

/-- The integer nearest to `num / den`; a half goes to the even neighbour. -/
def roundHalfEven (num den : Nat) : Nat :=
  let quotient := num / den
  let twice := 2 * (num % den)
  if twice < den then quotient
  else if den < twice then quotient + 1
  else quotient + quotient % 2

/-- The greatest integer whose square is at most `n`. -/
def squareRoot (n : Nat) : Nat :=
  if n = 0 then 0
  else
    let root := 2 * squareRoot (n / 4)
    if (root + 1) * (root + 1) ≤ n then root + 1 else root
termination_by n

/-- The number of decimal digits of `n`; zero has none. -/
def decimalLength (n : Nat) : Nat :=
  if n = 0 then 0 else (Nat.toDigits 10 n).length

/-- The greatest `e` with `10 ^ e ≤ num / den`, for a positive quotient. -/
def decimalExponent (num den : Nat) : Int :=
  if den ≤ num then decimalLength (num / den) - 1
  else - (decimalLength ((den + num - 1) / num - 1) : Int)

end Number

/-- Two to the power of 52, the number of fractions. -/
abbrev Double.fractionCount : Nat := 4503599627370496

structure Double where
  negative : Bool
  exponent : Fin 2048
  fraction : Fin Double.fractionCount
  deriving DecidableEq, Repr

namespace Double

/-- The magnitude code of infinity; all finite codes are smaller. -/
def infinityCode : Nat := 2047 * fractionCount

/-- The double with a sign and a magnitude code; codes past infinity are infinity. -/
def ofCode (negative : Bool) (code : Nat) : Double :=
  let code := min code infinityCode
  { negative
    exponent := Fin.ofNat 2048 (code / fractionCount)
    fraction := Fin.ofNat fractionCount (code % fractionCount) }

def zero (negative : Bool) : Double := ofCode negative 0

def infinity (negative : Bool) : Double := ofCode negative infinityCode

/-- A double that is no number. Their tags tell several of them apart, which no arithmetic does. -/
def tagged (tag : Nat) : Double :=
  { negative := false
    exponent := 2047
    fraction := Fin.ofNat fractionCount (fractionCount / 2 + tag % (fractionCount / 2)) }

def nan : Double := tagged 0

variable (x : Double)

def isNan : Bool := x.exponent.val == 2047 && x.fraction.val != 0

def isInfinite : Bool := x.exponent.val == 2047 && x.fraction.val == 0

def isFinite : Bool := x.exponent.val != 2047

def isZero : Bool := x.exponent.val == 0 && x.fraction.val == 0

/-- The integer `m` of a finite magnitude `m * 2 ^ power`. -/
def significand : Nat :=
  if x.exponent.val = 0 then x.fraction.val else fractionCount + x.fraction.val

def power : Int := max x.exponent.val 1 - 1075

/-- Numerator and denominator of a finite magnitude. -/
def quotient : Nat × Nat :=
  (x.significand <<< x.power.toNat, 1 <<< (-x.power).toNat)

def toRat : Rat :=
  let (num, den) := x.quotient
  let magnitude : Rat := mkRat num den
  if x.negative then -magnitude else magnitude

/-- The greatest `k` with `2 ^ k ≤ num / den`, for a positive quotient. -/
def binaryExponent (num den : Nat) : Int :=
  let guess : Int := (num.log2 : Int) - den.log2
  if den <<< guess.toNat ≤ num <<< (-guess).toNat then guess else guess - 1

/-- The double nearest to a quotient of naturals; a half goes to the even fraction, and what is too
large becomes infinity. -/
def nearest (negative : Bool) (num den : Nat) : Double :=
  if num = 0 then zero negative
  else
    let unit : Int := max (binaryExponent num den - 52) (-1074)
    let scaled := Number.roundHalfEven (num <<< (-unit).toNat) (den <<< unit.toNat)
    ofCode negative ((unit + 1074).toNat * fractionCount + scaled)

/-- The double nearest to a rational; zero has the sign given. -/
def ofRat (q : Rat) (negativeZero : Bool) : Double :=
  if q.num = 0 then zero negativeZero else nearest (decide (q.num < 0)) q.num.natAbs q.den

/-- The double nearest to an integer, if it is in range. -/
def ofInt? (n : Int) : Option Double :=
  let x := nearest (decide (n < 0)) n.natAbs 1
  if x.isFinite then some x else none

def neg (x : Double) : Double := { x with negative := !x.negative }

def abs (x : Double) : Double := { x with negative := false }

def add (x y : Double) : Double :=
  if x.isNan || y.isNan then nan
  else if x.isInfinite then (if y.isInfinite && x.negative != y.negative then nan else x)
  else if y.isInfinite then y
  else ofRat (x.toRat + y.toRat) (x.negative && y.negative)

def sub (x y : Double) : Double := add x y.neg

def mul (x y : Double) : Double :=
  let negative := x.negative != y.negative
  if x.isNan || y.isNan then nan
  else if x.isInfinite || y.isInfinite then
    (if x.isZero || y.isZero then nan else infinity negative)
  else ofRat (x.toRat * y.toRat) negative

/-- The quotient of two doubles; a zero divisor gives infinity or no number. -/
def div (x y : Double) : Double :=
  let negative := x.negative != y.negative
  if x.isNan || y.isNan || (x.isInfinite && y.isInfinite) || (x.isZero && y.isZero) then nan
  else if x.isInfinite || y.isZero then infinity negative
  else if y.isInfinite then zero negative
  else ofRat (x.toRat / y.toRat) negative

/-- The binary places to which a root is taken: enough for the least double and 64 more. -/
def rootBits : Nat := 664

/-- The square root. The extra places and a mark for the remainder decide the rounding. -/
def sqrt (x : Double) : Double :=
  if x.isNan || x.isZero then x
  else if x.negative then nan
  else if x.isInfinite then x
  else
    let (num, den) := x.quotient
    let scaled := num <<< (2 * rootBits)
    let square := scaled / den
    let root := Number.squareRoot square
    let exact := root * root * den == scaled
    nearest false (2 * root + if exact then 0 else 1) (1 <<< (rootBits + 1))

/-- The integer part of a finite double, rounding toward zero. -/
def truncate (x : Double) : Int :=
  let (num, den) := x.quotient
  let whole : Int := num / den
  if x.negative then -whole else whole

def isWhole (x : Double) : Bool :=
  x.isFinite && x.quotient.1 % x.quotient.2 == 0

end Double

/-! ### Fixed places -/

namespace Number

/-- Puts a comma before every third digit, counted from the end. The digits come last one first. -/
def groupReversed : List Char → List Char
  | a :: b :: c :: d :: rest => a :: b :: c :: ',' :: groupReversed (d :: rest)
  | short => short

def groupThousands (digits : List Char) : List Char := (groupReversed digits.reverse).reverse

/-- The digits of `n`, at least `width` of them. -/
def paddedDigits (width n : Nat) : List Char :=
  let digits := Nat.toDigits 10 n
  List.replicate (width - digits.length) '0' ++ digits

/-- The exact quotient rounded to `places` decimals, halves to even. -/
def fixedMagnitude (grouped : Bool) (places num den : Nat) : String :=
  let digits := paddedDigits (places + 1) (roundHalfEven (num * Nat.pow 10 places) den)
  let whole := digits.take (digits.length - places)
  let whole := if grouped then groupThousands whole else whole
  let rest := digits.drop (digits.length - places)
  String.ofList (if places = 0 then whole else whole ++ '.' :: rest)

/-- A double with fixed places; the sign of what rounds to zero is kept. -/
def fixed (grouped : Bool) (places : Nat) (x : Double) : String :=
  if x.isNan then "nan"
  else
    let sign := if x.negative then "-" else ""
    if x.isInfinite then sign ++ "inf"
    else sign ++ fixedMagnitude grouped places x.quotient.1 x.quotient.2

/-- An integer with a comma between groups of three digits. -/
def groupedInt (n : Int) : String :=
  (if n < 0 then "-" else "") ++ String.ofList (groupThousands (Nat.toDigits 10 n.natAbs))

end Number

/-! ### Shortest decimals -/

namespace Double

/-- The double that the decimal `digits * 10 ^ exponent` reads as. -/
def ofDecimal (negative : Bool) (digits : Nat) (exponent : Int) : Double :=
  nearest negative (digits * Nat.pow 10 exponent.toNat) (Nat.pow 10 (-exponent).toNat)

/-- Numerator and denominator of `|x|` in multiples of `10 ^ unit`. -/
def inUnits (x : Double) (unit : Int) : Nat × Nat :=
  (x.quotient.1 * Nat.pow 10 (-unit).toNat, x.quotient.2 * Nat.pow 10 unit.toNat)

/-- The multiple of `10 ^ unit` nearest to `|x|`. -/
def nearestOn (x : Double) (unit : Int) : Nat :=
  Number.roundHalfEven (x.inUnits unit).1 (x.inUnits unit).2

/-- Of the two neighbours of `|x|` on the grid of multiples of `10 ^ unit`, those that read back as
`|x|`; the nearer one if both do, and the even one if both are as near. -/
def readsBackOn? (x : Double) (unit : Int) : Option Nat :=
  let below := (x.inUnits unit).1 / (x.inUnits unit).2
  let reads (digits : Nat) : Bool := ofDecimal false digits unit == x.abs
  match reads below, reads (below + 1) with
  | true, true => some (x.nearestOn unit)
  | true, false => some below
  | false, true => some (below + 1)
  | false, false => none

/-- Tries one more digit at a time, from `unit` downwards, and settles for the nearest decimal when
no try is left. -/
def shortestFrom (x : Double) : Nat → Int → Nat × Int
  | 0, unit => (x.nearestOn unit, unit)
  | fuel + 1, unit =>
    match x.readsBackOn? unit with
    | some digits => (digits, unit)
    | none => shortestFrom x fuel (unit - 1)

/-- Digits and exponent of the shortest decimal of a finite nonzero magnitude; seventeen digits
always read back. -/
def shortest (x : Double) : Nat × Int :=
  shortestFrom x 17 (Number.decimalExponent x.quotient.1 x.quotient.2)

def exponentText (exponent : Int) : String :=
  let digits := toString exponent.natAbs
  let padded := if digits.length < 2 then "0" ++ digits else digits
  (if exponent < 0 then "e-" else "e+") ++ padded

/-- The text of a finite nonzero magnitude whose shortest decimal is `digits * 10 ^ exponent`. -/
def decimalText (digits : Nat) (exponent : Int) : String :=
  let figures := Nat.toDigits 10 digits
  let figures := (figures.reverse.dropWhile (· == '0')).reverse
  let lead : Int := (Nat.toDigits 10 digits).length - 1 + exponent
  if -4 ≤ lead ∧ lead < 16 then
    if lead < 0 then
      String.ofList ('0' :: '.' :: (List.replicate (-lead - 1).toNat '0' ++ figures))
    else
      let whole := lead.toNat + 1
      let padded := figures ++ List.replicate (whole - figures.length) '0'
      let rest := figures.drop whole
      String.ofList (padded.take whole ++ '.' :: (if rest.isEmpty then ['0'] else rest))
  else
    let mantissa :=
      match figures with
      | [] => ['0']
      | [single] => [single]
      | first :: rest => first :: '.' :: rest
    String.ofList mantissa ++ exponentText lead

/-- The text of a double: the fewest digits that read back. -/
def text (x : Double) : String :=
  if x.isNan then "nan"
  else
    let sign := if x.negative then "-" else ""
    if x.isInfinite then sign ++ "inf"
    else if x.isZero then sign ++ "0.0"
    else
      let (digits, exponent) := x.shortest
      sign ++ decimalText digits exponent

end Double

end Crosstab
