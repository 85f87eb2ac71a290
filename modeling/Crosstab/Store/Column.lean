import Crosstab.Filter
import Crosstab.Measure

/-!
# Typed columns

The types of the columns of a stored table, and the values that stand in them. In the aggregates over
a column nulls do not count, and a statistic of decimals is a decimal again.
-/
namespace Crosstab

inductive ColumnType where
  | int64
  | int32
  | float64
  | string
  | bool
  | date
  /-- Exact numbers with so many digits, of which so many stand behind the point. -/
  | decimal (digits places : Nat)
  deriving DecidableEq, Repr

inductive StoredValue where
  | plain (value : Value)
  /-- The count of units in the last of the places. -/
  | decimal (count : Int) (places : Nat)
  deriving Repr

namespace StoredValue

/-- Reads a decimal as it is written. -/
def ofDecimal? (text : String) : Option StoredValue :=
  match text.splitOn "." with
  | [whole] => do return decimal (← Number.readInt? whole) 0
  | [whole, places] => do return decimal (← Number.readInt? (whole ++ places)) places.length
  | _ => none

/-- The decimal nearest to a finite double; a half goes to the even neighbour. -/
def ofDouble (digits places : Nat) (x : Double) : Outcome StoredValue :=
  let (num, den) := x.quotient
  let count := Number.roundHalfEven (Nat.pow 10 places * num) den
  if !x.isFinite || Nat.pow 10 digits ≤ count then .error (.misuse .inexact)
  else .ok (decimal (if x.negative then -(count : Int) else count) places)

/-- The value as it is returned and compared with literals: a decimal becomes the nearest double. -/
def value : StoredValue → Value
  | plain value => value
  | decimal count places => .real (Double.nearest (decide (count < 0)) count.natAbs (Nat.pow 10 places))

/-- The value as it is returned; what is no number is null. -/
def returned (stored : StoredValue) : Value :=
  if stored.value.isNan then .null else stored.value

def isNull (stored : StoredValue) : Bool := stored.value.isNull

/-- Equality in a database, where null equals null in a grouping and decimals are exact. -/
def same : StoredValue → StoredValue → Bool
  | decimal m p, decimal n q => decide (m * Nat.pow 10 q = n * Nat.pow 10 p)
  | a, b => a.value.sameStored b.value

def below : StoredValue → StoredValue → Bool
  | decimal m p, decimal n q => decide (m * Nat.pow 10 q < n * Nat.pow 10 p)
  | a, b => a.value.belowStored b.value

def double (stored : StoredValue) : Double :=
  match stored.value.asDouble with
  | .ok x => x
  | .error _ => Double.nan

/-- The integer that a value is kept as: decimals as their count, truth values as zero and one. -/
def whole : StoredValue → Int
  | decimal count _ => count
  | plain value => value.whole?.getD 0

end StoredValue

/-- An integer fits into the integers of a store. -/
def fitsWord (n : Int) : Bool := decide (-9223372036854775808 ≤ n ∧ n ≤ 9223372036854775807)

def Value.exceedsWord : Value → Bool
  | int n => !fitsWord n
  | _ => false

namespace ColumnType

def ofName : String → ColumnType
  | "int64" => int64
  | "int32" => int32
  | "float64" => float64
  | "bool" => bool
  | "date32" => date
  | "decimal" => decimal 12 2
  | _ => string

def kind : ColumnType → Kind
  | int64 => .numeric
  | int32 => .numeric
  | float64 => .numeric
  | decimal .. => .numeric
  | string => .string
  | bool => .boolean
  | date => .temporal

def isNumeric (type : ColumnType) : Bool := type.kind.isNumeric

/-- Sums and deviations are defined for columns of this type. -/
def isSummable : ColumnType → Bool
  | string => false
  | date => false
  | _ => true

/-- A value stored in a column of this type: numbers in a column of doubles are doubles, and decimals
have the places of their column. -/
def store (type : ColumnType) (value : StoredValue) : StoredValue :=
  match type, value with
  | float64, .plain (.int n) => .plain (.real (Double.nearest (decide (n < 0)) n.natAbs 1))
  | decimal _ places, .plain (.int n) => .decimal (n * Nat.pow 10 places) places
  | decimal _ places, .decimal count written =>
    if written ≤ places then .decimal (count * Nat.pow 10 (places - written)) places else value
  | _, value => value

end ColumnType

/-! ### Statistics -/

namespace Statistic

def doubleTotal (values : List StoredValue) : Double :=
  values.foldl (fun total v => total.add v.double) (Double.zero false)

/-- The exact sum of integers, or of the counts of decimals. -/
def wholeTotal (values : List StoredValue) : Int :=
  values.foldl (fun total v => total + v.whole) 0

def ofNat (n : Nat) : Double := Double.nearest false n 1

/-- The quotient of an integer and a count, which has sixty-four binary places before it becomes a
double. -/
def extendedQuotient (total : Int) (divisor : Nat) : Double :=
  let num := total.natAbs
  if num = 0 then Double.zero false
  else
    let unit : Int := Double.binaryExponent num divisor - 63
    let scaled := Number.roundHalfEven (num <<< (-unit).toNat) (divisor <<< unit.toNat)
    Double.nearest (decide (total < 0)) (scaled <<< unit.toNat) (1 <<< (-unit).toNat)

/-- The sum of a column: an integer for integers, which must fit into a word. -/
def sum (type : ColumnType) (values : List StoredValue) : Outcome Value :=
  match type with
  | .float64 => .ok (.real (doubleTotal values))
  | .decimal _ places => .ok (StoredValue.decimal (wholeTotal values) places).value
  | _ =>
    let total := wholeTotal values
    if fitsWord total then .ok (.int total) else .error (.misuse .inexact)

def mean (type : ColumnType) (values : List StoredValue) : Outcome Value :=
  match type with
  | .float64 => .ok (.real ((doubleTotal values).div (ofNat values.length)))
  | .decimal digits places => do
    let quotient := extendedQuotient (wholeTotal values) (Nat.pow 10 places * values.length)
    return (← StoredValue.ofDouble digits places quotient).value
  | _ => .ok (.real (extendedQuotient (wholeTotal values) values.length))

/-- The least value, or the greatest; the last of equals. -/
def extreme (greatest : Bool) (first : StoredValue) (rest : List StoredValue) : Value :=
  (rest.foldl (fun best v =>
    let better := if greatest then v.below best else best.below v
    if better then best else v) first).value

def sorted (values : List StoredValue) : List StoredValue :=
  values.mergeSort fun a b => !b.below a

def share (percent : Nat) : Double := Double.nearest false percent 100

/-- The quantile of values that have no values between them: the first one with at least the share of
the column up to it. -/
def discreteQuantile (percent : Nat) (values : List StoredValue) : Value :=
  let size := values.length
  let above := ((ofNat size).sub ((ofNat size).mul (share percent))).truncate.toNat
  ((sorted values)[max 1 (size - above) - 1]?).elim .null StoredValue.value

/-- The quantile of numbers: the value at its position in the sorted column, linear between
neighbours. Between decimals the part beyond their places is dropped. -/
def continuousQuantile (type : ColumnType) (percent : Nat) (values : List StoredValue) : Value :=
  let position := (ofNat (values.length - 1)).mul (share percent)
  let index := position.truncate.toNat
  let weight := position.sub (ofNat index)
  let sorted := sorted values
  match sorted[index]?, sorted[if weight.isZero then index else index + 1]? with
  | some low, some high =>
    if weight.isZero then .real low.double
    else
      match type with
      | .decimal _ places =>
        let step := (Double.nearest (decide (high.whole < low.whole)) (high.whole - low.whole).natAbs 1)
        let start := Double.nearest (decide (low.whole < 0)) low.whole.natAbs 1
        (StoredValue.decimal (start.add (step.mul weight)).truncate places).value
      | _ => .real ((low.double.mul ((ofNat 1).sub weight)).add (high.double.mul weight))
  | _, _ => .null

def quantile (type : ColumnType) (percent : Nat) (values : List StoredValue) : Value :=
  if type.isNumeric then continuousQuantile type percent values else discreteQuantile percent values

/-- The running state of the deviation: how many values, their mean, and the sum of squares. -/
structure Spread where
  count : Nat
  mean : Double
  squares : Double

def Spread.start : Spread := ⟨0, Double.zero false, Double.zero false⟩

def Spread.push (spread : Spread) (x : Double) : Spread :=
  let n := spread.count + 1
  let difference := x.sub spread.mean
  let mean := spread.mean.add (difference.div (ofNat n))
  ⟨n, mean, spread.squares.add (difference.mul (x.sub mean))⟩

/-- The sample standard deviation, in the order of the rows; it takes at least two values. -/
def deviation (type : ColumnType) (values : List StoredValue) : Outcome Value :=
  let spread := values.foldl (fun spread v => spread.push v.double) Spread.start
  if spread.count < 2 then .ok .null
  else
    let root := (spread.squares.div (ofNat (spread.count - 1))).sqrt
    match type with
    | .decimal digits places => do return (← StoredValue.ofDouble digits places root).value
    | _ => .ok (.real root)

def distinct (values : List StoredValue) : List StoredValue :=
  values.foldl (fun kept v => if kept.any (StoredValue.same · v) then kept else kept ++ [v]) []

def compute (name : String) (type : ColumnType) (values : List StoredValue) : Outcome Value :=
  let present := values.filter fun v => !v.isNull
  if name = "count" then .ok (.int (distinct present).length)
  else
    match present with
    | [] => .ok .null
    | first :: rest =>
      match name with
      | "sum" => sum type present
      | "mean" => mean type present
      | "min" => .ok (extreme false first rest)
      | "max" => .ok (extreme true first rest)
      | "median" => .ok (quantile type 50 present)
      | "stdev" => deviation type present
      | _ => .ok (quantile type ((Aggregate.percentile? name).getD 0) present)

end Statistic

end Crosstab
