import Crosstab.Error

/-!
# Arithmetic on values

Sums, means and quotients of numbers. Integers stay exact until they meet a double; means and
quotients of integers are rounded once.
-/
namespace Crosstab.Value

/-- The sum of two numbers: exact for integers, rounded once a double takes part. -/
def add (a b : Value) : Outcome Value :=
  match a.whole?, b.whole? with
  | some m, some n => .ok (int (m + n))
  | _, _ => do return real ((← a.asDouble).add (← b.asDouble))

def sum (values : List Value) : Outcome Value := values.foldlM add (int 0)

/-- The double nearest to a quotient of integers, if it is in range. -/
def intQuotient (num den : Int) : Outcome Value :=
  let x := Double.nearest (decide (num < 0) != decide (den < 0)) num.natAbs den.natAbs
  if x.isFinite then .ok (real x) else .error (.misuse .overflow)

def divide (a b : Value) : Outcome Value :=
  match a.whole?, b.whole? with
  | some m, some n => intQuotient m n
  | _, _ => do return real ((← a.asDouble).div (← b.asDouble))

/-- The exact sum of the finite numbers among some values, and the sum of the others. -/
def exactSum : List Value → Outcome (Rat × Option Double)
  | [] => .ok (0, none)
  | v :: rest => do
    match v with
    | real x =>
      if x.isFinite then
        let (total, special) ← exactSum rest
        return (x.toRat + total, special)
      else
        let (total, special) ← exactSum rest
        return (total, some ((special.map fun y => x.add y).getD x))
    | _ =>
      match v.whole? with
      | some n =>
        let (total, special) ← exactSum rest
        return (n + total, special)
      | none => Outcome.wrongType

/-- The exact mean: an integer when all values are integers and it is whole, else the nearest
double. -/
def mean (values : List Value) : Outcome Value := do
  let (total, special) ← exactSum values
  match special with
  | some x => return real x
  | none =>
    let mean := total / values.length
    if mean.den = 1 && values.all fun v => v.whole?.isSome then return int mean.num
    else intQuotient mean.num mean.den

/-- The least value, or the greatest; the first of equals. -/
def extreme (greatest : Bool) (first : Value) (rest : List Value) : Outcome Value :=
  rest.foldlM (fun best v =>
    match if greatest then best.less? v else v.less? best with
    | some true => .ok v
    | some false => .ok best
    | none => Outcome.wrongType) first

end Crosstab.Value
