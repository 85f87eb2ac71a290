import Crosstab.Error
import Crosstab.Sorting

/-!
# Ranking of members

Orders and limits the members of a dimension by a key. Members without a key come last, and members
with equal keys stay in the order of their text.
-/
namespace Crosstab

inductive Direction where
  | ascending
  | descending
  deriving DecidableEq, Repr

inductive Basis where
  | text
  | value
  /-- A basis under another name; it ranks as the text does. -/
  | foreign
  deriving DecidableEq, Repr

structure Ranking where
  basis : Basis
  direction : Option Direction
  limit : Option Int
  deriving DecidableEq, Repr

namespace Basis

def name : Basis → String
  | text => "alphabetical"
  | value => "by-value"
  | foreign => ""

def ofValue : Value → Basis
  | .text "alphabetical" => text
  | .text "by-value" => value
  | _ => foreign

end Basis

namespace Ranking

/-- A ranking from loosely typed parts. Any direction other than the descending one ascends, and a
limit must be a whole number. -/
def ofParts (basis : Basis) (direction limit : Value) : Outcome Ranking := do
  let direction :=
    match direction with
    | .null => none
    | .text "desc" => some Direction.descending
    | _ => some Direction.ascending
  match limit with
  | .null => return ⟨basis, direction, none⟩
  | .int n => return ⟨basis, direction, some n⟩
  | .bool b => return ⟨basis, direction, some b.toNat⟩
  | _ => Outcome.wrongType

def byValue (ranking : Ranking) : Bool := ranking.basis == .value

def isDefault (ranking : Ranking) : Bool :=
  ranking.basis == .text && ranking.direction.isNone && ranking.limit.isNone

/-- The explicit direction, else descending exactly for an unlimited ranking by value; a negative
limit turns the order around. -/
def descends (ranking : Ranking) : Bool :=
  let chosen :=
    match ranking.direction with
    | some direction => direction == .descending
    | none => ranking.byValue && ranking.limit.isNone
  match ranking.limit with
  | some limit => if limit < 0 then !chosen else chosen
  | none => chosen

end Ranking

/-- A member and the key that it is ranked by. -/
abbrev Candidate := Value × Value

namespace Candidate

def byText (a b : Candidate) : Bool := !decide (b.1.plain < a.1.plain)

def below (a b : Candidate) : Bool := a.2.less? b.2 == some true

def comparable : List Candidate → Bool
  | [] => true
  | c :: rest => rest.all (fun d => (c.2.less? d.2).isSome) && comparable rest

end Candidate

/-- The candidates in ranked order, before a limit applies. -/
def rankAll (candidates : List Candidate) (descends : Bool) : List Candidate :=
  let ordered := Sorting.arrange Candidate.byText candidates
  let present := ordered.filter fun c => !c.2.isNull
  let missing := ordered.filter fun c => c.2.isNull
  let ranked :=
    if descends then Sorting.descending Candidate.below present
    else Sorting.ascending Candidate.below present
  ranked ++ missing

def rank (candidates : List Candidate) (ranking : Ranking) : Outcome (List Value) :=
  if Candidate.comparable (candidates.filter fun c => !c.2.isNull) then
    let ranked := (rankAll candidates ranking.descends).map (·.1)
    .ok (match ranking.limit with
      | some limit => ranked.take limit.natAbs
      | none => ranked)
  else Outcome.wrongType

end Crosstab
