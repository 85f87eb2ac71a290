import Crosstab.Request

/-!
# Waves

The queries of a wave are put to the executor together, no more of them at a time than there are
places. The first failure that is reported ends the wave; a query that was put already is answered
all the same.
-/
namespace Crosstab

inductive Ending where
  | outcome (result : Outcome (List Row))
  | withdrawn

/-- What is due for a query of a wave. -/
inductive Due where
  /-- A turn of the query itself. -/
  | query
  /-- A turn of the executor. -/
  | answer
  /-- The notice of the answer. -/
  | notice
  /-- The report to the request. -/
  | report
  deriving DecidableEq, Repr

inductive Stage where
  /-- Its first turn is due. -/
  | fresh
  /-- It waits for a place. -/
  | waiting
  /-- It was given a place, and its turn is due. -/
  | placed
  /-- It was withdrawn before it was put, and its turn is due. It may hold a place to give back. -/
  | withdrawn (holdsPlace : Bool)
  /-- It was put to the executor, whose turn is due. Withdrawn or not, it will be answered. -/
  | put (withdrawn : Bool)
  /-- Its time was over when it was put. -/
  | expiring
  /-- The executor holds the answer back. -/
  | held
  /-- It is to be taken back from the executor, and its turn is due. -/
  | recalled (ending : Ending)
  /-- The executor gives it up. -/
  | recalling (ending : Ending)
  /-- It was answered and has not noticed yet. -/
  | answered (ending : Ending)
  /-- Its last turn is due. -/
  | settling (ending : Ending)
  | done (ending : Ending)

namespace Stage

def isWaiting : Stage → Bool
  | waiting => true
  | _ => false

/-- Stands in line for a place, or was just called. -/
def isInLine : Stage → Bool
  | waiting => true
  | placed => true
  | _ => false

def isHeld : Stage → Bool
  | held => true
  | _ => false

def isDone : Stage → Bool
  | done _ => true
  | _ => false

/-- Withdraws a query, and tells what comes due by that. -/
def withdraw : Stage → Stage × List Due
  | fresh => (withdrawn false, [])
  | waiting => (withdrawn false, [.query])
  | placed => (withdrawn true, [])
  | put false => (put true, [.query])
  | expiring => (withdrawn true, [.query])
  | held => (recalled .withdrawn, [.query])
  | recalled _ => (recalled .withdrawn, [])
  | recalling _ => (recalling .withdrawn, [])
  | answered ending => (settling ending, [.query])
  | stage => (stage, [])

/-- An answer that was held back may now come. -/
def unhold : Stage → Stage × List Due
  | held => (put false, [.answer])
  | stage => (stage, [])

/-- Time runs out for a query whose answer is held back. -/
def expire (failure : Error) : Stage → Stage × List Due
  | held => (recalled (.outcome (.error failure)), [.query])
  | stage => (stage, [])

end Stage

structure Inquiry where
  query : GroupingQuery
  stage : Stage

/-- The turns that come due, each for the query at an index. -/
abbrev Turns := List (Nat × Due)

structure Wave where
  inquiries : List Inquiry := []
  /-- The places that are free; without a limit, none are counted. -/
  free : Option Nat := none
  reported : Nat := 0
  /-- The end of the wave, once it is known: the rows of all queries, or the first failure. -/
  ending : Option (Outcome (List (List Row))) := none
  /-- The request was superseded while the wave was under way. -/
  revoked : Bool := false

namespace Wave

def ofQueries (places : Option Nat) (queries : List GroupingQuery) : Wave where
  inquiries := queries.map fun query => ⟨query, .fresh⟩
  free := places

variable (wave : Wave)

def stage (index : Nat) : Stage :=
  (wave.inquiries[index]?).elim (.done .withdrawn) Inquiry.stage

def setStage (index : Nat) (stage : Stage) : Wave :=
  { wave with inquiries := wave.inquiries.modify index fun inquiry => { inquiry with stage } }

/-- A place is free, and nobody stands in line. -/
def admits : Bool :=
  wave.free != some 0 && !wave.inquiries.any fun inquiry => inquiry.stage.isInLine

def takePlace : Wave := { wave with free := wave.free.map (· - 1) }

/-- Gives a place to the first in line, or leaves it free. -/
def givePlace : Wave × Turns :=
  match wave.inquiries.findIdx? fun inquiry => inquiry.stage.isWaiting with
  | some next => (wave.setStage next .placed, [(next, .query)])
  | none => ({ wave with free := wave.free.map (· + 1) }, [])

/-- Passes a free place on to the first in line. -/
def passPlace : Wave × Turns :=
  match wave.free with
  | some (_ + 1) => wave.takePlace.givePlace
  | _ => (wave, [])

/-- A query ends: its place is given away before the end is reported. -/
def settle (index : Nat) (ending : Ending) : Wave × Turns :=
  let (wave, turns) := wave.givePlace
  (wave.setStage index (.done ending), turns ++ [(index, .report)])

/-- A turn of a query. The flag tells that the query is now to be put to the executor. -/
def queryTurn (index : Nat) : Wave × Turns × Bool :=
  match wave.stage index with
  | .fresh =>
    if wave.admits then (wave.takePlace.setStage index (.put false), [], true)
    else (wave.setStage index .waiting, [], false)
  | .placed =>
    let (wave, turns) := (wave.setStage index (.put false)).passPlace
    (wave, turns, true)
  | .withdrawn true =>
    let (wave, turns) := wave.settle index .withdrawn
    (wave, turns, false)
  | .withdrawn false => (wave.setStage index (.done .withdrawn), [(index, .report)], false)
  | .put true => (wave.setStage index (.recalling .withdrawn), [], false)
  | .recalled ending => (wave.setStage index (.recalling ending), [(index, .answer)], false)
  | .settling ending =>
    let (wave, turns) := wave.settle index ending
    (wave, turns, false)
  | _ => (wave, [], false)

def noticeTurn (index : Nat) : Wave × Turns :=
  match wave.stage index with
  | .answered ending => (wave.setStage index (.settling ending), [(index, .query)])
  | .recalling ending => (wave.setStage index (.settling ending), [(index, .query)])
  | _ => (wave, [])

/-- The rows of all queries, if each of them was answered. -/
def rows : List (List Row) :=
  wave.inquiries.filterMap fun inquiry =>
    match inquiry.stage with
    | .done (.outcome (.ok rows)) => some rows
    | _ => none

/-- A query reports its end. The flag tells that the end of the wave is known by this report. -/
def reportTurn (index : Nat) : Wave × Bool :=
  let wave := { wave with reported := wave.reported + 1 }
  if wave.ending.isSome then (wave, false)
  else
    match wave.stage index with
    | .done (.outcome (.error error)) => ({ wave with ending := some (.error error) }, true)
    | .done (.outcome (.ok _)) =>
      if wave.reported < wave.inquiries.length then (wave, false)
      else if wave.revoked then ({ wave with ending := some (.error .superseded) }, true)
      else ({ wave with ending := some (.ok wave.rows) }, true)
    | _ => ({ wave with ending := some (.error .superseded) }, true)

/-- Changes all queries, and tells the turns that come due by that, in the order of the queries. -/
def sweep (change : Inquiry → Stage × List Due) : Wave × Turns :=
  ({ wave with inquiries :=
      wave.inquiries.map fun inquiry => { inquiry with stage := (change inquiry).1 } },
    wave.inquiries.zipIdx.flatMap fun entry => (change entry.1).2.map fun due => (entry.2, due))

def withdrawAll : Wave × Turns := wave.sweep fun inquiry => inquiry.stage.withdraw

def isOver : Bool := wave.inquiries.all fun inquiry => inquiry.stage.isDone

def isHeldUp : Bool := wave.inquiries.any fun inquiry => inquiry.stage.isHeld

def unhold : Wave × Turns := wave.sweep fun inquiry => inquiry.stage.unhold

def expire (failure : GroupingQuery → Error) (wave : Wave) : Wave × Turns :=
  wave.sweep fun inquiry => inquiry.stage.expire (failure inquiry.query)

end Wave

end Crosstab
