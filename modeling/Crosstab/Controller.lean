import Crosstab.Wave

/-!
# Controllers

A controller serves requests against one executor, to their end or as tasks that take turns from one
queue. At most one task is neither finished nor revoked: the latest one.
-/
namespace Crosstab

inductive Pace where
  | prompt
  /-- Answers are held back until the tasks are awaited. -/
  | gated
  | never
  deriving DecidableEq, Repr

inductive TaskState where
  | submitted
  | running (progress : Progress)
  | finished (outcome : Outcome Response)

structure Task where
  document : Value
  form : Value
  state : TaskState := .submitted
  wave : Wave := {}
  /-- The task ends without a result at its next turn. -/
  revoked : Bool := false

namespace Task

def outcome? (task : Task) : Option (Outcome Response) :=
  match task.state with
  | .finished outcome => some outcome
  | _ => none

def isFinished (task : Task) : Bool := task.outcome?.isSome

end Task

inductive Turn where
  | start (task : Nat)
  | wave (task index : Nat) (due : Due)
  /-- The wave has ended. -/
  | resume (task : Nat)
  /-- The task has finished, and who awaits it is told. -/
  | wake (task : Nat)
  deriving DecidableEq, Repr

structure Controller (ε : Type := Executor) where
  executor : ε
  pace : Pace
  settings : Settings
  knownSchema : Option Schema
  requestCount : Nat := 0
  /-- All tasks, the latest one last. A task is named by its place. -/
  tasks : List Task := []
  latest : Option Nat := none
  /-- The submitted tasks that were not awaited yet, in order. -/
  unclaimed : List Nat := []
  queue : List Turn := []
  gateOpen : Bool := false

namespace Controller

variable {ε : Type} (controller : Controller ε)

/-- The schema of the source, which is asked for once. -/
def schema [Answerer ε] : Controller ε × Outcome Schema :=
  match controller.knownSchema with
  | some schema => (controller, .ok schema)
  | none =>
    match Answerer.schema controller.executor with
    | .ok schema => ({ controller with knownSchema := some schema }, .ok schema)
    | .error error => (controller, .error error)

def compile [Answerer ε] (document : Value) : Controller ε × Outcome Table :=
  let (controller, schema) := controller.schema
  (controller, schema.bind fun schema => Request.compile schema controller.settings document)

def countRequest : Controller ε :=
  { controller with requestCount := controller.requestCount + 1 }

/-- Runs a request to its end, one query after the other. No task gets a turn. -/
def run [Answerer ε] (document form : Value) : Controller ε × Outcome Response :=
  let (controller, schema) := controller.countRequest.schema
  match schema with
  | .error error => (controller, .error error)
  | .ok schema =>
    let request := Request.run Answerer.execute schema controller.settings document form
    let (executor, outcome) := request.exec controller.executor
    ({ controller with executor }, outcome)

/-! ## Turns -/

def task? (id : Nat) : Option Task := controller.tasks[id]?

def setTask (id : Nat) (task : Task) : Controller ε :=
  { controller with tasks := controller.tasks.set id task }

def enqueue (turns : List Turn) : Controller ε :=
  { controller with queue := controller.queue ++ turns }

def enqueueWave (id : Nat) (turns : Turns) : Controller ε :=
  controller.enqueue (turns.map fun turn => .wave id turn.1 turn.2)

/-- Changes the wave of a task, and queues what comes due by the change. -/
def setWave (id : Nat) (task : Task) (change : Wave × Turns) : Controller ε :=
  (controller.setTask id { task with wave := change.1 }).enqueueWave id change.2

def finishTask (id : Nat) (task : Task) (outcome : Outcome Response) : Controller ε :=
  (controller.setTask id { task with state := .finished outcome }).enqueue [.wake id]

/-- Takes a task to where its request stands: to its end, or to the next wave. -/
def arrive (id : Nat) (task : Task) (reached : Outcome Reached) : Controller ε :=
  match reached with
  | .error error => controller.finishTask id task (.error error)
  | .ok (.complete grid) => controller.finishTask id task (Response.ofGrid task.form grid)
  | .ok (.awaiting progress) =>
    let wave := Wave.ofQueries controller.settings.places progress.queries
    let turns := (List.range progress.queries.length).map fun index => (index, Due.query)
    controller.setWave id { task with state := .running progress } (wave, turns)

/-- The first turn of a task, in which its request is counted. -/
def startTask [Answerer ε] (id : Nat) (task : Task) : Controller ε :=
  let (controller, schema) := controller.countRequest.schema
  controller.arrive id task
    (schema.bind fun schema => Progress.start schema controller.settings task.document)

def holdsBack : Bool :=
  match controller.pace with
  | .prompt => false
  | .gated => !controller.gateOpen
  | .never => true

def execute [Answerer ε] (query : GroupingQuery) : Controller ε × Ending :=
  let (executor, outcome) := (Answerer.execute query).exec controller.executor
  let failure := Request.timedFailure controller.settings query
  ({ controller with executor }, .outcome (outcome.mapError failure))

/-- Puts a query to the executor. Without a time limit it is answered within its own turn. -/
def putQuery [Answerer ε] (id index : Nat) (task : Task) (query : GroupingQuery) : Controller ε :=
  let wave := task.wave
  match controller.settings.timeLimit with
  | .running =>
    controller.setWave id task (wave.setStage index (.put false), [(index, .answer)])
  | .expired => controller.setWave id task (wave.setStage index .expiring, [(index, .answer)])
  | .malformed problem =>
    let error := Error.execution (.failed query.describe problem)
    controller.setWave id task (wave.settle index (.outcome (.error error)))
  | .unlimited =>
    if controller.holdsBack then controller.setWave id task (wave.setStage index .held, [])
    else
      let (controller, ending) := controller.execute query
      controller.setWave id task (wave.settle index ending)

def answerTurn [Answerer ε] (id index : Nat) (task : Task) (query : GroupingQuery) : Controller ε :=
  let wave := task.wave
  match wave.stage index with
  | .put withdrawn =>
    if controller.holdsBack then
      let stage := if withdrawn then .recalled .withdrawn else .held
      controller.setWave id task (wave.setStage index stage, [])
    else
      let (controller, ending) := controller.execute query
      if withdrawn then controller.setWave id task (wave.setStage index (.settling ending), [])
      else controller.setWave id task (wave.setStage index (.answered ending), [(index, .notice)])
  | .expiring =>
    let error := Request.timeoutFailure controller.settings query
    let ending := Ending.outcome (.error error)
    controller.setWave id task (wave.setStage index (.answered ending), [(index, .notice)])
  | .recalling _ => controller.setWave id task (wave, [(index, .notice)])
  | _ => controller

def waveTurn [Answerer ε] (id index : Nat) (task : Task) (query : GroupingQuery) :
    Due → Controller ε
  | .query =>
    let (wave, turns, puts) := task.wave.queryTurn index
    let controller := controller.setWave id task (wave, turns)
    if puts then controller.putQuery id index { task with wave } query else controller
  | .answer => controller.answerTurn id index task query
  | .notice => controller.setWave id task (task.wave.noticeTurn index)
  | .report =>
    let (wave, ended) := task.wave.reportTurn index
    let controller := controller.setTask id { task with wave }
    if ended then controller.enqueue [.resume id] else controller

/-- Withdraws what is left of a wave, and finishes the task. -/
def abandon (id : Nat) (task : Task) (error : Error) : Controller ε :=
  let (wave, turns) := task.wave.withdrawAll
  (controller.enqueueWave id turns).finishTask id { task with wave } (.error error)

def resumeTask (id : Nat) (task : Task) : Controller ε :=
  if task.revoked then controller.abandon id task .superseded
  else
    match task.state, task.wave.ending with
    | .running _, some (.error error) => controller.abandon id task error
    | .running progress, some (.ok rows) =>
      let results := (progress.queries.map GroupingQuery.key).zip rows
      controller.arrive id task (progress.next controller.settings results)
    | _, _ => controller

def take [Answerer ε] (turn : Turn) : Controller ε :=
  match turn with
  | .start id =>
    match controller.task? id with
    | some task =>
      if task.revoked then controller.finishTask id task (.error .superseded)
      else controller.startTask id task
    | none => controller
  | .wave id index due =>
    match controller.task? id with
    | some task =>
      match task.wave.inquiries[index]? with
      | some inquiry => controller.waveTurn id index task inquiry.query due
      | none => controller
    | none => controller
  | .resume id =>
    match controller.task? id with
    | some task => controller.resumeTask id task
    | none => controller
  | .wake _ => controller

/-- Changes the waves of all tasks, and queues what comes due by that in the order of the tasks. -/
def eachWave (change : Wave → Wave × Turns) : Controller ε :=
  let turns := controller.tasks.zipIdx.flatMap fun entry =>
    (change entry.1.wave).2.map fun turn => Turn.wave entry.2 turn.1 turn.2
  { controller with
    tasks := controller.tasks.map fun task => { task with wave := (change task.wave).1 }
    queue := controller.queue ++ turns }

def canExpire : Bool :=
  controller.settings.timeLimit == .running &&
    controller.tasks.any fun task => task.wave.isHeldUp

def expire : Controller ε :=
  controller.eachWave (Wave.expire (Request.timeoutFailure controller.settings))

inductive Aim where
  | rest
  | finish (task : Nat)
  | wake (task : Nat)
  deriving DecidableEq, Repr

def isFinished (id : Nat) : Bool :=
  (controller.task? id).elim true Task.isFinished

def reached : Aim → Bool
  | .rest => false
  | .finish id => controller.isFinished id
  | .wake id => controller.isFinished id && !controller.queue.contains (.wake id)

/-- Takes turns until the aim is reached or nothing is due. Who aims at the end of a task lets time
pass when nothing is due. -/
def proceed [Answerer ε] (aim : Aim) : Nat → Controller ε → Controller ε
  | 0, controller => controller
  | fuel + 1, controller =>
    if controller.reached aim then controller
    else
      match controller.queue with
      | turn :: rest => proceed aim fuel ({ controller with queue := rest }.take turn)
      | [] =>
        if aim != .rest && controller.canExpire then proceed aim fuel controller.expire
        else controller

/-- No query takes more turns than this, nor does a task besides its queries. -/
def turnBound : Nat := 16

def turnsLeft [Answerer ε] : Nat :=
  let bound (task : Task) : Nat :=
    match task.state, controller.schema.2 with
    | .finished _, _ => task.wave.inquiries.length
    | _, .ok schema =>
      task.wave.inquiries.length + Progress.queryBound schema controller.settings task.document
    | _, .error _ => 0
  turnBound * controller.tasks.foldl (fun count task => count + 1 + bound task) 1

def turnTo [Answerer ε] (aim : Aim) : Controller ε :=
  controller.proceed aim controller.turnsLeft

/-! ## Serving tasks -/

/-- Revokes a task that has not finished. Unless its wave is over, the queries are withdrawn, and the
wave tells the task. -/
def revoke (id : Nat) : Controller ε :=
  match controller.task? id with
  | none => controller
  | some task =>
    match task.state with
    | .finished _ => controller
    | .submitted => controller.setTask id { task with revoked := true }
    | .running _ =>
      if task.wave.ending.isSome || task.wave.isOver then
        controller.setTask id { task with revoked := true }
      else
        let (wave, turns) := task.wave.withdrawAll
        controller.setWave id task ({ wave with revoked := true }, turns)

/-- Submits a request as a task; the one before it is revoked. -/
def submit (document form : Value) : Controller ε :=
  let controller := controller.latest.elim controller controller.revoke
  let id := controller.tasks.length
  { controller with
    tasks := controller.tasks ++ [{ document, form }]
    latest := some id
    unclaimed := controller.unclaimed ++ [id]
    queue := controller.queue ++ [.start id] }

/-- Begins a request that is awaited: it takes its first turn at once. -/
def call [Answerer ε] (document form : Value) : Controller ε :=
  let task : Task := { document, form }
  { controller with tasks := controller.tasks ++ [task] }.startTask controller.tasks.length task

/-- Runs a request to its end, several queries at a time. The turns of submitted tasks that come due
meanwhile are taken as well; a request that ends in its first turn leaves no time for them. -/
def runConcurrently [Answerer ε] (document form : Value) : Controller ε × Outcome Response :=
  let id := controller.tasks.length
  let controller := (controller.call document form).turnTo (.finish id)
  (controller, ((controller.task? id).bind Task.outcome?).getD (.error .superseded))

def tick [Answerer ε] : Controller ε := controller.turnTo .rest

def openGate : Controller ε :=
  if controller.pace = .gated then { controller with gateOpen := true }.eachWave Wave.unhold
  else controller

def awaitTask [Answerer ε] (id : Nat) : Controller ε :=
  if controller.isFinished id then controller else controller.turnTo (.wake id)

/-- Opens the gate, waits for the submitted tasks in order and forgets them; the outcomes come in the
order of submission. -/
def await [Answerer ε] : Controller ε × List (Outcome Response) :=
  let claimed := controller.unclaimed
  let controller := claimed.foldl (awaitTask · ·) controller.openGate
  ({ controller with gateOpen := false, unclaimed := [] }, claimed.map fun id =>
    ((controller.task? id).bind Task.outcome?).getD (.error .superseded))

def close [Answerer ε] : Controller ε :=
  { controller with executor := Answerer.close controller.executor }

end Controller

end Crosstab
