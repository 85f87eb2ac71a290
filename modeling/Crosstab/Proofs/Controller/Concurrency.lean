import Crosstab.Proofs.Controller.Supersession
import Crosstab.Proofs.Controller.Trace
import Crosstab.Proofs.Request

/-!
# Requests under every schedule

Whatever the order of its turns and those of others, a request comes to what it comes to with its
queries executed one after the other.
-/
namespace Crosstab

open List Request Controller

variable {settings : Settings} {answer : GroupingQuery → Outcome (List Row)}

private theorem Request.checkConcurrency_of_int {n : Nat}
    (limit : settings.maxConcurrentQueries = .int n) : checkConcurrency settings = .ok () := by
  have least : decide (((n : Int) : Rat) < ((0 : Int) : Rat)) = false :=
    decide_eq_false (Rat.not_lt.mpr (Rat.intCast_le_intCast.mpr (Int.natCast_nonneg n)))
  simp only [checkConcurrency, limit, Value.less?, Value.lessAtom?, Value.quantity?, Quantity.less, least]

/-! ### What a task comes to -/

/-- An outcome agrees with another one: they come to the same response, and where no answer fails, to
the same outcome. -/
def Agrees (answer : GroupingQuery → Outcome (List Row)) (outcome expected : Outcome Response) : Prop :=
  (∀ response, outcome = .ok response ↔ expected = .ok response) ∧
    ((∀ query, ∃ rows, answer query = .ok rows) → outcome = expected)

private theorem Agrees.of_eq {outcome expected : Outcome Response} (same : outcome = expected) :
    Agrees answer outcome expected :=
  ⟨fun _ => by rw [same], fun _ => same⟩

def Answered (answer : GroupingQuery → Outcome (List Row)) (settings : Settings) (query : GroupingQuery)
    (ending : Ending) : Prop :=
  ending = .outcome ((answer query).mapError (timedFailure settings query))

private theorem Answered.ok_iff {query : GroupingQuery} {rows : List Row} :
    Answered answer settings query (.outcome (.ok rows)) ↔ answer query = .ok rows := by
  cases answered : answer query <;> simp [Answered, answered, Except.mapError, eq_comm]

namespace Task

variable {answer : GroupingQuery → Outcome (List Row)} {settings : Settings} {grid : Outcome Grid}
  {form : Value}
  {gives : GroupingQuery → Ending → Prop} {id : Nat} {task next : Task} {due later new : List Turn}

/-- The task will come to the given grid, or has come to a response in agreement with it. -/
structure Serves (answer : GroupingQuery → Outcome (List Row)) (settings : Settings) (grid : Outcome Grid)
    (form : Value) (task : Task) : Prop where
  form_eq : task.form = form
  running : ∀ progress, task.state = .running progress → progress.grid answer settings = grid
  finished : ∀ outcome, task.state = .finished outcome →
    Agrees answer outcome (grid >>= Response.ofGrid form)

theorem Serves.arrives {reached : Outcome Reached} (arrives : task.Arrives settings id reached next new)
    (sameForm : task.form = form)
    (same : (reached >>= fun reached => reached.grid answer settings) = grid) :
    next.Serves answer settings grid form := by
  subst same sameForm
  cases arrives with
  | fail error =>
    refine ⟨rfl, nofun, ?_⟩
    rintro _ ⟨⟩
    exact .of_eq rfl
  | complete grid =>
    refine ⟨rfl, nofun, ?_⟩
    rintro _ ⟨⟩
    exact .of_eq rfl
  | await progress =>
    refine ⟨rfl, ?_, nofun⟩
    rintro _ ⟨⟩
    rfl

private theorem answers_of_stages {wave : Wave} (regular : wave.Regular (Answered answer settings))
    {rows : List (List Row)}
    (answered : wave.stages = rows.map fun found => .done (.outcome (.ok found))) :
    Forall₂ (fun query found => answer query = .ok found) wave.queries rows := by
  have lengths : wave.queries.length = rows.length := by
    simpa [Wave.stages, Wave.queries] using congrArg length answered
  refine forall₂_iff_get.mpr ⟨lengths, fun i inside inside' => ?_⟩
  have there : i < wave.inquiries.length := by simpa [Wave.queries] using inside
  have stage : wave.inquiries[i].stage = .done (.outcome (.ok rows[i])) := by
    have listed := congrArg (·[i]?) answered
    simpa [Wave.stages, there, inside'] using listed
  have held := regular _ (getElem_mem there)
  rw [stage] at held
  simpa [Wave.queries] using Answered.ok_iff.mp held

private theorem Regular.no_grid (regular : task.Regular settings (Answered answer settings))
    (orderly : task.Orderly id due)
    {progress : Progress} (running : task.state = .running progress) {error : Error}
    (failed : task.wave.HasFailed error) :
    ∃ query ∈ progress.queries, ∀ rows, answer query ≠ .ok rows := by
  obtain ⟨i, stage⟩ := failed
  have inside : i < task.wave.inquiries.length := Wave.lt_length_of_stage (by simp [stage])
  obtain ⟨query, member, ended⟩ := (regular.running progress running).1.ended inside stage
  rw [(orderly.running progress running).1] at member
  refine ⟨query, member, fun rows answered => ?_⟩
  simp [Answered, answered, Except.mapError] at ended

/-- Whatever happens to a task that takes its course, it comes to the same grid. -/
theorem Serves.moved (serves : task.Serves answer settings grid form)
    (regular : task.Regular settings (Answered answer settings)) (orderly : task.Orderly id due)
    (moved : task.Moved settings gives False False id due next later) :
    next.Serves answer settings grid form := by
  obtain ⟨sameForm, running, finished⟩ := serves
  cases moved with
  | rest _ | unhold => exact ⟨sameForm, running, finished⟩
  | turn taken turned =>
    have orderly := orderly.of_perm taken
    cases turned with
    | refuse revoked => simp [regular.kept] at revoked
    | start _ _ => exact absurd orderly.first.1 regular.begun
    | inquire _ _ _ | report _ | skip _ | idle _ _ | wake => exact ⟨sameForm, running, finished⟩
    | @abandon error cause =>
      rcases cause with ⟨revoked, _⟩ | ⟨⟨progress, state⟩, ended⟩
      · simp [regular.kept] at revoked
      · have failed := regular.failed orderly (fun _ => by simp [Answered]) state ended
        obtain ⟨query, member, unanswered⟩ := regular.no_grid orderly state failed
        refine ⟨sameForm, nofun, ?_⟩
        rintro _ ⟨⟩
        refine ⟨fun response => ⟨nofun, fun returned => ?_⟩, fun always => ?_⟩
        · obtain ⟨grid, reached, _⟩ := Outcome.bind_eq_ok.mp returned
          rw [← running progress state] at reached
          obtain ⟨rows, answered⟩ := Progress.answer_of_grid reached member
          exact absurd answered (unanswered rows)
        · obtain ⟨rows, answered⟩ := always query
          exact absurd answered (unanswered rows)
    | @resume progress rows _ _ _ state ended arrives =>
      refine .arrives arrives sameForm ?_
      rw [← running progress state]
      refine Progress.grid_of_next (results_of_answers ?_)
      rw [← (orderly.running progress state).1]
      exact answers_of_stages (regular.running progress state).1 (orderly.wave.succeeded _ ended).2.2
  | revoke allowed _ | expire allowed => exact allowed.elim

end Task

/-! ### Along a schedule -/

namespace Controller

variable {ε : Type} [Answerer ε] {controller : Controller ε} {kind : ε → Prop} {settings : Settings}
  {id : Nat} {allowed : GroupingQuery → Ending → Prop} {task : Task}

private theorem follow_settings (controller : Controller ε) (schedule : List Move) :
    (controller.follow schedule).settings = controller.settings := by
  induction schedule generalizing controller with
  | nil => rfl
  | cons move others ih => exact (ih (controller.move move)).trans (controller.move_frame move).1

/-- A controller whose executor is in a state of some kind, and a task of it that was not submitted. -/
structure Keeps (kind : ε → Prop) (settings : Settings) (id : Nat) (controller : Controller ε) : Prop
    extends Supersedes controller where
  settings_eq : controller.settings = settings
  executor : kind controller.executor
  unsubmitted : id ∉ controller.unclaimed

section

variable (keeps : controller.Keeps kind settings id)
include keeps

omit [Answerer ε] in
private theorem Keeps.latest_ne : controller.latest ≠ some id := by
  intro last
  rw [keeps.latest] at last
  exact keeps.unsubmitted (mem_of_getLast? last)

private theorem Keeps.move
    (closed : ∀ state query, kind state → kind ((Answerer.execute query).exec state).1)
    (there : controller.task? id = some task) (move : Move) :
    (controller.move move).Keeps kind settings id := by
  obtain ⟨sameSettings, executor, claims⟩ := controller.move_frame move
  refine ⟨keeps.toSupersedes.move move, sameSettings.trans keeps.settings_eq, ?_, ?_⟩
  · rcases executor with same | ⟨query, same⟩
    · exact same ▸ keeps.executor
    · exact same ▸ closed _ query keeps.executor
  · rcases claims with ⟨document, form, rfl⟩ | ⟨_, unclaimed⟩
    · rw [show (controller.move (.submit document form)).unclaimed = _ from
        (controller.submit_unclaimed document form).1]
      have inside : id < controller.tasks.length := (List.getElem?_eq_some_iff.mp there).1
      simp only [mem_append, mem_singleton, not_or]
      exact ⟨keeps.unsubmitted, by omega⟩
    · rw [unclaimed]
      exact keeps.unsubmitted

theorem Keeps.moved (there : controller.task? id = some task)
    {move : Move} (calm : move ≠ .expire) : ∃ next, (controller.move move).task? id = some next ∧
      task.Moved settings controller.Gives False False id (controller.due id) next
        ((controller.move move).due id) := by
  obtain ⟨next, after, moved⟩ := move_moved move there
  refine ⟨next, after, ?_⟩
  rw [keeps.settings_eq] at moved
  simpa only [keeps.latest_ne, and_false, calm] using moved

/-- What the moves keep of a task and its record, a schedule without a time-out keeps. -/
theorem Keeps.follow {P : Task → List Event → Prop}
    (closed : ∀ state query, kind state → kind ((Answerer.execute query).exec state).1)
    (step : ∀ {controller : Controller ε} {task next : Task} {due later past}, kind controller.executor →
      controller.settings = settings → task.Orderly id due →
      task.Moved settings controller.Gives False False id due next later → P task past →
      P next (past ++ task.wave.events next.wave))
    (past : List Event) (there : controller.task? id = some task) (holds : P task past)
    {schedule : List Move} (calm : ∀ move ∈ schedule, move ≠ .expire) :
    ∃ next, (controller.follow schedule).task? id = some next ∧
      (controller.follow schedule).Keeps kind settings id ∧
        P next (past ++ controller.trace id schedule) := by
  induction schedule generalizing controller task past with
  | nil => exact ⟨task, there, keeps, by rwa [trace, append_nil]⟩
  | cons move others ih =>
    obtain ⟨next, after, moved⟩ := keeps.moved there (calm move mem_cons_self)
    have stepped := step keeps.executor keeps.settings_eq (keeps.tasks id task there) moved holds
    obtain ⟨last, reached, kept, result⟩ := ih (keeps.move closed there move) _ after stepped
      fun move member => calm move (mem_cons_of_mem _ member)
    refine ⟨last, reached, kept, ?_⟩
    have same : controller.events id (controller.move move) = task.wave.events next.wave := by
      simp [events, there, after]
    rwa [trace, same, ← append_assoc]

end

theorem call_arrives (supersedes : controller.Supersedes) (document form : Value) : ∃ next new,
    (controller.call document form).task? controller.tasks.length = some next ∧
      Task.Arrives controller.settings controller.tasks.length { document, form }
        (Except.bind controller.schema.2 fun schema =>
          Progress.start schema controller.settings document) next new := by
  have absent : controller.task? controller.tasks.length = none := by simp [task?]
  rcases move_absent supersedes.toOrderly (.call document form) absent with
    ⟨none, _⟩ | ⟨_, _, _, ⟨submit, _⟩ | ⟨next, call, there, arrives⟩⟩
  · obtain ⟨_, _, _, revised⟩ := startTask_arrives
      { controller with tasks := controller.tasks ++ [{ document, form }] } controller.tasks.length
      { document, form }
    have there := revised.task?_self (getElem?_concat_length ..)
    cases none.symm.trans there
  · cases submit
  · cases call
    exact ⟨next, _, there, arrives⟩

variable {answer : GroupingQuery → Outcome (List Row)}

private theorem run_outcome (steady : ∀ query, Run.Yields kind (Answerer.execute query) (answer query))
    (executor : kind controller.executor) (document form : Value) :
    (controller.run document form).2 =
      (controller.schema.2 >>= fun schema => grid answer controller.settings schema document) >>=
        Response.ofGrid form := by
  obtain ⟨known, same⟩ := schema_eq controller.countRequest
  have found : controller.countRequest.schema.2 = controller.schema.2 := by
    rw [schema_snd, schema_snd, countRequest]
  simp only [run, same, found]
  cases controller.schema.2 with
  | error error => rfl
  | ok schema => exact (run_yields steady schema document form controller.executor executor).1

theorem Supersedes.call_keeps (supersedes : controller.Supersedes) (kind : ε → Prop)
    (executor : kind controller.executor)
    (closed : ∀ state query, kind state → kind ((Answerer.execute query).exec state).1)
    (document form : Value) :
    (controller.call document form).Keeps kind controller.settings controller.tasks.length := by
  obtain ⟨sameSettings, sameExecutor, claims⟩ := controller.move_frame (.call document form)
  refine ⟨supersedes.move (.call document form), sameSettings, ?_, ?_⟩
  · rcases sameExecutor with same | ⟨query, same⟩
    · exact same ▸ executor
    · exact same ▸ closed _ query executor
  · rcases claims with ⟨_, _, submit⟩ | ⟨_, unclaimed⟩
    · cases submit
    · rw [show (controller.call document form).unclaimed = _ from unclaimed]
      intro member
      obtain ⟨task, there, _⟩ := supersedes.retired _ member
      simp [task?] at there

private theorem proceed_eq_follow (aim : Aim) (fuel : Nat) (controller : Controller ε) :
    ∃ schedule, proceed aim fuel controller = controller.follow schedule ∧
      ∀ move ∈ schedule, move = .turn 0 ∨ move = .expire := by
  induction fuel generalizing controller with
  | zero => exact ⟨[], rfl, by simp⟩
  | succ fuel ih =>
    unfold proceed
    split
    · exact ⟨[], rfl, by simp⟩
    · split
      next turn rest queue =>
        obtain ⟨schedule, same, moves⟩ := ih ({ controller with queue := rest }.take turn)
        refine ⟨.turn 0 :: schedule, ?_, by simpa using moves⟩
        have first : controller.move (.turn 0) = { controller with queue := rest }.take turn := by
          simp [move, without, queue]
        rw [same, follow, follow, foldl_cons, first]
      next =>
        split
        · obtain ⟨schedule, same, moves⟩ := ih controller.expire
          exact ⟨.expire :: schedule, same, by simpa using moves⟩
        · exact ⟨[], rfl, by simp⟩

/-- Some answer to a query of a task is held back. -/
def isHeldUp (controller : Controller ε) (id : Nat) : Bool :=
  (controller.task? id).any fun task => task.wave.isHeldUp

private theorem answered_of_gives {query : GroupingQuery} {ending : Ending}
    (steady : Run.Yields kind (Answerer.execute query) (answer query))
    (executor : kind controller.executor) (given : controller.Gives query ending) :
    Answered answer controller.settings query ending := by
  rw [given, Answered, ← (steady controller.executor executor).1]
  rfl

section

variable {document form : Value} {after : List Move} (supersedes : controller.Supersedes)
  (untimed : controller.settings.timeLimit = .running ∨ controller.settings.timeLimit = .unlimited)
  (calm : ∀ move ∈ after, move ≠ .expire)
include supersedes untimed calm

/-- A request that is called takes its course, with all that happens on record. -/
theorem Supersedes.call_onCourse : ∃ task,
    ((controller.call document form).follow after).task? controller.tasks.length = some task ∧
    ((controller.call document form).follow after).Keeps (fun _ => True) controller.settings
      controller.tasks.length ∧
    task.OnCourse controller.settings
      (discoveryQueries controller.schema.2 controller.settings document)
      ((controller.call document form).trace controller.tasks.length after) := by
  obtain ⟨first, new, there, arrives⟩ := call_arrives supersedes document form
  have keeps := supersedes.call_keeps (fun _ => True) trivial (fun _ _ _ => trivial) document form
  have started : first.OnCourse controller.settings
      (discoveryQueries controller.schema.2 controller.settings document) [] :=
    ⟨Task.regular_called arrives, Task.recorded_called arrives, wavesInOrder_nil _⟩
  refine keeps.follow (fun _ _ _ => trivial) ?_ [] there started calm
  intro controller' _ _ _ _ _ _ _ orderly moved onCourse
  refine onCourse.moved orderly untimed (fun query ending given => ?_) moved
  rw [given]
  nofun

/-- A request that is called agrees with one whose queries are executed one after the other. -/
theorem Supersedes.call_agrees {answer : GroupingQuery → Outcome (List Row)}
    (accepted : checkConcurrency controller.settings = .ok ()) (executor : kind controller.executor)
    (steady : ∀ query, Run.Yields kind (Answerer.execute query) (answer query))
    {outcome : Outcome Response}
    (finished : ((controller.call document form).follow after).outcome? controller.tasks.length =
      some outcome) :
    Agrees answer outcome (controller.run document form).2 := by
  obtain ⟨first, new, there, arrives⟩ := call_arrives supersedes document form
  have closed : ∀ state query, kind state → kind ((Answerer.execute query).exec state).1 :=
    fun state query holds => (steady query state holds).2
  have keeps := supersedes.call_keeps kind executor closed document form
  have started : first.Serves answer controller.settings
      (controller.schema.2 >>= fun schema => grid answer controller.settings schema document) form := by
    refine .arrives arrives rfl ?_
    cases controller.schema.2 with
    | error error => rfl
    | ok schema => exact Progress.grid_of_start accepted
  obtain ⟨task, reached, _, _, serves⟩ := keeps.follow
    (P := fun task _ => task.Regular controller.settings (Answered answer controller.settings) ∧
      task.Serves answer controller.settings
        (controller.schema.2 >>= fun schema => grid answer controller.settings schema document) form)
    closed (by
      rintro controller' _ _ _ _ _ holds same orderly moved ⟨regular, serves⟩
      refine ⟨regular.moved orderly untimed (fun query ending given => ?_) moved,
        serves.moved regular orderly moved⟩
      exact same ▸ answered_of_gives (steady query) holds given)
    [] there ⟨Task.regular_called arrives, started⟩ calm
  obtain ⟨same, there', state⟩ := outcome?_eq_some_iff.mp finished
  obtain rfl : task = same := Option.some.inj (reached.symm.trans there')
  rw [run_outcome steady executor]
  exact serves.finished outcome state

end

/-- A request that is called agrees with one whose queries are executed one after the other, whatever
happened before and in whatever order its turns and those of other requests are taken, as long as no time
runs out. All that is asked of the executor is that its answers depend on the query alone. For every
executor, no more queries of the request run at a time than are allowed; no planned query is started before
every query of discovery was answered; where a query fails, the request ends with the failure of a query,
and where that was a query of discovery, no planned query is ever started; and the request has ended as
soon as no turn is due for it and no answer is held back. The turns that the controller takes by itself are
one of the orders. -/
theorem concurrent_agrees_with_sequential (executor : ε) (pace : Pace) (settings : Settings)
    (known : Option Schema) (before after : List Move) (document form : Value) (n : Nat)
    (limit : settings.maxConcurrentQueries = .int n) (positive : 1 ≤ n)
    (untimed : settings.timeLimit = .running ∨ settings.timeLimit = .unlimited)
    (calm : ∀ move ∈ after, move ≠ .expire) :
    let controller := (fresh executor pace settings known).follow before
    let id := controller.tasks.length
    let later := (controller.call document form).follow after
    let trace := (controller.call document form).trace id after
    (∀ (kind : ε → Prop) (answer : GroupingQuery → Outcome (List Row)), kind controller.executor →
        (∀ query, Run.Yields kind (Answerer.execute query) (answer query)) →
        ∀ outcome, later.outcome? id = some outcome →
          Agrees answer outcome (controller.run document form).2) ∧
      later.running id ≤ n ∧
      (∀ move ≠ .expire, ∀ query, .started query ∈ later.events id (later.move move) →
        later.running id < n) ∧
      WavesInOrder (Request.discoveryQueries controller.schema.2 settings document) trace ∧
      (∀ query error, .finished query (.error error) ∈ trace →
        (∀ outcome, later.outcome? id = some outcome →
          ∃ query error, .finished query (.error error) ∈ trace ∧ outcome = .error error) ∧
        (query.purpose = .discovery → ∀ query, .started query ∈ trace → query.purpose = .discovery)) ∧
      (later.due id = [] → later.isHeldUp id = false → (later.outcome? id).isSome = true) ∧
      ∃ schedule, (controller.runConcurrently document form).1 =
        (controller.call document form).follow schedule := by
  intro controller id later trace
  have supersedes : controller.Supersedes := (supersedes_fresh executor pace settings known).follow before
  have same : controller.settings = settings := follow_settings _ before
  have places : settings.places = some n := by simp [Settings.places, limit, Value.whole?]
  have accepted : Request.checkConcurrency settings = .ok () := Request.checkConcurrency_of_int limit
  rw [← same] at untimed
  obtain ⟨task, there, keeps, regular, recorded, inOrder⟩ := supersedes.call_onCourse untimed calm
  rw [same] at regular inOrder
  have orderly := keeps.tasks id task there
  have outcome (outcome : Outcome Response) (finished : later.outcome? id = some outcome) :
      task.state = .finished outcome := by
    obtain ⟨same, there', state⟩ := outcome?_eq_some_iff.mp finished
    obtain rfl : task = same := Option.some.inj (there.symm.trans there')
    exact state
  refine ⟨?_, ?_, ?_, inOrder, ?_, ?_, ?_⟩
  · intro kind answer holds steady outcome finished
    exact supersedes.call_agrees untimed calm (same ▸ accepted) holds steady finished
  · simp only [running, show later.task? id = some task from there, Option.elim_some]
    rcases regular.places with none | limit
    · simp [Wave.running, Wave.count, none]
    · exact Wave.running_le_places (limit.trans places)
  · intro move unexpired query started
    obtain ⟨next, after, moved⟩ := keeps.moved there unexpired
    simp only [running, events, show later.task? id = some task from there, Option.elim_some,
      show (later.move move).task? id = some next from after] at started ⊢
    rw [same] at moved
    exact moved.running_lt regular orderly places started
  · intro query error failed
    constructor
    · intro result finished
      rcases recorded.finished result (outcome result finished) with found | ⟨_, clean⟩
      · exact found
      · exact absurd failed (clean query error)
    · intro discovery
      rcases recorded.phase with early | late
      · exact early.started
      · simp [late.failed query error failed] at discovery
  · intro idle unheld
    rw [show later.due id = [] from idle] at orderly
    cases state : task.state with
    | submitted => exact absurd state regular.begun
    | running progress =>
      have held := regular.isHeldUp orderly places positive state
      simp [isHeldUp, show later.task? id = some task from there, held] at unheld
    | finished result => simp [outcome?, show later.task? id = some task from there, Task.outcome?, state]
  · obtain ⟨schedule, taken, _⟩ := proceed_eq_follow (.finish id) (controller.call document form).turnsLeft
      (controller.call document form)
    exact ⟨schedule, taken⟩

/-- Rows in memory that are not to fail. -/
def holdsRows (rows : List Row) (executor : Executor) : Prop :=
  ∃ schema calls executed, executor = .memory ⟨rows, schema, none, calls, executed⟩

private theorem execute_yields (rows : List Row) (query : GroupingQuery) :
    Run.Yields (holdsRows rows) (Answerer.execute query) (Source.answer rows query) := by
  rintro _ ⟨schema, calls, executed, rfl⟩
  exact ⟨rfl, schema, calls + 1, executed ++ [query], rfl⟩

/-- Jobs by their pay, beside towns: the planned queries are both under way, and the second one is answered
first. -/
theorem towns_answered_before_jobs :
    let pay : Value := .record [("type", "binding"), ("measure", "pay"), ("aggregations", .list ["sum"])]
    let ranked : Value := .record [("type", "dimension"), ("name", "job"),
      ("order_by", .record [("field", "pay"), ("aggregate", "sum")])]
    let town : Value := .record [("type", "dimension"), ("name", "town")]
    let document : Value := .record [("rows", .record [("type", "axis"), ("groups",
      .list [.record [("items", .list [ranked, pay])], .record [("items", .list [town, pay])]])])]
    let schema := Schema.ofNames ["job", "town"] ["pay"]
    let rows := Row.table ["job", "town", "pay"] [["smith", "York", 3], ["cook", "York", 5]]
    let settings : Settings := { queryTimeout := .null, maxConcurrentQueries := .int 2 }
    let controller := fresh (Executor.memory ⟨rows, schema, none, 0, []⟩) .gated settings (some schema)
    let after : List Move := [.turn 0, .openGate, .turn 0, .turn 0, .turn 0, .turn 0, .closeGate, .turn 0,
      .turn 1, .turn 0, .openGate, .turn 1, .turn 1, .turn 1, .turn 1] ++ List.replicate 6 (.turn 0)
    let called := controller.call document "grid"
    (called.trace 0 after).map (fun event => event.query.fields) =
        [["job"], ["job"], ["town"], ["job"], ["town"], ["job"]] ∧
      (called.follow (after.take 12)).running 0 = 2 ∧ (called.follow (after.take 12)).running 0 ≤ 2 ∧
      WavesInOrder (Request.discoveryQueries controller.schema.2 settings document) (called.trace 0 after) ∧
      ∃ response, (called.follow after).outcome? 0 = some (.ok response) ∧
        (controller.run document "grid").2 = .ok response := by
  intro pay ranked town document schema rows settings controller after called
  obtain ⟨events, both, _, last, response, rfl, -⟩ :
      (called.trace 0 after).map (fun event => event.query.fields) =
        [["job"], ["job"], ["town"], ["job"], ["town"], ["job"]] ∧
      (called.follow (after.take 12)).running 0 = 2 ∧
      ∃ outcome ∈ (called.follow after).outcome? 0, ∃ response, outcome = .ok response ∧ True := by
    decide +kernel
  have calm : ∀ move ∈ after, move ≠ .expire := by simp [after]
  obtain ⟨agrees, _, _, inOrder, _⟩ := concurrent_agrees_with_sequential controller.executor .gated settings
    (some schema) [] after document "grid" 2 rfl (by decide) (.inr rfl) calm
  obtain ⟨_, limited, _⟩ := concurrent_agrees_with_sequential controller.executor .gated settings
    (some schema) [] (after.take 12) document "grid" 2 rfl (by decide) (.inr rfl)
    fun move member => calm move (List.mem_of_mem_take member)
  have agreed := agrees (holdsRows rows) (Source.answer rows) ⟨_, _, _, rfl⟩ (execute_yields rows) _ last
  exact ⟨events, both, limited, inOrder, response, last, (agreed.1 response).mp rfl⟩

end Controller

end Crosstab
