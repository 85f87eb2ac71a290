import Crosstab.Proofs.Wave.Order

/-!
# What a turn does to a task

A turn changes one task alone, and what comes due by it are turns of the same task. `Task.Turned`
tells all that it can do.
-/
namespace Crosstab

open List Wave

def Turn.task : Turn → Nat
  | start id | wave id _ _ | resume id | wake id => id

namespace Task

/-- How a task goes on from where its request stands, and what comes due by that. -/
inductive Arrives (settings : Settings) (id : Nat) (task : Task) :
    Outcome Reached → Task → List Turn → Prop
  | fail (error : Error) :
    Arrives settings id task (.error error) { task with state := .finished (.error error) } [.wake id]
  | complete (grid : Grid) :
    Arrives settings id task (.ok (.complete grid))
      { task with state := .finished (Response.ofGrid task.form grid) } [.wake id]
  | await (progress : Progress) :
    Arrives settings id task (.ok (.awaiting progress))
      { task with
        state := .running progress, wave := .ofQueries settings.places progress.queries }
      (((List.range progress.queries.length).map fun index => (index, Due.query)).map
        fun turn => .wave id turn.1 turn.2)

/-- What a turn can do to its task, and what comes due by that. The executor gives a query the endings
for which `gives` holds. -/
inductive Turned (settings : Settings) (gives : GroupingQuery → Ending → Prop) (id : Nat) (task : Task) :
    Turn → Task → List Turn → Prop
  | refuse (revoked : task.revoked = true) :
    Turned settings gives id task (.start id) { task with state := .finished (.error .superseded) }
      [.wake id]
  | start {schema next new} (kept : task.revoked = false)
    (arrives : task.Arrives settings id
      (Except.bind schema fun schema => Progress.start schema settings task.document) next new) :
    Turned settings gives id task (.start id) next new
  | inquire {index inquiry taken changed turns} (there : task.wave.inquiries[index]? = some inquiry)
    (silent : taken ≠ .report)
    (turned : Wave.Turned settings.timeLimit (gives inquiry.query)
      (Request.timeoutFailure settings inquiry.query) index taken task.wave changed turns) :
    Turned settings gives id task (.wave id index taken) { task with wave := changed }
      (turns.map fun turn => .wave id turn.1 turn.2)
  | report {index} (inside : index < task.wave.inquiries.length) :
    Turned settings gives id task (.wave id index .report)
      { task with wave := (task.wave.reportTurn index).1 }
      (if (task.wave.reportTurn index).2 then [.resume id] else [])
  | skip {index taken} (outside : task.wave.inquiries.length ≤ index) :
    Turned settings gives id task (.wave id index taken) task []
  | abandon {error} (cause : task.revoked = true ∧ error = .superseded ∨
      (∃ progress, task.state = .running progress) ∧ task.wave.ending = some (.error error)) :
    Turned settings gives id task (.resume id)
      { task with state := .finished (.error error), wave := task.wave.withdrawAll.1 }
      ((task.wave.withdrawAll.2.map fun turn => .wave id turn.1 turn.2) ++ [.wake id])
  | resume {progress rows next new} (kept : task.revoked = false)
    (running : task.state = .running progress) (ended : task.wave.ending = some (.ok rows))
    (arrives : task.Arrives settings id
      (progress.next settings ((progress.queries.map GroupingQuery.key).zip rows)) next new) :
    Turned settings gives id task (.resume id) next new
  | idle (kept : task.revoked = false)
    (idle : (∀ progress, task.state ≠ .running progress) ∨ task.wave.ending = none) :
    Turned settings gives id task (.resume id) task []
  | wake : Turned settings gives id task (.wake id) task []

variable {settings : Settings} {gives : GroupingQuery → Ending → Prop} {id : Nat} {task next : Task}
  {turn : Turn} {new : List Turn}

private theorem task_of_mem_map (turns : Turns) :
    ∀ later ∈ turns.map fun turn => Turn.wave id turn.1 turn.2, later.task = id := by
  simp only [mem_map]
  rintro later ⟨_, _, rfl⟩
  rfl

theorem Arrives.task_of_mem {reached : Outcome Reached}
    (arrives : task.Arrives settings id reached next new) : ∀ later ∈ new, later.task = id := by
  cases arrives with
  | await progress => exact task_of_mem_map _
  | fail _ | complete _ => simp [Turn.task]

theorem Turned.task_of_mem (turned : task.Turned settings gives id turn next new) :
    ∀ later ∈ new, later.task = id := by
  cases turned with
  | start _ arrives | resume _ _ _ arrives => exact arrives.task_of_mem
  | inquire _ _ _ => exact task_of_mem_map _
  | report inside => split <;> simp [Turn.task]
  | abandon cause =>
    intro later member
    rcases mem_append.mp member with withdrawn | woken
    · exact task_of_mem_map _ later withdrawn
    · simp [mem_singleton.mp woken, Turn.task]
  | refuse _ | skip _ | idle _ _ | wake => simp [Turn.task]

/-- What a revocation can do to a task, and what comes due by that. -/
inductive Revokes (id : Nat) (task : Task) : Task → List Turn → Prop
  | finished {outcome} (finished : task.state = .finished outcome) : Revokes id task task []
  | submitted (submitted : task.state = .submitted) :
    Revokes id task { task with revoked := true } []
  | spent {progress} (running : task.state = .running progress)
    (spent : task.wave.ending.isSome = true ∨ task.wave.isOver = true) :
    Revokes id task { task with revoked := true } []
  | withdraw {progress} (running : task.state = .running progress) (unknown : task.wave.ending = none) :
    Revokes id task { task with wave := { task.wave.withdrawAll.1 with revoked := true } }
      (task.wave.withdrawAll.2.map fun turn => .wave id turn.1 turn.2)

theorem Revokes.task_of_mem (revokes : task.Revokes id next new) : ∀ later ∈ new, later.task = id := by
  cases revokes with
  | withdraw _ _ => exact task_of_mem_map _
  | finished _ | submitted _ | spent _ _ => simp

end Task

namespace Controller

variable {ε : Type} [Answerer ε] {controller : Controller ε} {id index : Nat} {task : Task}

/-- A controller with one task changed and some turns put at the end of its queue. -/
structure Revised (controller revised : Controller ε) (id : Nat) (task : Task) (new : List Turn) :
    Prop where
  tasks : revised.tasks = controller.tasks.set id task
  queue : revised.queue = controller.queue ++ new
  settings : revised.settings = controller.settings
  pace : revised.pace = controller.pace
  latest : revised.latest = controller.latest
  unclaimed : revised.unclaimed = controller.unclaimed
  executor : revised.executor = controller.executor ∨
    ∃ query, revised.executor = ((Answerer.execute query).exec controller.executor).1

/-- How the executor, in its present state, would end a query. -/
def Gives (controller : Controller ε) (query : GroupingQuery) (ending : Ending) : Prop :=
  ending = (controller.execute query).2

theorem revised_setWave {change : Wave × Turns} :
    controller.Revised (controller.setWave id task change) id { task with wave := change.1 }
      (change.2.map fun turn => .wave id turn.1 turn.2) :=
  ⟨rfl, rfl, rfl, rfl, rfl, rfl, .inl rfl⟩

theorem revised_finishTask {outcome : Outcome Response} :
    controller.Revised (controller.finishTask id task outcome) id
      { task with state := .finished outcome } [.wake id] :=
  ⟨rfl, rfl, rfl, rfl, rfl, rfl, .inl rfl⟩

private theorem Revised.trans {between revised : Controller ε} {next last : Task} {new more : List Turn}
    (first : controller.Revised between id next new) (second : between.Revised revised id last more)
    (untouched : between.executor = controller.executor) :
    controller.Revised revised id last (new ++ more) where
  tasks := by rw [second.tasks, first.tasks, set_set]
  queue := by rw [second.queue, first.queue, append_assoc]
  settings := second.settings.trans first.settings
  pace := second.pace.trans first.pace
  latest := second.latest.trans first.latest
  unclaimed := second.unclaimed.trans first.unclaimed
  executor := untouched ▸ second.executor

theorem revised_self (there : controller.task? id = some task) :
    controller.Revised controller id task [] where
  tasks := by
    obtain ⟨inside, same⟩ := List.getElem?_eq_some_iff.mp there
    rw [← same, List.set_getElem_self]
  queue := (append_nil _).symm
  settings := rfl
  pace := rfl
  latest := rfl
  unclaimed := rfl
  executor := .inl rfl

section

variable (controller)

theorem arrive_arrives (id : Nat) (task : Task) (reached : Outcome Reached) : ∃ next new,
    task.Arrives controller.settings id reached next new ∧
      controller.Revised (controller.arrive id task reached) id next new := by
  cases reached with
  | error error => exact ⟨_, _, .fail error, revised_finishTask⟩
  | ok reached =>
    cases reached with
    | complete grid => exact ⟨_, _, .complete grid, revised_finishTask⟩
    | awaiting progress => exact ⟨_, _, .await progress, revised_setWave⟩

theorem schema_eq : ∃ known, controller.schema.1 = { controller with knownSchema := known } := by
  unfold schema
  split
  · exact ⟨_, rfl⟩
  · split
    · exact ⟨_, rfl⟩
    · exact ⟨_, rfl⟩

theorem schema_snd :
    controller.schema.2 = controller.knownSchema.elim (Answerer.schema controller.executor) .ok := by
  unfold schema
  cases controller.knownSchema with
  | some schema => rfl
  | none => cases Answerer.schema controller.executor <;> rfl

theorem startTask_arrives (id : Nat) (task : Task) : ∃ next new, task.Arrives controller.settings id
      (Except.bind controller.schema.2 fun schema =>
        Progress.start schema controller.settings task.document) next new ∧
    controller.Revised (controller.startTask id task) id next new := by
  obtain ⟨known, same⟩ := schema_eq controller.countRequest
  have found : controller.countRequest.schema.2 = controller.schema.2 := by
    rw [schema_snd, schema_snd, countRequest]
  simp only [startTask, same, found]
  obtain ⟨next, new, arrives, revised⟩ :=
    arrive_arrives { controller.countRequest with knownSchema := known }
    id task (Except.bind controller.schema.2 fun schema =>
      Progress.start schema controller.settings task.document)
  exact ⟨next, new, arrives, revised.tasks, revised.queue, revised.settings, revised.pace, revised.latest,
    revised.unclaimed, revised.executor⟩

/-- The executor takes over a query that was admitted to its place. -/
theorem putQuery_turned (id : Nat) (inquiry : Inquiry) {admitted : Wave} {turns : Turns}
    (enters : Wave.Admitted index task.wave admitted turns) : ∃ changed more,
    Wave.Turned controller.settings.timeLimit (controller.Gives inquiry.query)
      (Request.timeoutFailure controller.settings inquiry.query) index .query task.wave changed
        (turns ++ more) ∧
    controller.Revised (controller.putQuery id index { task with wave := admitted } inquiry.query) id
      { task with wave := changed } (more.map fun turn => .wave id turn.1 turn.2) := by
  cases limit : controller.settings.timeLimit with
  | running =>
    refine ⟨_, _, enters.put (.put rfl), ?_⟩
    simp only [putQuery, limit]
    exact revised_setWave
  | expired =>
    refine ⟨_, _, enters.put (.expire rfl), ?_⟩
    simp only [putQuery, limit]
    exact revised_setWave
  | malformed problem =>
    refine ⟨_, _, enters.settle
      (.refuse enters.start rfl (.execution (.failed inquiry.query.describe problem))), ?_⟩
    simp only [putQuery, limit]
    exact revised_setWave
  | unlimited =>
    cases holds : controller.holdsBack with
    | true =>
      refine ⟨_, _, enters.put (.hold rfl), ?_⟩
      simp only [putQuery, limit, holds, if_true]
      exact revised_setWave
    | false =>
      refine ⟨_, _, enters.settle (.answerAtOnce enters.start rfl rfl), ?_⟩
      simp only [putQuery, limit, holds]
      exact ⟨rfl, rfl, rfl, rfl, rfl, rfl, .inr ⟨inquiry.query, rfl⟩⟩

end

private theorem answerTurn_turned (inquiry : Inquiry) (index : Nat)
    (there : controller.task? id = some task) :
    ∃ changed turns, Wave.Turned controller.settings.timeLimit (controller.Gives inquiry.query)
      (Request.timeoutFailure controller.settings inquiry.query) index .answer task.wave changed turns ∧
    controller.Revised (controller.answerTurn id index task inquiry.query) id
      { task with wave := changed } (turns.map fun turn => .wave id turn.1 turn.2) := by
  cases stage : task.wave.stage index with
  | put withdrawn =>
    cases holds : controller.holdsBack with
    | true =>
      cases withdrawn with
      | true =>
        refine ⟨_, _, turned_shift stage .holdWithdrawn, ?_⟩
        simp only [answerTurn, stage, holds, if_true]
        exact revised_setWave
      | false =>
        refine ⟨_, _, turned_shift stage .hold, ?_⟩
        simp only [answerTurn, stage, holds, if_true]
        exact revised_setWave
    | false =>
      cases withdrawn with
      | true =>
        refine ⟨_, _, turned_shift stage (.answerWithdrawn rfl), ?_⟩
        simp only [answerTurn, stage, holds]
        exact ⟨rfl, rfl, rfl, rfl, rfl, rfl, .inr ⟨inquiry.query, rfl⟩⟩
      | false =>
        refine ⟨_, _, turned_shift stage (.answer rfl), ?_⟩
        simp only [answerTurn, stage, holds]
        exact ⟨rfl, rfl, rfl, rfl, rfl, rfl, .inr ⟨inquiry.query, rfl⟩⟩
  | expiring =>
    refine ⟨_, _, turned_shift stage .expire, ?_⟩
    simp only [answerTurn, stage]
    exact revised_setWave
  | recalling ending =>
    refine ⟨_, _, turned_shift stage (.giveUp ending), ?_⟩
    simp only [answerTurn, stage]
    rw [← stage, setStage_stage]
    exact revised_setWave
  | _ =>
    refine ⟨_, _, turned_idle stage rfl, ?_⟩
    simp only [answerTurn, stage]
    exact revised_self there

private theorem revised_abandon {error : Error} :
    controller.Revised (controller.abandon id task error) id
      { task with state := .finished (.error error), wave := task.wave.withdrawAll.1 }
      ((task.wave.withdrawAll.2.map fun turn => .wave id turn.1 turn.2) ++ [.wake id]) :=
  ⟨rfl, append_assoc .., rfl, rfl, rfl, rfl, .inl rfl⟩

private theorem resumeTask_turned (there : controller.task? id = some task) : ∃ next new,
    task.Turned controller.settings controller.Gives id (.resume id) next new ∧
      controller.Revised (controller.resumeTask id task) id next new := by
  unfold resumeTask
  split
  next revoked => exact ⟨_, _, .abandon (.inl ⟨revoked, rfl⟩), revised_abandon⟩
  next kept =>
    have kept : task.revoked = false := by simpa using kept
    split
    next progress error running ended =>
      exact ⟨_, _, .abandon (.inr ⟨⟨progress, running⟩, ended⟩), revised_abandon⟩
    next progress rows running ended =>
      obtain ⟨next, new, arrives, revised⟩ := arrive_arrives controller id task
        (progress.next controller.settings ((progress.queries.map GroupingQuery.key).zip rows))
      exact ⟨next, new, .resume kept running ended arrives, revised⟩
    next failed succeeded =>
      refine ⟨_, _, .idle kept ?_, revised_self there⟩
      by_contra both
      simp only [not_or, not_forall, not_not] at both
      obtain ⟨⟨progress, running⟩, known⟩ := both
      cases ending : task.wave.ending with
      | none => exact known ending
      | some ending' =>
        cases ending' with
        | error error => exact failed progress error running ending
        | ok rows => exact succeeded progress rows running ending

theorem take_turned (controller : Controller ε) (turn : Turn)
    (there : controller.task? turn.task = some task) : ∃ next new,
    task.Turned controller.settings controller.Gives turn.task turn next new ∧
      controller.Revised (controller.take turn) turn.task next new := by
  cases turn with
  | start id =>
    replace there : controller.task? id = some task := there
    simp only [take, there]
    cases revoked : task.revoked with
    | true => exact ⟨_, _, .refuse revoked, revised_finishTask⟩
    | false =>
      obtain ⟨next, new, arrives, revised⟩ := startTask_arrives controller id task
      exact ⟨next, new, .start revoked arrives, revised⟩
  | wave id index due =>
    replace there : controller.task? id = some task := there
    simp only [take, there]
    cases member : task.wave.inquiries[index]? with
    | none => exact ⟨_, _, .skip (getElem?_eq_none_iff.mp member), revised_self there⟩
    | some inquiry =>
      cases due with
      | query =>
        simp only [waveTurn]
        cases puts : (task.wave.queryTurn index).2.2 with
        | false => exact ⟨_, _, .inquire member nofun (queryTurn_turned puts), revised_setWave⟩
        | true =>
          have enters := queryTurn_admitted puts
          obtain ⟨changed, more, turned, revised⟩ := putQuery_turned
            (controller.setWave id task ((task.wave.queryTurn index).1, (task.wave.queryTurn index).2.1))
            id inquiry enters
          refine ⟨_, _, .inquire member nofun turned, ?_⟩
          rw [map_append]
          exact revised_setWave.trans revised rfl
      | answer =>
        obtain ⟨changed, turns, turned, revised⟩ := answerTurn_turned inquiry index there
        exact ⟨_, _, .inquire member nofun turned, revised⟩
      | notice => exact ⟨_, _, .inquire member nofun noticeTurn_turned, revised_setWave⟩
      | report =>
        refine ⟨_, _, .report (List.getElem?_eq_some_iff.mp member).1, ?_⟩
        simp only [waveTurn]
        cases ended : (task.wave.reportTurn index).2 with
        | false => exact ⟨rfl, (append_nil _).symm, rfl, rfl, rfl, rfl, .inl rfl⟩
        | true => exact ⟨rfl, rfl, rfl, rfl, rfl, rfl, .inl rfl⟩
  | resume id =>
    replace there : controller.task? id = some task := there
    simp only [take, there]
    exact resumeTask_turned there
  | wake id => exact ⟨task, [], .wake, revised_self there⟩

theorem revoke_revokes (there : controller.task? id = some task) : ∃ next new,
    task.Revokes id next new ∧ controller.Revised (controller.revoke id) id next new := by
  have flagged : controller.Revised (controller.setTask id { task with revoked := true }) id
      { task with revoked := true } [] :=
    ⟨rfl, (append_nil _).symm, rfl, rfl, rfl, rfl, .inl rfl⟩
  unfold revoke
  simp only [there]
  split
  next outcome finished => exact ⟨_, _, .finished finished, revised_self there⟩
  next submitted => exact ⟨_, _, .submitted submitted, flagged⟩
  next progress running =>
    split
    next spent => exact ⟨_, _, .spent running (by simpa using spent), flagged⟩
    next open_ =>
      simp only [Bool.or_eq_true, not_or, Option.isSome_iff_ne_none, ne_eq, not_not] at open_
      exact ⟨_, _, .withdraw running open_.1, revised_setWave⟩

/-- Before a task is submitted, the latest one is revoked; without one nothing changes. -/
theorem revoke_latest_cases (controller : Controller ε) :
    controller.latest.elim controller controller.revoke = controller ∨
    ∃ other task next new, controller.latest = some other ∧ controller.task? other = some task ∧
      task.Revokes other next new ∧
      controller.Revised (controller.latest.elim controller controller.revoke) other next new := by
  cases controller.latest with
  | none => exact .inl rfl
  | some other =>
    rw [Option.elim_some]
    cases there : controller.task? other with
    | none => exact .inl (by simp only [revoke, there])
    | some task =>
      obtain ⟨next, new, revokes, revised⟩ := revoke_revokes there
      exact .inr ⟨other, task, next, new, rfl, there, revokes, revised⟩

end Controller

end Crosstab
