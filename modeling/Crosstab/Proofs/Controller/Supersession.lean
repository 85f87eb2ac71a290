import Crosstab.Proofs.Controller.Schedule

/-!
# Superseded requests

A task that has not finished when another one is submitted ends without a response under every
schedule. One that has finished keeps its outcome.
-/
namespace Crosstab

namespace Task

variable {id : Nat} {task next : Task} {due later new : List Turn}

/-- Neither finished nor revoked in any way. -/
def isLive (task : Task) : Bool := !task.isFinished && !task.revoked && !task.wave.revoked

/-- The task was revoked, and will not end with a response. -/
def Doomed (task : Task) : Prop :=
  match task.state with
  | .submitted => task.revoked = true
  | .running _ => task.wave.revoked = true ∨
    task.revoked = true ∧ (task.wave.ending.isSome = true ∨ task.wave.isOver = true)
  | .finished outcome => ∃ error, outcome = .error error ∧ (error = .superseded ∨ task.wave.HasFailed error)

private theorem isLive_of_doomed (doomed : task.Doomed) : task.isLive = false := by
  unfold Doomed at doomed
  split at doomed
  next submitted => simp [isLive, doomed]
  next progress running =>
    rcases doomed with revoked | ⟨revoked, _⟩ <;> simp [isLive, revoked]
  next outcome finished => simp [isLive, isFinished, outcome?, finished]

theorem Revokes.doomed (revokes : task.Revokes id next new) (unfinished : task.outcome? = none) :
    next.Doomed := by
  cases revokes with
  | finished finished => simp [outcome?, finished] at unfinished
  | submitted submitted => simp [Doomed, submitted]
  | spent running spent => simp [Doomed, running, spent]
  | withdraw running unknown => simp [Doomed, running]

variable {changed : Wave}

theorem Doomed.setWave (doomed : task.Doomed) (continues : Wave.Continues task.wave changed)
    (revoked : changed.revoked = task.wave.revoked)
    (known : task.wave.ending.isSome → changed.ending.isSome) :
    Doomed { task with wave := changed } := by
  unfold Doomed at doomed ⊢
  split at doomed
  next submitted => simpa [submitted] using doomed
  next progress running =>
    simp only [running, revoked]
    exact doomed.imp_right fun ⟨revoked, cause⟩ => ⟨revoked, cause.imp known continues.isOver⟩
  next outcome finished =>
    simp only [finished]
    obtain ⟨error, same, cause⟩ := doomed
    exact ⟨error, same, cause.imp_right continues.hasFailed⟩

theorem Doomed.advances (doomed : task.Doomed) (advances : Wave.Advances task.wave changed) :
    Doomed { task with wave := changed } :=
  doomed.setWave advances.toContinues advances.revoked fun known => by rwa [advances.ending]

section

variable {settings : Settings} {gives : GroupingQuery → Ending → Prop} {turn : Turn} {rest : List Turn}

private theorem Doomed.turned (doomed : task.Doomed) (orderly : task.Orderly id (turn :: rest))
    (turned : task.Turned settings gives id turn next new) : next.Doomed := by
  cases turned with
  | refuse revoked => exact ⟨.superseded, rfl, .inl rfl⟩
  | start kept arrives =>
    obtain ⟨submitted, _⟩ := orderly.first
    simp [Doomed, submitted, kept] at doomed
  | inquire there silent turned => exact doomed.advances turned.advances
  | @report index inside =>
    obtain ⟨_, _, revoked⟩ := Wave.reportTurn_eq task.wave index
    refine doomed.setWave (Wave.continues_reportTurn task.wave index) revoked fun known => ?_
    rcases Wave.reportTurn_known task.wave index with ⟨_, same⟩ | ⟨_, _, some⟩
    · rwa [same]
    · exact some
  | skip outside => exact doomed
  | @abandon error cause =>
    refine ⟨error, rfl, ?_⟩
    rcases cause with ⟨_, rfl⟩ | ⟨_, ended⟩
    · exact .inl rfl
    · rcases orderly.wave.failed error ended with failed | ⟨superseded, _⟩
      · exact .inr ((Wave.advances_sweep fun inquiry =>
          Stage.sweeps_withdraw inquiry.stage).hasFailed failed)
      · exact .inl superseded
  | resume kept running ended arrives =>
    simp only [Doomed, running, kept, Bool.false_eq_true, false_and, or_false] at doomed
    have unrevoked := (orderly.wave.succeeded _ ended).1
    simp [doomed] at unrevoked
  | idle kept idle => exact doomed
  | wake => exact doomed

variable {revocable expirable : Prop}

theorem Doomed.moved (doomed : task.Doomed) (orderly : task.Orderly id due)
    (moved : task.Moved settings gives revocable expirable id due next later) : next.Doomed := by
  cases moved with
  | rest _ => exact doomed
  | turn taken turned => exact doomed.turned (orderly.of_perm taken) turned
  | revoke _ revokes =>
    cases unfinished : task.outcome? with
    | none => exact revokes.doomed unfinished
    | some outcome =>
      have finished : task.state = .finished outcome := by
        cases state : task.state <;> simp_all [outcome?]
      cases revokes with
      | finished _ => exact doomed
      | submitted submitted => simp [submitted] at finished
      | spent running _ | withdraw running _ => simp [running] at finished
  | unhold => exact doomed.advances (Wave.advances_sweep fun inquiry => Stage.sweeps_unhold inquiry.stage)
  | expire _ => exact doomed.advances (Wave.advances_sweep fun inquiry =>
      Stage.sweeps_expire _ inquiry.stage)

theorem Moved.outcome_stays {outcome : Outcome Response}
    (moved : task.Moved settings gives revocable expirable id due next later)
    (orderly : task.Orderly id due) (finished : task.state = .finished outcome) :
    next.state = .finished outcome := by
  cases moved with
  | rest _ | unhold | expire _ => exact finished
  | turn taken turned =>
    have orderly := orderly.of_perm taken
    cases turned with
    | refuse _ | start _ _ => cases finished.symm.trans orderly.first.1
    | abandon _ | resume _ _ _ _ | idle _ _ =>
      obtain ⟨⟨progress, running⟩, _⟩ := orderly.resuming
      cases finished.symm.trans running
    | inquire _ _ _ | report _ | skip _ | wake => exact finished
  | revoke _ revokes =>
    cases revokes with
    | finished _ => exact finished
    | submitted submitted => simp [submitted] at finished
    | spent running _ | withdraw running _ => simp [running] at finished

/-- The task has finished, or it is doomed. -/
def Retired (task : Task) : Prop := task.isFinished = true ∨ task.Doomed

private theorem Retired.moved (retired : task.Retired) (orderly : task.Orderly id due)
    (moved : task.Moved settings gives revocable expirable id due next later) : next.Retired := by
  rcases retired with finished | doomed
  · cases state : task.state with
    | finished outcome =>
      have stays := moved.outcome_stays orderly state
      exact .inl (by simp [isFinished, outcome?, stays])
    | _ => simp [isFinished, outcome?, state] at finished
  · exact .inr (doomed.moved orderly moved)

private theorem Revokes.retired (revokes : task.Revokes id next new) : next.Retired := by
  cases unfinished : task.outcome? with
  | none => exact .inr (revokes.doomed unfinished)
  | some outcome =>
    cases revokes with
    | finished _ => exact .inl (by simp [isFinished, unfinished])
    | submitted submitted => simp [outcome?, submitted] at unfinished
    | spent running _ | withdraw running _ => simp [outcome?, running] at unfinished

end

private theorem Doomed.finished_of_idle (doomed : task.Doomed) (orderly : task.Orderly id []) :
    task.isFinished := by
  cases state : task.state with
  | finished outcome => simp [isFinished, outcome?, state]
  | submitted =>
    have started := orderly.start
    simp [isSubmitted, state] at started
  | running progress =>
    obtain ⟨i, inside, waits⟩ := orderly.exists_waiting state
    simp only [Doomed, state] at doomed
    rcases doomed with revoked | ⟨_, known | spent⟩
    · have ending := orderly.wave.revoked revoked i
      rcases waits with stage | stage <;> simp [stage, Stage.isEnding] at ending
    · have resumed := orderly.resume
      simp [isResuming, state, known] at resumed
    · have done := Wave.stage_isDone_of_isOver spent i
      rcases waits with stage | stage <;> simp [stage, Stage.isDone] at done

end Task

namespace Controller

variable {ε : Type} [Answerer ε] {controller : Controller ε} {id : Nat}

section

variable (controller)

def outcome? (id : Nat) : Option (Outcome Response) :=
  (controller.task? id).bind Task.outcome?

def isLive (id : Nat) : Bool := (controller.task? id).any Task.isLive

/-- A query of a task has failed. -/
def HasFailed (id : Nat) (error : Error) : Prop :=
  ∃ task, controller.task? id = some task ∧ task.wave.HasFailed error

/-- Of the submitted tasks, all but the latest one have finished or are doomed. -/
structure Supersedes : Prop extends Orderly controller where
  latest : controller.latest = controller.unclaimed.getLast?
  retired : ∀ id ∈ controller.unclaimed, ∃ task, controller.task? id = some task ∧
    (controller.unclaimed.getLast? = some id ∨ task.Retired)

/-- A move does not touch the settings, may have the executor answer a query, and changes which tasks
are submitted only by submitting one. -/
theorem move_frame (move : Move) : (controller.move move).settings = controller.settings ∧
      ((controller.move move).executor = controller.executor ∨ ∃ query,
        (controller.move move).executor = ((Answerer.execute query).exec controller.executor).1) ∧
      ((∃ document form, move = .submit document form) ∨
        ((controller.move move).latest = controller.latest ∧
          (controller.move move).unclaimed = controller.unclaimed)) := by
  cases move with
  | submit document form =>
    simp only [Controller.move, submit]
    obtain same | ⟨_, _, _, _, _, _, _, revised⟩ := controller.revoke_latest_cases
    · rw [same]
      exact ⟨rfl, .inl rfl, .inl ⟨document, form, rfl⟩⟩
    · exact ⟨revised.settings, revised.executor, .inl ⟨document, form, rfl⟩⟩
  | call document form =>
    obtain ⟨_, _, _, revised⟩ := startTask_arrives
      { controller with tasks := controller.tasks ++ [{ document, form }] } controller.tasks.length
      { document, form }
    exact ⟨revised.settings, revised.executor, .inr ⟨revised.latest, revised.unclaimed⟩⟩
  | turn place =>
    cases taken : controller.queue[place]? with
    | none => simp [Controller.move, taken]
    | some turn =>
      simp only [Controller.move, taken]
      cases there : controller.task? turn.task with
      | none =>
        rw [(controller.without place).take_of_none turn there]
        exact ⟨rfl, .inl rfl, .inr ⟨rfl, rfl⟩⟩
      | some task =>
        obtain ⟨_, _, _, revised⟩ := (controller.without place).take_turned turn there
        exact ⟨revised.settings, revised.executor, .inr ⟨revised.latest, revised.unclaimed⟩⟩
  | openGate =>
    simp only [Controller.move, openGate]
    split <;> exact ⟨rfl, .inl rfl, .inr ⟨rfl, rfl⟩⟩
  | closeGate | expire => exact ⟨rfl, .inl rfl, .inr ⟨rfl, rfl⟩⟩

end

theorem submit_unclaimed (document form : Value) :
    (controller.submit document form).unclaimed = controller.unclaimed ++ [controller.tasks.length] ∧
      (controller.submit document form).task? controller.tasks.length = some { document, form } := by
  have prior : (controller.latest.elim controller controller.revoke).unclaimed = controller.unclaimed ∧
      (controller.latest.elim controller controller.revoke).tasks.length = controller.tasks.length := by
    obtain same | ⟨_, _, _, _, _, _, _, revised⟩ := controller.revoke_latest_cases
    · rw [same]
      exact ⟨rfl, rfl⟩
    · exact ⟨revised.unclaimed, by rw [revised.tasks, List.length_set]⟩
  simp only [submit, task?, prior.1, prior.2, true_and]
  rw [← prior.2, List.getElem?_concat_length]

/-- Every move leaves all submitted tasks but the latest one finished or doomed. -/
theorem Supersedes.move (supersedes : controller.Supersedes) (move : Move) :
    (controller.move move).Supersedes := by
  have orderly := supersedes.toOrderly
  rcases (controller.move_frame move).2.2 with ⟨document, form, rfl⟩ | ⟨latest, unclaimed⟩
  · obtain ⟨unclaimed, added⟩ := controller.submit_unclaimed document form
    refine ⟨orderly.move _, by simp [Controller.move, submit], ?_⟩
    simp only [Controller.move]
    rw [unclaimed, List.getLast?_concat]
    intro id member
    rcases List.mem_append.mp member with older | last
    · obtain ⟨task, there, retired⟩ := supersedes.retired id older
      rw [← supersedes.latest] at retired
      by_cases latest : controller.latest = some id
      · obtain ⟨next, new, revokes, after, _⟩ := submit_latest document form there latest
        exact ⟨next, after, .inr revokes.retired⟩
      · exact ⟨task, (submit_other document form there latest).1, .inr (retired.resolve_left latest)⟩
    · obtain rfl := List.mem_singleton.mp last
      exact ⟨_, added, .inl rfl⟩
  · refine ⟨orderly.move move, by rw [latest, unclaimed, supersedes.latest], ?_⟩
    rw [unclaimed]
    intro id member
    obtain ⟨task, there, retired⟩ := supersedes.retired id member
    obtain ⟨next, after, moved⟩ := move_moved move there
    exact ⟨next, after, retired.imp_right fun retired => retired.moved (orderly.tasks id task there) moved⟩

omit [Answerer ε] in
theorem supersedes_fresh (executor : ε) (pace : Pace) (settings : Settings) (known : Option Schema) :
    (fresh executor pace settings known).Supersedes where
  tasks := by simp [fresh, task?]
  turns := by simp [fresh, due]
  latest := rfl
  retired := by simp [fresh]

theorem Supersedes.follow (supersedes : controller.Supersedes) (schedule : List Move) :
    (controller.follow schedule).Supersedes := by
  induction schedule generalizing controller with
  | nil => exact supersedes
  | cons move others ih => exact ih (supersedes.move move)

variable {task : Task} {outcome : Outcome Response}

/-- What every move of an orderly task keeps, every schedule keeps. -/
theorem follow_keeps {P : Task → Prop} (orderly : controller.Orderly) (schedule : List Move)
    (kept : ∀ {settings gives revocable expirable due task next later}, task.Orderly id due →
      Task.Moved settings gives revocable expirable id task due next later → P task → P next)
    (there : controller.task? id = some task) (holds : P task) :
    ∃ next, (controller.follow schedule).task? id = some next ∧ P next := by
  induction schedule generalizing controller task with
  | nil => exact ⟨task, there, holds⟩
  | cons move others ih =>
    obtain ⟨next, after, moved⟩ := move_moved move there
    exact ih (orderly.move move) after (kept (orderly.tasks id task there) moved holds)

private theorem doomed_follow (orderly : controller.Orderly) (schedule : List Move)
    (there : controller.task? id = some task) (doomed : task.Doomed) :
    ∃ next, (controller.follow schedule).task? id = some next ∧ next.Doomed :=
  follow_keeps orderly schedule (fun orderly moved doomed => doomed.moved orderly moved) there doomed

omit [Answerer ε] in
theorem outcome?_eq_some_iff : controller.outcome? id = some outcome ↔
    ∃ task, controller.task? id = some task ∧ task.state = .finished outcome := by
  rw [outcome?, Option.bind_eq_some_iff]
  refine exists_congr fun task => and_congr_right fun _ => ?_
  cases state : task.state <;> simp [Task.outcome?, state]

/-- A task that has finished keeps its outcome under every schedule. -/
theorem outcome?_follow (orderly : controller.Orderly) (schedule : List Move)
    (finished : controller.outcome? id = some outcome) :
    (controller.follow schedule).outcome? id = some outcome := by
  obtain ⟨task, there, state⟩ := outcome?_eq_some_iff.mp finished
  exact outcome?_eq_some_iff.mpr
    (follow_keeps orderly schedule (fun orderly moved => moved.outcome_stays orderly) there state)

omit [Answerer ε] in
private theorem Supersedes.latest_of_isLive (supersedes : controller.Supersedes)
    (member : id ∈ controller.unclaimed)
    (live : controller.isLive id) : controller.unclaimed.getLast? = some id := by
  obtain ⟨task, there, latest | finished | doomed⟩ := supersedes.retired id member
  · exact latest
  · simp [isLive, there, Task.isLive, finished] at live
  · simp [isLive, there, Task.isLive_of_doomed doomed] at live

/-- A submission dooms every task submitted before that has not finished. -/
theorem Supersedes.doomed_submit (supersedes : controller.Supersedes) (document form : Value)
    (member : id ∈ controller.unclaimed) (unfinished : controller.outcome? id = none) :
    ∃ task, (controller.submit document form).task? id = some task ∧ task.Doomed := by
  obtain ⟨task, there, retired⟩ := supersedes.retired id member
  have unfinished : task.outcome? = none := by simpa [outcome?, there] using unfinished
  rw [← supersedes.latest] at retired
  by_cases latest : controller.latest = some id
  · obtain ⟨next, new, revokes, after, _⟩ := submit_latest document form there latest
    exact ⟨next, after, revokes.doomed unfinished⟩
  · refine ⟨task, (submit_other document form there latest).1, ?_⟩
    exact (retired.resolve_left latest).resolve_left (by simp [Task.isFinished, unfinished])

/-- A submission settles every request submitted before it, under every schedule of the moves before and
after. At any time only the latest submitted request may be live. A request that had finished keeps its
outcome. One that had not never ends with a response: it ends as superseded or with the failure of one of
its own queries, and it has ended as soon as no turn is due for it. -/
theorem superseded_never_responds (executor : ε) (pace : Pace) (settings : Settings)
    (known : Option Schema) (before after : List Move) (document form : Value) :
    let controller := (fresh executor pace settings known).follow before
    let later := (controller.submit document form).follow after
    (∀ id ∈ later.unclaimed, later.isLive id = true → later.unclaimed.getLast? = some id) ∧
      ∀ id ∈ controller.unclaimed,
        (∀ outcome, controller.outcome? id = some outcome → later.outcome? id = some outcome) ∧
        (controller.outcome? id = none →
          (∀ outcome, later.outcome? id = some outcome → ∃ error, outcome = .error error ∧
            (error = .superseded ∨ later.HasFailed id error)) ∧
          (later.due id = [] → (later.outcome? id).isSome = true)) := by
  intro controller later
  have earlier : controller.Supersedes := (supersedes_fresh executor pace settings known).follow before
  have submitted : (controller.submit document form).Supersedes := earlier.move (.submit document form)
  have supersedes : later.Supersedes := submitted.follow after
  refine ⟨fun id member live => supersedes.latest_of_isLive member live, fun id member => ⟨?_, ?_⟩⟩
  · intro outcome finished
    exact outcome?_follow earlier.toOrderly (.submit document form :: after) finished
  · intro unfinished
    obtain ⟨doomed, there, isDoomed⟩ := earlier.doomed_submit document form member unfinished
    obtain ⟨task, there, isDoomed⟩ := doomed_follow submitted.toOrderly after there isDoomed
    constructor
    · intro outcome finished
      obtain ⟨same, there', state⟩ := outcome?_eq_some_iff.mp finished
      obtain rfl : task = same := Option.some.inj (there.symm.trans there')
      simp only [Task.Doomed, state] at isDoomed
      exact isDoomed.imp fun error ⟨same, cause⟩ => ⟨same, cause.imp_right fun failed =>
        ⟨task, there, failed⟩⟩
    · intro idle
      have orderly := supersedes.tasks id task there
      rw [idle] at orderly
      rw [outcome?, there]
      exact isDoomed.finished_of_idle orderly

/-- Of three requests the first has finished when the second is submitted, and the second waits for an
answer that is held back when the third is. -/
theorem second_of_three_superseded :
    let listing (field : String) : Value :=
      .record [("rows", .record [("type", "axis"), ("groups", .list [.record [("items",
        .list [.record [("type", "dimension"), ("name", .text field)]])]])])]
    let schema := Schema.ofNames ["job", "town"] []
    let rows := Row.table ["job", "town"] [["smith", "York"], ["cook", "York"]]
    let executor := Executor.memory ⟨rows, schema, none, 0, []⟩
    let settings : Settings := { queryTimeout := .null }
    let before : List Move := .openGate :: .submit (listing "town") "grid" ::
      List.replicate 5 (.turn 0) ++ [.closeGate, .submit (listing "job") "grid", .turn 0, .turn 0]
    let controller := (fresh executor .gated settings (some schema)).follow before
    let later := (controller.submit (listing "town") "dict").follow (List.replicate 9 (.turn 0))
    later.unclaimed = [0, 1, 2] ∧ later.isLive 2 = true ∧
      (∃ response, controller.outcome? 0 = some (.ok response) ∧ later.outcome? 0 = some (.ok response)) ∧
      controller.outcome? 1 = none ∧ ∃ error, later.outcome? 1 = some (.error error) ∧
        (error = .superseded ∨ later.HasFailed 1 error) := by
  intro listing schema rows executor settings before controller later
  obtain ⟨claims, claimed, live, unfinished, idle, _, first, response, rfl, -⟩ :
      later.unclaimed = [0, 1, 2] ∧ controller.unclaimed = [0, 1] ∧ later.isLive 2 = true ∧
      (controller.outcome? 1).isNone = true ∧ later.due 1 = [] ∧
      ∃ outcome ∈ controller.outcome? 0, ∃ response, outcome = .ok response ∧ True := by
    decide +kernel
  have unfinished : controller.outcome? 1 = none := Option.isNone_iff_eq_none.mp unfinished
  obtain ⟨_, settled⟩ := superseded_never_responds executor .gated settings (some schema) before
    (List.replicate 9 (.turn 0)) (listing "town") "dict"
  refine ⟨claims, live, ?_, unfinished, ?_⟩
  · obtain ⟨keeps, _⟩ := settled 0 (by rw [claimed]; decide)
    exact ⟨response, first, keeps _ first⟩
  · obtain ⟨_, ends⟩ := settled 1 (by rw [claimed]; decide)
    obtain ⟨fails, finishes⟩ := ends unfinished
    obtain ⟨outcome, last⟩ := Option.isSome_iff_exists.mp (finishes idle)
    obtain ⟨error, rfl, cause⟩ := fails outcome last
    exact ⟨error, last, cause⟩

/-- A request may also end with the failure of a query that was put to the executor before it was
superseded. -/
theorem superseded_after_failure :
    let listing (field : String) : Value :=
      .record [("items", .list [.record [("type", "dimension"), ("name", .text field)]])]
    let document : Value := .record [("rows", .record [("type", "axis"),
      ("groups", .list [listing "job", listing "town"])])]
    let schema := Schema.ofNames ["job", "town"] []
    let rows := Row.table ["job", "town"] [["smith", "York"]]
    let executor := Executor.memory ⟨rows, schema, some (0, ⟨.other "RuntimeError", "down"⟩), 0, []⟩
    let controller := (fresh executor .prompt { queryTimeout := .null } (some schema)).follow
      [.submit document "grid", .turn 0, .turn 0]
    let later := (controller.submit document "grid").follow (List.replicate 5 (.turn 0))
    controller.unclaimed = [0] ∧ controller.outcome? 0 = none ∧
      later.outcome? 0 = some (.error (.execution (.failed
        "[main] group_by(job) aggregate(count) where and(job is-not-null, town is-not-null)" "down"))) := by
  intro listing document schema rows executor controller later
  have met : controller.unclaimed = [0] ∧ (controller.outcome? 0).isNone = true ∧
      ((later.outcome? 0).any fun outcome =>
        match outcome with
        | .error (.execution cause) => decide (cause = .failed
          "[main] group_by(job) aggregate(count) where and(job is-not-null, town is-not-null)" "down")
        | _ => false) = true := by
    decide +kernel
  obtain ⟨claimed, unfinished, failed⟩ := met
  refine ⟨claimed, Option.isNone_iff_eq_none.mp unfinished, ?_⟩
  cases last : later.outcome? 0 with
  | none => simp [last] at failed
  | some outcome =>
    rw [last, Option.any_some] at failed
    split at failed
    next cause => rw [of_decide_eq_true failed]
    next => cases failed

end Controller

end Crosstab
