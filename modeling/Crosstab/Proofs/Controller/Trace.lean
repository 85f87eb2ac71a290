import Crosstab.Proofs.Controller.Schedule
import Crosstab.Proofs.Wave.Events

/-!
# The course of a task

What has happened to the queries of a task along a schedule is its trace. A task that nobody revokes
and for which no time runs out takes its course.
-/
namespace Crosstab

open List Outcome Wave Stage Request

/-! ### The purposes of queries -/

theorem purpose_of_mem_mergeRequests {purpose : Purpose} {requests : List QueryRequest}
    {query : GroupingQuery}
    (member : query ∈ mergeRequests purpose requests) : query.purpose = purpose := by
  suffices each : ∀ requests queries, (∀ query ∈ queries, query.purpose = purpose) →
      ∀ query ∈ foldl (addRequest purpose) queries requests, query.purpose = purpose from
    each requests [] (by simp) query member
  intro requests
  induction requests with
  | nil => exact fun _ all => all
  | cons request others ih =>
    intro queries all
    refine ih _ fun query added => ?_
    unfold addRequest at added
    split at added
    · obtain ⟨before, there, rfl⟩ := mem_map.mp added
      split <;> exact all before there
    · rcases mem_append.mp added with older | new
      · exact all query older
      · obtain rfl := mem_singleton.mp new
        rfl

theorem Table.purpose_of_discover {table : Table} {plan : DiscoveryPlan}
    (returned : table.discover = .ok plan) :
    ∀ query ∈ plan.queries, query.purpose = .discovery := by
  obtain ⟨_, _, returned⟩ := bind_eq_ok.mp returned
  cases returned
  exact fun query member => purpose_of_mem_mergeRequests member

theorem ResolvedTable.purpose_of_plan {resolved : ResolvedTable} {plan : QueryPlan}
    (returned : resolved.plan = .ok plan) : ∀ query ∈ plan.mainQueries, query.purpose = .main := by
  obtain ⟨_, _, returned⟩ := bind_eq_ok.mp returned
  obtain ⟨_, _, returned⟩ := bind_eq_ok.mp returned
  cases returned
  exact fun query member => purpose_of_mem_mergeRequests member

namespace Progress

variable {settings : Settings} {progress after : Progress}

/-- The request waits for the answers to its planned queries. -/
def IsTabulating (progress : Progress) : Prop :=
  (∃ resolved plan, progress = .tabulating resolved plan) ∧
    ∀ query ∈ progress.queries, query.purpose = .main

theorem isTabulating_of_discovered {table : Table} {discovery : DiscoveryPlan} {found : Results}
    (returned : discovered settings table discovery found = .ok (.awaiting progress)) :
    progress.IsTabulating := by
  obtain ⟨⟨resolved, plan⟩, planned, returned⟩ := bind_eq_ok.mp returned
  obtain ⟨_, _, planned⟩ := bind_eq_ok.mp planned
  obtain ⟨_, returned', same⟩ := bind_eq_ok.mp planned
  cases same
  simp only at returned
  split at returned
  · obtain ⟨grid, _, returned⟩ := bind_eq_ok.mp returned
    cases returned
  · cases returned
    exact ⟨⟨_, _, rfl⟩, ResolvedTable.purpose_of_plan returned'⟩

private theorem isTabulating_of_next {results : Results}
    (returned : progress.next settings results = .ok (.awaiting after)) :
    after.IsTabulating ∧ ∃ table discovery, progress = .discovering table discovery := by
  cases progress with
  | discovering table discovery => exact ⟨isTabulating_of_discovered returned, table, discovery, rfl⟩
  | tabulating resolved plan =>
    obtain ⟨grid, _, returned⟩ := bind_eq_ok.mp returned
    cases returned

end Progress

/-- The queries that a statement needs for discovery, if it has come that far. -/
def Request.discoveryQueries (schema : Outcome Schema) (settings : Settings) (document : Value) :
    List GroupingQuery :=
  let plan := do (← compile (← schema) settings document).discover
  plan.toOption.elim [] DiscoveryPlan.queries

/-- A request that has to wait at its start waits for discovery, or has nothing to discover. -/
theorem Progress.awaiting_of_start {settings : Settings} {schema : Schema} {document : Value}
    {progress : Progress} (returned : start schema settings document = .ok (.awaiting progress)) :
    (∃ table discovery, progress = .discovering table discovery ∧
      discovery.queries = discoveryQueries (.ok schema) settings document ∧
      ∀ query ∈ discovery.queries, query.purpose = .discovery) ∨
    (progress.IsTabulating ∧ discoveryQueries (.ok schema) settings document = []) := by
  obtain ⟨table, compiled, returned⟩ := bind_eq_ok.mp returned
  obtain ⟨_, _, returned⟩ := bind_eq_ok.mp returned
  obtain ⟨discovery, discovered, returned⟩ := bind_eq_ok.mp returned
  have queries : discoveryQueries (.ok schema) settings document = discovery.queries := by
    simp [discoveryQueries, compiled, discovered, Except.toOption]
  split at returned
  next none => exact .inr ⟨isTabulating_of_discovered returned, queries.trans (isEmpty_iff.mp none)⟩
  next =>
    cases returned
    exact .inl ⟨table, discovery, rfl, queries.symm, Table.purpose_of_discover discovered⟩

/-! ### Queries that go their way -/

namespace Task

variable {settings : Settings} {gives allowed : GroupingQuery → Ending → Prop} {id : Nat}
  {task next : Task} {due later new : List Turn} {reached : Outcome Reached}

/-- A task that takes its course: it was not revoked, and while it is under way its queries go theirs. -/
structure Regular (settings : Settings) (allowed : GroupingQuery → Ending → Prop) (task : Task) :
    Prop where
  kept : task.revoked = false
  unrevoked : task.wave.revoked = false
  begun : task.state ≠ .submitted
  places : task.wave.inquiries = [] ∨ task.wave.places = settings.places
  running : ∀ progress, task.state = .running progress → task.wave.Regular allowed ∧ task.wave.Line

theorem Regular.arrives (arrives : task.Arrives settings id reached next new)
    (kept : task.revoked = false) (unrevoked : task.wave.revoked = false)
    (places : task.wave.inquiries = [] ∨ task.wave.places = settings.places) :
    next.Regular settings allowed := by
  cases arrives with
  | fail _ | complete _ => exact ⟨kept, unrevoked, nofun, places, nofun⟩
  | await progress =>
    exact ⟨kept, rfl, nofun, .inr (places_ofQueries ..),
      fun _ _ => ⟨regular_ofQueries _ _, line_ofQueries _ _⟩⟩

/-- Where no time runs out, a task that is not revoked takes its course, whatever happens. -/
theorem Regular.moved (regular : task.Regular settings allowed) (orderly : task.Orderly id due)
    (untimed : settings.timeLimit = .running ∨ settings.timeLimit = .unlimited)
    (given : ∀ query ending, gives query ending → allowed query ending)
    (moved : task.Moved settings gives False False id due next later) :
    next.Regular settings allowed := by
  obtain ⟨kept, unrevoked, begun, places, running⟩ := regular
  cases moved with
  | rest _ => exact ⟨kept, unrevoked, begun, places, running⟩
  | turn taken turned =>
    have orderly := orderly.of_perm taken
    cases turned with
    | refuse revoked => simp [kept] at revoked
    | start _ _ => exact absurd orderly.first.1 begun
    | inquire there _ turned =>
      refine ⟨kept, turned.revoked.trans unrevoked, begun, .inr ?_, fun progress state => ?_⟩
      · rcases places with none | places
        · simp [none] at there
        · exact turned.places.trans places
      · obtain ⟨queries, line⟩ := running progress state
        exact ⟨queries.turned there turned untimed given, turned.line line⟩
    | @report index inside =>
      obtain ⟨inquiries, free, revoked⟩ := reportTurn_eq task.wave index
      have stage (i : Nat) : (task.wave.reportTurn index).1.stage i = task.wave.stage i := by
        simp only [Wave.stage, inquiries]
      refine ⟨kept, revoked.trans unrevoked, begun, ?_, fun progress state => ?_⟩
      · simpa only [Wave.places, Wave.count, inquiries, free] using places
      · obtain ⟨queries, line⟩ := running progress state
        refine ⟨by rwa [Wave.Regular, inquiries], line.of_stages free ?_ ?_⟩ <;>
          simp only [stage, implies_true]
    | skip _ | idle _ _ | wake => exact ⟨kept, unrevoked, begun, places, running⟩
    | abandon _ =>
      refine ⟨kept, unrevoked, by simp, ?_, by simp⟩
      refine places.imp (fun none => ?_) fun places => ?_
      · simp [Wave.withdrawAll, Wave.sweep, none]
      · exact (places_sweep fun inquiry => sweeps_withdraw inquiry.stage).trans places
    | resume _ _ _ arrives => exact .arrives arrives kept unrevoked places
  | revoke allowed _ => exact allowed.elim
  | unhold =>
    refine ⟨kept, unrevoked, begun, ?_, fun progress state => ?_⟩
    · refine places.imp (fun none => ?_) fun places => ?_
      · simp [Wave.unhold, Wave.sweep, none]
      · exact (places_sweep fun inquiry => sweeps_unhold inquiry.stage).trans places
    · obtain ⟨queries, line⟩ := running progress state
      exact ⟨queries.unhold, line.unhold⟩
  | expire allowed => exact allowed.elim

variable {progress : Progress} {n : Nat}

/-- A task that takes its course fails with the failure of one of its queries. -/
theorem Regular.failed (regular : task.Regular settings allowed) (orderly : task.Orderly id due)
    (proper : ∀ query, ¬ allowed query .withdrawn) (running : task.state = .running progress)
    {error : Error} (ended : task.wave.ending = some (.error error)) :
    task.wave.HasFailed error := by
  rcases orderly.wave.failed error ended with failed | ⟨_, revoked | ⟨i, inside, dropped⟩⟩
  · exact failed
  · simp [regular.unrevoked] at revoked
  · obtain ⟨query, _, withdrawn⟩ := (regular.running progress running).1.ended inside dropped
    exact absurd withdrawn (proper query)

/-- No query of a task is started but by a turn of its own, and only while there is a place for it. -/
theorem Moved.running_lt (moved : task.Moved settings gives False False id due next later)
    (regular : task.Regular settings allowed) (orderly : task.Orderly id due)
    (limit : settings.places = some n) {query : GroupingQuery}
    (started : .started query ∈ task.wave.events next.wave) : task.wave.running < n := by
  cases moved with
  | rest _ => exact absurd started (not_started_of_eq rfl)
  | turn taken turned =>
    cases turned with
    | refuse _ | skip _ | idle _ _ | wake => exact absurd started (not_started_of_eq rfl)
    | start _ _ => exact absurd (orderly.of_perm taken).first.1 regular.begun
    | inquire there _ turned =>
      rcases regular.places with none | places
      · simp [none] at there
      · exact turned.running_lt (places.trans limit) started
    | @report index _ => exact absurd started (not_started_of_eq (reportTurn_eq task.wave index).1)
    | abandon _ => exact absurd started (not_started_sweep fun _ => Stage.hasStarted_of_withdraw)
    | resume _ _ ended _ =>
      rw [events_of_answered ((orderly.of_perm taken).wave.succeeded _ ended).2.2] at started
      cases started
  | revoke allowed _ => exact allowed.elim
  | unhold => exact absurd started (not_started_sweep fun ⟨_, stage⟩ => by cases stage <;> exact (·))
  | expire allowed => exact allowed.elim

/-- A task that takes its course is under way only while a turn is due for it or an answer is held back. -/
theorem Regular.isHeldUp (regular : task.Regular settings allowed) (orderly : task.Orderly id [])
    (limit : settings.places = some n) (positive : 0 < n) (running : task.state = .running progress)
    : task.wave.isHeldUp := by
  have heldUp {i : Nat} (held : task.wave.stage i = .held) : task.wave.isHeldUp := by
    have inside : i < task.wave.inquiries.length := lt_length_of_stage (by simp [held])
    rw [stage_of_getElem? (getElem?_eq_getElem inside)] at held
    exact any_eq_true.mpr ⟨_, getElem_mem inside, by simp [held, isHeld]⟩
  obtain ⟨i, inside, waits | held⟩ := orderly.exists_waiting running
  · have places : task.wave.places = some n := by
      rcases regular.places with none | places
      · simp [none] at inside
      · exact places.trans limit
    -- Somebody holds the place that is waited for, and nothing is due for anybody.
    obtain ⟨j, _, holds⟩ := (regular.running progress running).2.exists_holding places positive waits
    have awaited := orderly.wave.awaited j
    cases stage : task.wave.stage j with
    | held => exact heldUp stage
    | put withdrawn => cases withdrawn <;> simp [stage, Stage.Awaited] at awaited
    | waiting | fresh | done _ => simp [stage, holdsPlace] at holds
    | _ => simp [stage, Stage.Awaited] at awaited
  · exact heldUp held

end Task

/-! ### What is on record -/

/-- No planned query was started before every query of discovery had been answered. -/
def WavesInOrder (discovery : List GroupingQuery) (trace : List Event) : Prop :=
  ∀ earlier query rest, trace = earlier ++ .started query :: rest → query.purpose = .main →
    ∀ needed ∈ discovery, ∃ rows, .finished needed (.ok rows) ∈ earlier

private theorem WavesInOrder.append {discovery : List GroupingQuery} {past new : List Event}
    (inOrder : WavesInOrder discovery past)
    (started : ∀ query, .started query ∈ new → query.purpose = .main →
      ∀ needed ∈ discovery, ∃ rows, .finished needed (.ok rows) ∈ past) :
    WavesInOrder discovery (past ++ new) := by
  intro earlier query rest split main needed member
  rcases append_eq_append_iff.mp split with ⟨between, rfl, tail⟩ | ⟨between, rfl, tail⟩
  · have there : Event.started query ∈ new := tail ▸ mem_append_right _ mem_cons_self
    obtain ⟨rows, finished⟩ := started query there main needed member
    exact ⟨rows, mem_append_left _ finished⟩
  · cases between with
    | nil =>
      have there : Event.started query ∈ new := by
        rw [nil_append] at tail
        exact tail ▸ mem_cons_self
      simpa using started query there main needed member
    | cons event between =>
      obtain ⟨rfl, _⟩ := cons.inj tail
      exact inOrder earlier query between rfl main needed member

theorem wavesInOrder_nil (discovery : List GroupingQuery) : WavesInOrder discovery [] := by
  intro earlier query rest split
  simp at split

namespace Task

variable {settings : Settings} {gives allowed : GroupingQuery → Ending → Prop} {id : Nat}
  {task next : Task}
  {due later new : List Turn} {discovery : List GroupingQuery} {past : List Event}

/-- The queries of discovery are under way, and no other was started. -/
structure Early (past : List Event) (queries : List GroupingQuery) : Prop where
  purpose : ∀ query ∈ queries, query.purpose = .discovery
  started : ∀ query, .started query ∈ past → query.purpose = .discovery

/-- The planned queries are under way, and all queries of discovery were answered. -/
structure Late (discovery : List GroupingQuery) (past : List Event) (queries : List GroupingQuery) :
    Prop where
  purpose : ∀ query ∈ queries, query.purpose = .main
  complete : ∀ query ∈ discovery, ∃ rows, .finished query (.ok rows) ∈ past
  failed : ∀ query error, .finished query (.error error) ∈ past → query.purpose = .main

section

variable {wave changed : Wave} (continues : Wave.Continues wave changed)
include continues

theorem Early.advance (early : Early past wave.queries) :
    Early (past ++ wave.events changed) changed.queries where
  purpose := by
    rw [continues.queries]
    exact early.purpose
  started := by
    intro query member
    rcases mem_append.mp member with older | new
    · exact early.started query older
    · exact early.purpose query (continues.mem_of_started new)

theorem Late.advance (late : Late discovery past wave.queries) :
    Late discovery (past ++ wave.events changed) changed.queries where
  purpose := by
    rw [continues.queries]
    exact late.purpose
  complete := by
    intro query member
    obtain ⟨rows, there⟩ := late.complete query member
    exact ⟨rows, mem_append_left _ there⟩
  failed := by
    intro query error member
    rcases mem_append.mp member with older | new
    · exact late.failed query error older
    · exact late.purpose query (continues.of_finished new).1

end

/-- What the record tells about a task. -/
structure Recorded (discovery : List GroupingQuery) (past : List Event) (task : Task) : Prop where
  answered : ∀ inquiry ∈ task.wave.inquiries, ∀ result, inquiry.stage = .done (.outcome result) →
    .finished inquiry.query result ∈ past
  running : ∀ progress, task.state = .running progress →
    ∀ query error, .finished query (.error error) ∈ past → task.wave.HasFailed error
  finished : ∀ outcome, task.state = .finished outcome →
    (∃ query error, .finished query (.error error) ∈ past ∧ outcome = .error error) ∨
      (task.wave.isOver = true ∧ ∀ query error, .finished query (.error error) ∉ past)
  phase : Early past task.wave.queries ∨ Late discovery past task.wave.queries
  discovering : ∀ table plan, task.state = .running (.discovering table plan) → plan.queries = discovery

variable {changed : Wave} {document form : Value}

section

variable (recorded : task.Recorded discovery past)
include recorded

section

variable (continues : Wave.Continues task.wave changed)
include continues

/-- A planned query is only started when all queries of discovery were answered. -/
theorem Recorded.started {query : GroupingQuery}
    (started : .started query ∈ task.wave.events changed) (main : query.purpose = .main) :
    ∀ needed ∈ discovery, ∃ rows, .finished needed (.ok rows) ∈ past := by
  rcases recorded.phase with early | late
  · simp [early.purpose query (continues.mem_of_started started)] at main
  · exact late.complete

theorem Recorded.answered_advance : ∀ inquiry ∈ changed.inquiries, ∀ result,
      inquiry.stage = .done (.outcome result) →
        .finished inquiry.query result ∈ past ++ task.wave.events changed := by
  intro inquiry member result done
  rcases continues.finished_or_mem member done with new | ⟨before, there, query, stage⟩
  · exact mem_append_right _ new
  · exact mem_append_left _ (query ▸ recorded.answered before there result stage)

private theorem Recorded.advance :
    Recorded discovery (past ++ task.wave.events changed) { task with wave := changed } where
  answered := recorded.answered_advance continues
  running := by
    intro progress running query error member
    rcases mem_append.mp member with older | new
    · exact continues.hasFailed (recorded.running progress running query error older)
    · exact (continues.of_finished new).2.2
  finished := by
    intro outcome finished
    rcases recorded.finished outcome finished with ⟨query, error, member, failed⟩ | ⟨spent, clean⟩
    · exact .inl ⟨query, error, mem_append_left _ member, failed⟩
    · refine .inr ⟨continues.isOver spent, fun query error member => ?_⟩
      rcases mem_append.mp member with older | new
      · exact clean query error older
      · obtain ⟨_, running, _⟩ := continues.of_finished new
        simp [spent] at running
  phase := recorded.phase.imp (.advance continues) (.advance continues)
  discovering := recorded.discovering

private theorem Recorded.abandon {error : Error}
    (failed : task.wave.HasFailed error) :
    Recorded discovery (past ++ task.wave.events changed)
      { task with state := .finished (.error error), wave := changed } where
  answered := recorded.answered_advance continues
  running := nofun
  finished := by
    rintro _ ⟨⟩
    obtain ⟨i, stage⟩ := continues.hasFailed failed
    have inside : i < changed.inquiries.length := lt_length_of_stage (by simp [stage])
    rw [stage_of_getElem? (getElem?_eq_getElem inside)] at stage
    exact .inl ⟨_, error, recorded.answered_advance continues _ (getElem_mem inside) _ stage, rfl⟩
  phase := recorded.phase.imp (.advance continues) (.advance continues)
  discovering := nofun

end

private theorem Recorded.resume (orderly : task.Orderly id due)
    {progress : Progress} (running : task.state = .running progress) {rows : List (List Row)}
    (answered : task.wave.stages = rows.map fun found => .done (.outcome (.ok found)))
    (arrives : task.Arrives settings id
      (progress.next settings ((progress.queries.map GroupingQuery.key).zip rows)) next new) :
    next.Recorded discovery past := by
  -- A failure on record would be one of this wave, and all of it was answered.
  have clean : ∀ query error, .finished query (.error error) ∉ past := by
    intro query error member
    obtain ⟨i, stage⟩ := recorded.running progress running query error member
    have inside : i < task.wave.inquiries.length := lt_length_of_stage (by simp [stage])
    have there : task.wave.stages[i]? = some (.done (.outcome (.error error))) := by
      rw [stage_of_getElem? (getElem?_eq_getElem inside)] at stage
      simp [Wave.stages, inside, stage]
    rw [answered] at there
    simp at there
  have spent : task.wave.isOver := by
    rw [isOver_iff, answered]
    simp [isDone]
  generalize reached : progress.next settings ((progress.queries.map GroupingQuery.key).zip rows) = reached'
    at arrives
  cases arrives with
  | fail _ | complete _ =>
    exact {
      answered := recorded.answered
      running := by simp
      finished := fun _ _ => .inr ⟨spent, clean⟩
      phase := recorded.phase
      discovering := by simp }
  | await after =>
    -- Only discovery is followed by another wave.
    obtain ⟨⟨⟨resolved, plan, rfl⟩, main⟩, table, explored, rfl⟩ := Progress.isTabulating_of_next reached
    have queries := (orderly.running _ running).1
    exact {
      answered := by
        intro inquiry member result done
        obtain ⟨query, _, rfl⟩ := mem_map.mp member
        cases done
      running := fun _ _ query error member => absurd member (clean query error)
      finished := by simp
      phase := by
        refine .inr ⟨?_, ?_, fun query error member => absurd member (clean query error)⟩
        · simpa [Wave.queries, Wave.ofQueries, Function.comp_def] using main
        · intro query member
          rw [← recorded.discovering table explored running] at member
          change query ∈ (Progress.discovering table explored).queries at member
          rw [← queries] at member
          obtain ⟨inquiry, there, rfl⟩ := mem_map.mp member
          have stage : inquiry.stage ∈ task.wave.stages := mem_map_of_mem there
          rw [answered] at stage
          obtain ⟨found, _, same⟩ := mem_map.mp stage
          exact ⟨found, recorded.answered inquiry there _ same.symm⟩
      discovering := by
        intro table plan running
        cases running }

/-- The record stays true of a task that takes its course, and planned queries are only started late. -/
theorem Recorded.moved (regular : task.Regular settings allowed)
    (orderly : task.Orderly id due) (proper : ∀ query, ¬ allowed query .withdrawn)
    (moved : task.Moved settings gives False False id due next later) :
    next.Recorded discovery (past ++ task.wave.events next.wave) ∧
      ∀ query, .started query ∈ task.wave.events next.wave → query.purpose = .main →
        ∀ needed ∈ discovery, ∃ rows, .finished needed (.ok rows) ∈ past := by
  have advance {changed : Wave} (continues : Wave.Continues task.wave changed) :
      Recorded discovery (past ++ task.wave.events changed) { task with wave := changed } ∧
        ∀ query, .started query ∈ task.wave.events changed → query.purpose = .main →
          ∀ needed ∈ discovery, ∃ rows, .finished needed (.ok rows) ∈ past :=
    ⟨recorded.advance continues, fun _ => recorded.started continues⟩
  cases moved with
  | rest _ => exact advance .refl
  | turn taken turned =>
    have orderly := orderly.of_perm taken
    cases turned with
    | refuse revoked => simp [regular.kept] at revoked
    | start _ _ => exact absurd orderly.first.1 regular.begun
    | inquire _ _ turned => exact advance turned.advances.toContinues
    | report _ => exact advance (continues_reportTurn _ _)
    | skip _ | idle _ _ | wake => exact advance .refl
    | @abandon error cause =>
      have advances : Wave.Advances task.wave task.wave.withdrawAll.1 :=
        advances_sweep fun inquiry => sweeps_withdraw inquiry.stage
      rcases cause with ⟨revoked, _⟩ | ⟨⟨progress, running⟩, ended⟩
      · simp [regular.kept] at revoked
      · exact ⟨recorded.abandon advances.toContinues (regular.failed orderly proper running ended),
          fun _ => recorded.started advances.toContinues⟩
    | resume _ running ended arrives =>
      have answered := (orderly.wave.succeeded _ ended).2.2
      rw [events_of_answered answered, append_nil]
      exact ⟨recorded.resume orderly running answered arrives, by simp⟩
  | revoke allowed _ => exact allowed.elim
  | unhold => exact advance (advances_sweep fun inquiry => sweeps_unhold inquiry.stage).toContinues
  | expire allowed => exact allowed.elim

end

theorem regular_called {reached : Outcome Reached}
    (arrives : Arrives settings id { document, form } reached next new) :
    next.Regular settings allowed :=
  .arrives arrives rfl rfl (.inl rfl)

theorem recorded_called {schema : Outcome Schema}
    (arrives : Arrives settings id { document, form }
      (Except.bind schema fun schema => Progress.start schema settings document) next new) :
    next.Recorded (discoveryQueries schema settings document) [] := by
  generalize reached : (Except.bind schema fun schema => Progress.start schema settings document) = reached'
    at arrives
  cases arrives with
  | fail _ | complete _ =>
    exact {
      answered := by simp
      running := by simp
      finished := fun _ _ => .inr ⟨by simp [Wave.isOver], by simp⟩
      phase := .inl ⟨by simp [Wave.queries], by simp⟩
      discovering := by simp }
  | await progress =>
    obtain ⟨schema, rfl, returned⟩ := bind_eq_ok.mp reached
    have queries : (Wave.ofQueries settings.places progress.queries).queries = progress.queries := by
      simp [Wave.queries, Wave.ofQueries, Function.comp_def]
    refine {
      answered := ?_
      running := by simp
      finished := by simp
      phase := ?_
      discovering := ?_ }
    · intro inquiry member result done
      obtain ⟨query, _, rfl⟩ := mem_map.mp member
      cases done
    · simp only [queries]
      rcases Progress.awaiting_of_start returned with ⟨table, discovery, rfl, same, early⟩ | ⟨late, none⟩
      · exact .inl ⟨early, by simp⟩
      · exact .inr ⟨late.2, by simp [none], by simp⟩
    · rintro table plan ⟨⟩
      rcases Progress.awaiting_of_start returned with ⟨_, _, ⟨⟩, same, _⟩ | ⟨⟨⟨_, _, ⟨⟩⟩, _⟩, _⟩
      exact same

/-- A task that takes its course, with all that has happened on record. -/
structure OnCourse (settings : Settings) (discovery : List GroupingQuery) (task : Task)
    (past : List Event) : Prop where
  regular : task.Regular settings fun _ ending => ending ≠ .withdrawn
  recorded : task.Recorded discovery past
  inOrder : WavesInOrder discovery past

theorem OnCourse.moved (onCourse : task.OnCourse settings discovery past) (orderly : task.Orderly id due)
    (untimed : settings.timeLimit = .running ∨ settings.timeLimit = .unlimited)
    (given : ∀ query ending, gives query ending → ending ≠ .withdrawn)
    (moved : task.Moved settings gives False False id due next later) :
    next.OnCourse settings discovery (past ++ task.wave.events next.wave) := by
  obtain ⟨regular, recorded, inOrder⟩ := onCourse
  obtain ⟨recorded', started⟩ := recorded.moved regular orderly (fun _ => by simp) moved
  exact ⟨regular.moved orderly untimed given moved, recorded', inOrder.append started⟩

end Task

/-! ### Along a schedule -/

namespace Controller

variable {ε : Type} [Answerer ε] {controller : Controller ε} {kind : ε → Prop} {settings : Settings}
  {id : Nat} {allowed : GroupingQuery → Ending → Prop}

omit [Answerer ε] in
/-- What has happened to the queries of a task. -/
def events (id : Nat) (controller after : Controller ε) : List Event :=
  (controller.task? id).elim [] fun task => (after.task? id).elim [] fun next => task.wave.events next.wave

def trace (controller : Controller ε) (id : Nat) : List Move → List Event
  | [] => []
  | move :: others => controller.events id (controller.move move) ++ (controller.move move).trace id others

/-- How many queries of a task were put to the executor and have not ended. -/
def running (controller : Controller ε) (id : Nat) : Nat :=
  (controller.task? id).elim 0 fun task => task.wave.running

end Controller

end Crosstab
