import Crosstab.Proofs.Wave.Order

/-!
# What happens to the queries of a wave

A query is started when it is put to the executor, and finished when it has ended with an answer.
The events of a change are read off the stages around it.
-/
namespace Crosstab

open List Stage

/-- What happens to a query. -/
inductive Event where
  | started (query : GroupingQuery)
  | finished (query : GroupingQuery) (result : Outcome (List Row))

/-- The query that an event is about. -/
def Event.query : Event → GroupingQuery
  | started query | finished query _ => query

namespace Stage

/-- The query was put to the executor, and was not given up. -/
def hasStarted : Stage → Bool
  | put _ | expiring | held | recalled _ | recalling _ | answered _ | settling _ => true
  | done (.outcome _) => true
  | _ => false

/-- The query was put to the executor and has not ended. -/
def isRunning (stage : Stage) : Bool := stage.hasStarted && !stage.isDone

def result? : Stage → Option (Outcome (List Row))
  | done (.outcome result) => some result
  | _ => none

variable {stage : Stage}

private theorem result?_eq_some {result : Outcome (List Row)} :
    stage.result? = some result ↔ stage = .done (.outcome result) := by
  unfold result?
  split <;> simp_all

theorem holdsPlace_of_running (running : stage.isRunning) : stage.holdsPlace := by
  cases stage <;> simp_all [isRunning, hasStarted, isDone, holdsPlace]

theorem hasStarted_of_withdraw (started : stage.withdraw.1.hasStarted) : stage.hasStarted := by
  rcases stage with _ | _ | _ | _ | (_ | _) | _ | _ | _ | _ | _ | _ | _ <;>
    first | exact started | cases started

/-- The query goes its way: nobody has withdrawn it, and it ends in a way that is allowed. -/
def Regular (allowed : Ending → Prop) : Stage → Prop
  | fresh | waiting | placed | put false | held => True
  | answered ending | settling ending | done ending => allowed ending
  | _ => False

section

variable {limit : Settings.TimeLimit} {gives allowed : Ending → Prop} {timeout : Error} {taken : Due}
  {stage next : Stage} {dues : List Due}

private theorem Goes.regular (goes : Goes limit gives timeout taken stage next dues)
    (untimed : limit = .running ∨ limit = .unlimited) (given : ∀ ending, gives ending → allowed ending)
    (regular : stage.Regular allowed) : next.Regular allowed := by
  cases goes with
  | idle _ => exact regular
  | wait => trivial
  | put _ puts =>
    cases puts with
    | put _ | hold _ => trivial
    | expire expired => simp [expired] at untimed
  | answerAtOnce _ _ gave => exact given _ gave
  | refuse _ malformed _ => simp [malformed] at untimed
  | drop _ => exact regular.elim
  | settle _ => exact regular
  | shift shifts =>
    cases shifts with
    | answer gave => exact given _ gave
    | hold => trivial
    | notice _ => exact regular
    | retract | callBack _ | holdWithdrawn | answerWithdrawn _ | expire | giveUp _ | noticeRecalled _ =>
      exact regular.elim

private theorem regular_unhold (regular : stage.Regular allowed) : stage.unhold.1.Regular allowed := by
  cases stage <;> exact regular

/-- Only a query that has its turn for the first time or was called is started by a turn. -/
theorem Goes.started (goes : Goes limit gives timeout taken stage next dues)
    (before : stage.hasStarted = false) (after : next.hasStarted) :
    stage = .fresh ∨ stage = .placed := by
  cases goes with
  | put admitted _ | answerAtOnce admitted _ _ | refuse admitted _ _ => exact admitted
  | shift shifts => cases shifts <;> simp [hasStarted] at before
  | idle _ | wait | drop _ | settle _ => simp_all [hasStarted]

end

end Stage

/-- What has happened to a query between two stages. -/
def Inquiry.events (before after : Inquiry) : List Event :=
  (if after.stage.hasStarted && !before.stage.hasStarted then [.started after.query] else []) ++
    if before.stage.isDone then [] else (after.stage.result?.map (.finished after.query)).toList

namespace Wave

variable {wave changed : Wave} {index : Nat} {turns : Turns}

/-- What has happened to the queries of a wave. -/
def events (wave changed : Wave) : List Event :=
  (wave.inquiries.zip changed.inquiries).flatMap fun pair => pair.1.events pair.2

theorem mem_events_iff {event : Event} : event ∈ wave.events changed ↔
    ∃ (i : Nat) (before after : Inquiry), wave.inquiries[i]? = some before ∧
      changed.inquiries[i]? = some after ∧ event ∈ before.events after := by
  rw [events, mem_flatMap]
  constructor
  · rintro ⟨⟨before, after⟩, listed, member⟩
    obtain ⟨i, there⟩ := getElem?_of_mem listed
    obtain ⟨first, second⟩ := getElem?_zip_eq_some.mp there
    exact ⟨i, before, after, first, second, member⟩
  · rintro ⟨i, before, after, first, second, member⟩
    exact ⟨(before, after), mem_of_getElem? (getElem?_zip_eq_some.mpr ⟨first, second⟩), member⟩

variable {query : GroupingQuery} {n : Nat}

theorem started_mem_iff : .started query ∈ wave.events changed ↔
    ∃ (i : Nat) (before after : Inquiry), wave.inquiries[i]? = some before ∧
      changed.inquiries[i]? = some after ∧ before.stage.hasStarted = false ∧
      after.stage.hasStarted ∧ after.query = query := by
  rw [mem_events_iff]
  refine exists_congr fun i => exists_congr fun before => exists_congr fun after =>
    and_congr_right fun _ => and_congr_right fun _ => ?_
  simp only [Inquiry.events, mem_append]
  cases before.stage.hasStarted <;> cases after.stage.hasStarted <;> cases before.stage.isDone <;>
    simp [@eq_comm _ query]

theorem finished_mem_iff {result : Outcome (List Row)} :
    .finished query result ∈ wave.events changed ↔
      ∃ (i : Nat) (before after : Inquiry), wave.inquiries[i]? = some before ∧
        changed.inquiries[i]? = some after ∧ before.stage.isDone = false ∧
        after.stage = .done (.outcome result) ∧ after.query = query := by
  rw [mem_events_iff]
  refine exists_congr fun i => exists_congr fun before => exists_congr fun after =>
    and_congr_right fun _ => and_congr_right fun _ => ?_
  rw [← result?_eq_some]
  simp only [Inquiry.events, mem_append]
  cases before.stage.hasStarted <;> cases after.stage.hasStarted <;> cases before.stage.isDone <;>
    simp [and_comm]

theorem exists_of_queries_eq (same : changed.queries = wave.queries) {after : Inquiry}
    (there : changed.inquiries[index]? = some after) :
    ∃ before, wave.inquiries[index]? = some before ∧ before.query = after.query := by
  have listed : some after.query = wave.inquiries[index]?.map Inquiry.query := by
    simpa [queries, there] using congrArg (·[index]?) same
  exact Option.map_eq_some_iff.mp listed.symm

namespace Continues

variable (continues : Continues wave changed) {query : GroupingQuery} {result : Outcome (List Row)}
include continues

variable {after : Inquiry}

theorem query_mem (there : changed.inquiries[index]? = some after) :
    after.query ∈ wave.queries := by
  rw [← continues.queries]
  exact mem_map_of_mem (mem_of_getElem? there)

theorem mem_of_started (started : .started query ∈ wave.events changed) : query ∈ wave.queries := by
  obtain ⟨i, _, after, _, there, _, _, rfl⟩ := started_mem_iff.mp started
  exact continues.query_mem there

theorem of_finished (finished : .finished query result ∈ wave.events changed) :
    query ∈ wave.queries ∧ wave.isOver = false ∧ ∃ i, changed.stage i = .done (.outcome result) := by
  obtain ⟨i, before, after, first, there, running, done, rfl⟩ := finished_mem_iff.mp finished
  refine ⟨continues.query_mem there, ?_, i, by rw [stage_of_getElem? there, done]⟩
  rw [← stage_of_getElem? first] at running
  cases spent : wave.isOver with
  | false => rfl
  | true => simp [stage_isDone_of_isOver spent i] at running

/-- What is on record has finished by the change, or was on record before. -/
theorem finished_or_mem (member : after ∈ changed.inquiries)
    (done : after.stage = .done (.outcome result)) :
    .finished after.query result ∈ wave.events changed ∨
      ∃ before ∈ wave.inquiries, before.query = after.query ∧ before.stage = .done (.outcome result) := by
  obtain ⟨i, there⟩ := getElem?_of_mem member
  obtain ⟨before, first, query⟩ := exists_of_queries_eq continues.queries there
  cases stage : before.stage with
  | done ending =>
    have stays := continues.final i ending (by rw [stage_of_getElem? first, stage])
    rw [stage_of_getElem? there, done] at stays
    exact .inr ⟨before, mem_of_getElem? first, query, stage.trans stays.symm⟩
  | _ =>
    refine .inl (finished_mem_iff.mpr ⟨i, before, after, first, there, ?_, done, rfl⟩)
    simp [stage, isDone]

end Continues

theorem not_started_of_eq (same : changed.inquiries = wave.inquiries) :
    .started query ∉ wave.events changed := by
  intro started
  obtain ⟨i, before, after, first, second, unstarted, hasStarted, _⟩ := started_mem_iff.mp started
  rw [same, first] at second
  cases second
  simp [unstarted] at hasStarted

theorem not_started_sweep {change : Inquiry → Stage × List Due}
    (none : ∀ inquiry, (change inquiry).1.hasStarted → inquiry.stage.hasStarted) :
    .started query ∉ wave.events (wave.sweep change).1 := by
  intro started
  obtain ⟨i, before, after, first, second, unstarted, hasStarted, _⟩ := started_mem_iff.mp started
  rw [getElem?_sweep, first] at second
  cases second
  simp [none before hasStarted] at unstarted

theorem events_of_answered {rows : List (List Row)}
    (answered : wave.stages = rows.map fun found => .done (.outcome (.ok found))) :
    wave.events changed = [] := by
  have stage {i : Nat} {before : Inquiry} (there : wave.inquiries[i]? = some before) :
      ∃ found, before.stage = .done (.outcome (.ok found)) := by
    have member : before.stage ∈ wave.stages := mem_map_of_mem (mem_of_getElem? there)
    rw [answered] at member
    obtain ⟨found, _, same⟩ := mem_map.mp member
    exact ⟨found, same.symm⟩
  rw [eq_nil_iff_forall_not_mem]
  intro event member
  cases event with
  | started query =>
    obtain ⟨i, before, _, first, _, unstarted, _⟩ := started_mem_iff.mp member
    obtain ⟨found, same⟩ := stage first
    simp [same, hasStarted] at unstarted
  | finished query result =>
    obtain ⟨i, before, _, first, _, running, _⟩ := finished_mem_iff.mp member
    obtain ⟨found, same⟩ := stage first
    simp [same, isDone] at running

/-! ### Places -/

def running (wave : Wave) : Nat := wave.count isRunning

theorem running_le_places (limit : wave.places = some n) : wave.running ≤ n := by
  obtain ⟨free, _, rfl⟩ := Option.map_eq_some_iff.mp limit
  have included : wave.running ≤ wave.count holdsPlace :=
    count_le_count fun _ => holdsPlace_of_running
  omega

/-- Who was called and has not been put yet holds a place for itself. -/
theorem running_lt_of_placed (limit : wave.places = some n) (placed : wave.stage index = .placed) :
    wave.running < n := by
  obtain ⟨free, _, rfl⟩ := Option.map_eq_some_iff.mp limit
  have inside : index < wave.inquiries.length := lt_length_of_stage (by simp [placed])
  -- Without that query one place less would be held, and as many queries would run.
  have held := count_setStage holdsPlace (.done .withdrawn) inside
  have runs := count_setStage isRunning (.done .withdrawn) inside
  have included : (wave.setStage index (.done .withdrawn)).running ≤
      (wave.setStage index (.done .withdrawn)).count holdsPlace :=
    count_le_count fun _ => holdsPlace_of_running
  simp only [placed, holdsPlace, isRunning, hasStarted, Bool.false_and, Bool.toNat_false,
    Bool.toNat_true] at held runs
  simp only [running] at included ⊢
  omega

section

variable {limit : Settings.TimeLimit} {gives : Ending → Prop} {timeout : Error} {taken : Due}

theorem Turned.running_lt {n : Nat} (turned : Turned limit gives timeout index taken wave changed turns)
    (places : wave.places = some n) {query : GroupingQuery}
    (started : .started query ∈ wave.events changed) : wave.running < n := by
  obtain ⟨i, before, after, first, second, unstarted, hasStarted, _⟩ := started_mem_iff.mp started
  rw [← stage_of_getElem? first] at unstarted
  rw [← stage_of_getElem? second] at hasStarted
  by_cases own : i = index
  · subst own
    obtain ⟨dues, goes, _⟩ := turned.own
    rcases goes.started unstarted hasStarted with fresh | placed
    · rcases turned.room fresh with same | waits | free
      · simp [same, Stage.hasStarted] at hasStarted
      · simp [waits, Stage.hasStarted] at hasStarted
      · obtain ⟨left, known, rfl⟩ := Option.map_eq_some_iff.mp places
        have included : wave.running ≤ wave.count Stage.holdsPlace :=
          count_le_count fun _ => Stage.holdsPlace_of_running
        have positive : left ≠ 0 := by
          rintro rfl
          exact free known
        omega
    · exact running_lt_of_placed places placed
  · rcases turned.others i own with same | ⟨_, placed, _⟩
    · rw [same, unstarted] at hasStarted
      cases hasStarted
    · simp [placed, Stage.hasStarted] at hasStarted

end

theorem places_ofQueries (places : Option Nat) (queries : List GroupingQuery) :
    (ofQueries places queries).places = places := by
  have none : (ofQueries places queries).count holdsPlace = 0 := by
    simp [count, ofQueries, holdsPlace, Function.comp_def]
  rw [Wave.places, none]
  exact Option.map_id'

/-! ### The line -/

/-- A change that concerns neither the free places nor anybody in line. -/
theorem Line.of_stages (line : wave.Line) (free : changed.free = wave.free)
    (waiting : ∀ i, changed.stage i = .waiting ↔ wave.stage i = .waiting)
    (placed : ∀ i, changed.stage i = .placed ↔ wave.stage i = .placed) : changed.Line where
  limited := by
    intro none i
    have out := line.limited (free ▸ none) i
    cases stage : changed.stage i with
    | waiting => simp [(waiting i).mp stage, isInLine] at out
    | placed => simp [(placed i).mp stage, isInLine] at out
    | _ => rfl
  moving := by
    intro i waits
    rw [free]
    exact (line.moving i ((waiting i).mp waits)).imp_right (Exists.imp fun j => (placed j).mpr)

theorem Line.unhold (line : wave.Line) : wave.unhold.1.Line := by
  have stages (i : Nat) : wave.unhold.1.stage i = wave.stage i ∨
      (wave.unhold.1.stage i = .put false ∧ wave.stage i = .held) := by
    cases there : wave.inquiries[i]? with
    | none => exact .inl (by simp [stage, Wave.unhold, getElem?_sweep, there])
    | some inquiry =>
      rw [Wave.unhold, stage_sweep there, stage_of_getElem? there]
      cases inquiry.stage <;> simp [Stage.unhold]
  refine line.of_stages rfl (fun i => ?_) (fun i => ?_) <;>
    rcases stages i with same | ⟨after, before⟩ <;> simp_all

theorem line_ofQueries (places : Option Nat) (queries : List GroupingQuery) :
    (ofQueries places queries).Line := by
  have out (i : Nat) : ((ofQueries places queries).stage i).isInLine = false := by
    by_cases inside : i < queries.length
    · rw [stage_ofQueries inside]
      rfl
    · rw [stage_of_length_le (by simpa [ofQueries] using inside)]
      rfl
  refine ⟨fun _ => out, fun i waits => ?_⟩
  have stays := out i
  simp [waits, isInLine] at stays

/-- With places for anybody, somebody who stands in line waits for somebody else to go on. -/
theorem Line.exists_holding (line : wave.Line) (limit : wave.places = some n) (positive : 0 < n)
    (waits : wave.stage index = .waiting) :
    ∃ i < wave.inquiries.length, (wave.stage i).holdsPlace := by
  obtain ⟨free, known, rfl⟩ := Option.map_eq_some_iff.mp limit
  rcases line.moving index waits with full | ⟨i, placed⟩
  · rw [known, Option.some.injEq] at full
    exact count_pos_iff.mp (by omega)
  · exact ⟨i, lt_length_of_stage (by simp [placed]), by simp [placed, holdsPlace]⟩

/-! ### Queries that go their way -/

/-- All queries go their way, and end as is allowed for each of them. -/
def Regular (allowed : GroupingQuery → Ending → Prop) (wave : Wave) : Prop :=
  ∀ inquiry ∈ wave.inquiries, inquiry.stage.Regular (allowed inquiry.query)

section

variable {allowed : GroupingQuery → Ending → Prop}

theorem Regular.turned {limit : Settings.TimeLimit} {gives : GroupingQuery → Ending → Prop}
    {timeout : Error} {taken : Due} {inquiry : Inquiry} (regular : wave.Regular allowed)
    (there : wave.inquiries[index]? = some inquiry)
    (turned : Turned limit (gives inquiry.query) timeout index taken wave changed turns)
    (untimed : limit = .running ∨ limit = .unlimited)
    (given : ∀ query ending, gives query ending → allowed query ending) : changed.Regular allowed := by
  intro after member
  obtain ⟨i, found⟩ := getElem?_of_mem member
  obtain ⟨before, first, query⟩ := exists_of_queries_eq turned.queries found
  have held := regular before (mem_of_getElem? first)
  rw [← stage_of_getElem? found, ← query]
  rw [← stage_of_getElem? first] at held
  by_cases own : i = index
  · subst own
    obtain rfl : inquiry = before := Option.some.inj (there.symm.trans first)
    obtain ⟨dues, goes, _⟩ := turned.own
    exact goes.regular untimed (given _) held
  · rcases turned.others i own with same | ⟨_, placed, _⟩
    · rwa [same]
    · rw [placed]
      trivial

theorem Regular.unhold (regular : wave.Regular allowed) : wave.unhold.1.Regular allowed := by
  intro after member
  simp only [Wave.unhold, sweep, mem_map] at member
  obtain ⟨before, there, rfl⟩ := member
  exact regular_unhold (regular before there)

theorem regular_ofQueries (places : Option Nat) (queries : List GroupingQuery) :
    (ofQueries places queries).Regular allowed := by
  intro inquiry member
  obtain ⟨query, _, rfl⟩ := mem_map.mp member
  trivial

/-- Of queries that go their way each has ended as is allowed, once it has ended. -/
theorem Regular.ended (regular : wave.Regular allowed) {ending : Ending}
    (inside : index < wave.inquiries.length) (done : wave.stage index = .done ending) :
    ∃ query ∈ wave.queries, allowed query ending := by
  have there := getElem?_eq_getElem inside
  have held := regular _ (mem_of_getElem? there)
  rw [← stage_of_getElem? there, done] at held
  exact ⟨_, mem_map_of_mem (getElem_mem inside), held⟩

end

end Wave

end Crosstab
