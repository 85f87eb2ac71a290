import Crosstab.Proofs.Controller.Turns
import Crosstab.Proofs.Outcome

/-!
# Tasks in order

What holds of a task and of the turns that are due for it, in whatever order they are taken.
-/
namespace Crosstab

open List Outcome Wave

/-- A turn for a query of a wave. -/
def Turn.inWave? : Turn → Option (Nat × Due)
  | wave _ index due => some (index, due)
  | _ => none

namespace Progress

variable {settings : Settings} {progress : Progress}

/-- Nobody waits for no results. -/
theorem queries_ne_nil_of_discovered {table : Table} {discovery : DiscoveryPlan} {found : Results}
    (returned : discovered settings table discovery found = .ok (.awaiting progress)) :
    progress.queries ≠ [] := by
  obtain ⟨⟨resolved, plan⟩, _, returned⟩ := bind_eq_ok.mp returned
  simp only at returned
  split at returned
  · obtain ⟨grid, _, returned⟩ := bind_eq_ok.mp returned
    cases returned
  next some =>
    cases returned
    simpa [queries] using some

theorem queries_ne_nil_of_start {schema : Schema} {document : Value}
    (returned : start schema settings document = .ok (.awaiting progress)) :
    progress.queries ≠ [] := by
  obtain ⟨table, _, returned⟩ := bind_eq_ok.mp returned
  obtain ⟨_, _, returned⟩ := bind_eq_ok.mp returned
  obtain ⟨discovery, _, returned⟩ := bind_eq_ok.mp returned
  split at returned
  · exact queries_ne_nil_of_discovered returned
  next some =>
    cases returned
    simpa [queries] using some

private theorem queries_ne_nil_of_next {results : Results} {after : Progress}
    (returned : progress.next settings results = .ok (.awaiting after)) : after.queries ≠ [] := by
  cases progress with
  | discovering table discovery => exact queries_ne_nil_of_discovered returned
  | tabulating resolved plan =>
    obtain ⟨grid, _, returned⟩ := bind_eq_ok.mp returned
    cases returned

end Progress

namespace Task

variable {id : Nat} {task next : Task} {due rest new : List Turn} {turn : Turn}

def isSubmitted (task : Task) : Bool :=
  match task.state with
  | .submitted => true
  | _ => false

/-- The end of the wave is known, and the task has not gone on yet. -/
def isResuming (task : Task) : Bool :=
  match task.state with
  | .running _ => task.wave.ending.isSome
  | _ => false

structure Orderly (id : Nat) (task : Task) (due : List Turn) : Prop where
  wave : task.wave.Orderly (due.filterMap Turn.inWave?)
  start : due.count (.start id) = task.isSubmitted.toNat
  resume : due.count (.resume id) = task.isResuming.toNat
  submitted : task.state = .submitted → task.wave.inquiries = []
  running : ∀ progress, task.state = .running progress →
    task.wave.queries = progress.queries ∧ progress.queries ≠ []
  finished : ∀ outcome, task.state = .finished outcome →
    task.wave.ending.isSome = true ∨ task.wave.inquiries = []

theorem Orderly.of_perm {due' : List Turn} (orderly : task.Orderly id due) (same : due.Perm due') :
    task.Orderly id due' where
  wave := orderly.wave.of_perm (same.filterMap _)
  start := by rw [← same.count_eq, orderly.start]
  resume := by rw [← same.count_eq, orderly.resume]
  submitted := orderly.submitted
  running := orderly.running
  finished := orderly.finished

theorem filterMap_inWave (turns : Turns) :
    (turns.map fun turn => Turn.wave id turn.1 turn.2).filterMap Turn.inWave? = turns := by
  rw [filterMap_map]
  exact filterMap_some

theorem count_start_map (turns : Turns) :
    (turns.map fun turn => Turn.wave id turn.1 turn.2).count (.start id) = 0 := by
  rw [count_eq_zero]
  simp

theorem count_resume_map (turns : Turns) :
    (turns.map fun turn => Turn.wave id turn.1 turn.2).count (.resume id) = 0 := by
  rw [count_eq_zero]
  simp

section

variable {settings : Settings} {gives : GroupingQuery → Ending → Prop}

theorem Orderly.finish (task : Task) {outcome : Outcome Response}
    (wave : task.wave.Orderly (rest.filterMap Turn.inWave?))
    (started : rest.count (.start id) = 0) (resumed : rest.count (.resume id) = 0)
    (spent : task.wave.ending.isSome ∨ task.wave.inquiries = []) :
    Orderly id { task with state := .finished outcome } (rest ++ [.wake id]) where
  wave := by
    rw [filterMap_append]
    exact (append_nil _).symm ▸ wave
  start := by rw [count_append, started]; rfl
  resume := by rw [count_append, resumed]; rfl
  submitted := nofun
  running := nofun
  finished := fun _ _ => spent

theorem Orderly.arrives {reached : Outcome Reached} (arrives : task.Arrives settings id reached next new)
    (wave : task.wave.Orderly (rest.filterMap Turn.inWave?))
    (started : rest.count (.start id) = 0) (resumed : rest.count (.resume id) = 0)
    (spent : task.wave.ending.isSome ∨ task.wave.inquiries = [])
    (quiet : (rest.filterMap Turn.inWave?).countP (fun turn => turn.2 == .report) = 0)
    (some : ∀ progress, reached = .ok (.awaiting progress) → progress.queries ≠ []) :
    next.Orderly id (rest ++ new) := by
  cases arrives with
  | fail error => exact .finish task wave started resumed spent
  | complete grid => exact .finish task wave started resumed spent
  | await progress =>
    exact {
      wave := by
        rw [filterMap_append, filterMap_inWave]
        exact orderly_ofQueries quiet
      start := by rw [count_append, started, count_start_map]; rfl
      resume := by rw [count_append, resumed, count_resume_map]; rfl
      submitted := nofun
      running := by
        rintro _ ⟨⟩
        exact ⟨by simp [ofQueries, queries, Function.comp_def], some progress rfl⟩
      finished := nofun }

theorem orderly_empty : Wave.Orderly {} [] where
  missing := fun _ nonempty => absurd rfl nonempty
  succeeded := nofun
  failed := nofun
  revoked := nofun
  awaited := fun _ => trivial
  reports := rfl
  ended := nofun
  unreported := nofun

theorem orderly_submitted (document form : Value) : Orderly id { document, form } [.start id] where
  wave := orderly_empty
  start := by simp [isSubmitted]
  resume := by simp [isResuming]
  submitted := fun _ => rfl
  running := nofun
  finished := nofun

theorem orderly_called {document form : Value} {schema : Outcome Schema}
    (arrives : Arrives settings id { document, form }
      (Except.bind schema fun schema => Progress.start schema settings document) next new) :
    next.Orderly id new := by
  have called : next.Orderly id ([] ++ new) := by
    refine .arrives arrives orderly_empty rfl rfl (.inr rfl) rfl fun progress reached => ?_
    obtain ⟨schema, _, returned⟩ := bind_eq_ok.mp reached
    exact Progress.queries_ne_nil_of_start returned
  exact called

theorem Orderly.first (orderly : task.Orderly id (.start id :: rest)) :
    task.state = .submitted ∧ rest.count (.start id) = 0 ∧ rest.count (.resume id) = 0 := by
  have started := orderly.start
  have resumed := orderly.resume
  cases state : task.state with
  | submitted =>
    exact ⟨rfl, by simpa [isSubmitted, state] using started, by simpa [isResuming, state] using resumed⟩
  | running progress => simp [isSubmitted, state] at started
  | finished outcome => simp [isSubmitted, state] at started

theorem Orderly.resuming (orderly : task.Orderly id (.resume id :: rest)) :
    (∃ progress, task.state = .running progress) ∧ task.wave.ending.isSome ∧
      rest.count (.start id) = 0 ∧ rest.count (.resume id) = 0 := by
  have started := orderly.start
  have resumed := orderly.resume
  cases state : task.state with
  | submitted => simp [isResuming, state] at resumed
  | running progress =>
    simp only [isResuming, state] at resumed
    cases known : task.wave.ending with
    | none => simp [known] at resumed
    | some ending =>
      exact ⟨⟨progress, rfl⟩, rfl, by simpa [isSubmitted, state] using started,
        by simpa [known] using resumed⟩
  | finished outcome => simp [isResuming, state] at resumed

/-- The wave of a task changes, and the turn in which the task goes on comes due if the end of the wave
is known by that. -/
theorem Orderly.setWave {changed : Wave} (orderly : task.Orderly id due)
    (wave : changed.Orderly ((rest ++ new).filterMap Turn.inWave?))
    (started : (rest ++ new).count (.start id) = due.count (.start id))
    (resumed : (rest ++ new).count (.resume id) = (isResuming { task with wave := changed }).toNat)
    (queries : changed.queries = task.wave.queries)
    (known : task.wave.ending.isSome → changed.ending.isSome) :
    Orderly id { task with wave := changed } (rest ++ new) := by
  have length := length_eq_of_queries_eq queries
  have empty (none : task.wave.inquiries = []) : changed.inquiries = [] :=
    eq_nil_of_length_eq_zero (by rw [length, none, length_nil])
  exact {
    wave
    start := started.trans orderly.start
    resume := resumed
    submitted := fun submitted => empty (orderly.submitted submitted)
    running := by
      intro progress running
      rw [queries]
      exact orderly.running progress running
    finished := fun outcome finished => (orderly.finished outcome finished).imp known empty }

private theorem Orderly.pass (orderly : task.Orderly id (turn :: rest))
    (wave : task.wave.Orderly (rest.filterMap Turn.inWave?)) (started : turn ≠ .start id)
    (resumed : turn ≠ .resume id) : task.Orderly id rest where
  wave := wave
  start := by rw [← orderly.start, count_cons_of_ne started]
  resume := by rw [← orderly.resume, count_cons_of_ne resumed]
  submitted := orderly.submitted
  running := orderly.running
  finished := orderly.finished

/-- A report is heard; the task goes on if the end of its wave is known by that. -/
theorem Orderly.report {index : Nat} (orderly : task.Orderly id (.wave id index .report :: rest))
    (inside : index < task.wave.inquiries.length) :
    Orderly id { task with wave := (task.wave.reportTurn index).1 }
      (rest ++ if (task.wave.reportTurn index).2 then [.resume id] else []) := by
  have wave := orderly.wave
  have resumed := orderly.resume
  rw [count_cons_of_ne (by simp)] at resumed
  have queries := (continues_reportTurn task.wave index).queries
  rcases reportTurn_known task.wave index with ⟨open_, same⟩ | ⟨ended, unknown, known⟩
  · simp only [open_, Bool.false_eq_true, if_false]
    refine orderly.setWave ?_ ?_ ?_ queries fun known => by rwa [same]
    · rw [append_nil]
      exact wave.report
    · rw [append_nil, count_cons_of_ne (by simp)]
    · rw [append_nil, resumed]
      simp only [isResuming, same]
  · simp only [ended, if_true]
    refine orderly.setWave ?_ ?_ ?_ queries fun _ => known
    · rw [filterMap_append]
      exact (append_nil _).symm ▸ wave.report
    · rw [count_append]
      rfl
    · -- Only a task under way waits for the end of a wave that has queries.
      have nonempty : task.wave.inquiries ≠ [] := ne_nil_of_length_pos (by omega)
      rw [count_append, resumed]
      cases state : task.state with
      | submitted => exact absurd (orderly.submitted state) nonempty
      | running progress => simp [isResuming, state, unknown, known]
      | finished outcome =>
        rcases orderly.finished outcome state with some | none
        · simp [unknown] at some
        · exact absurd none nonempty

theorem Orderly.turned (orderly : task.Orderly id (turn :: rest))
    (turned : task.Turned settings gives id turn next new) : next.Orderly id (rest ++ new) := by
  have wave := orderly.wave
  cases turned with
  | refuse revoked =>
    obtain ⟨submitted, started, resumed⟩ := orderly.first
    exact .finish task wave started resumed (.inr (orderly.submitted submitted))
  | start kept arrives =>
    obtain ⟨submitted, started, resumed⟩ := orderly.first
    have none := orderly.submitted submitted
    refine .arrives arrives wave started resumed (.inr none) ?_ ?_
    · have counted := wave.reports
      rw [Wave.count, none] at counted
      exact (Nat.add_eq_zero_iff.mp counted).2
    · intro progress reached
      obtain ⟨schema, _, returned⟩ := bind_eq_ok.mp reached
      exact Progress.queries_ne_nil_of_start returned
  | inquire there silent turned =>
    refine orderly.setWave ?_ ?_ ?_ turned.queries fun known => by rwa [turned.ending]
    · rw [filterMap_append, filterMap_inWave]
      exact wave.turned silent turned
    · rw [count_append, count_start_map]
      rfl
    · have resumed := orderly.resume
      rw [count_cons_of_ne (by simp)] at resumed
      rw [count_append, count_resume_map, resumed]
      simp only [isResuming, turned.ending]
      rfl
  | report inside => exact orderly.report inside
  | skip outside =>
    rw [append_nil]
    exact orderly.pass (wave.skip outside) (by simp) (by simp)
  | abandon cause =>
    obtain ⟨⟨progress, running⟩, known, started, resumed⟩ := orderly.resuming
    have swept := wave.sweep fun inquiry => Stage.sweeps_withdraw inquiry.stage
    rw [← append_assoc]
    refine .finish { task with wave := task.wave.withdrawAll.1 } ?_ ?_ ?_ (.inl known)
    · rw [filterMap_append, filterMap_inWave]
      exact swept
    · rw [count_append, started, count_start_map]
    · rw [count_append, resumed, count_resume_map]
  | resume kept running ended arrives =>
    obtain ⟨_, known, started, resumed⟩ := orderly.resuming
    -- All queries of the wave have ended, and all their reports were heard.
    obtain ⟨_, all, _⟩ := wave.succeeded _ ended
    refine .arrives arrives wave started resumed (.inl known) ?_ fun progress =>
      Progress.queries_ne_nil_of_next
    have counted := wave.reports
    have bound : task.wave.count Stage.isDone ≤ task.wave.inquiries.length := Wave.count_le_length
    change _ + (rest.filterMap Turn.inWave?).countP _ = _ at counted
    omega
  | idle kept idle =>
    obtain ⟨⟨progress, running⟩, known, _⟩ := orderly.resuming
    rcases idle with other | unknown
    · exact absurd running (other progress)
    · simp [unknown] at known
  | wake =>
    rw [append_nil]
    exact orderly.pass wave (by simp) (by simp)

end

theorem Orderly.sweep {change : Inquiry → Stage × List Due} (orderly : task.Orderly id due)
    (sweeps : ∀ inquiry, Stage.Sweeps inquiry.stage (change inquiry)) :
    Orderly id { task with wave := (task.wave.sweep change).1 }
      (due ++ (task.wave.sweep change).2.map fun turn => .wave id turn.1 turn.2) := by
  refine orderly.setWave ?_ ?_ ?_ queries_sweep fun known => known
  · rw [filterMap_append, filterMap_inWave]
    exact orderly.wave.sweep sweeps
  · rw [count_append, count_start_map, Nat.add_zero]
  · rw [count_append, count_resume_map, orderly.resume]
    rfl

theorem Orderly.revokes (orderly : task.Orderly id due) (revokes : task.Revokes id next new) :
    next.Orderly id (due ++ new) := by
  cases revokes with
  | finished _ =>
    rw [append_nil]
    exact orderly
  | submitted _ | spent _ _ =>
    rw [append_nil]
    exact ⟨orderly.wave, orderly.start, orderly.resume, orderly.submitted, orderly.running,
      orderly.finished⟩
  | withdraw running unknown =>
    refine orderly.setWave ?_ ?_ ?_ queries_sweep fun known => known
    · rw [filterMap_append, filterMap_inWave]
      exact orderly.wave.revoke unknown
    · rw [count_append, count_start_map, Nat.add_zero]
    · rw [count_append, count_resume_map, orderly.resume]
      rfl

/-- Where nothing is due any more, a task that is under way waits for a place or for an answer. -/
theorem Orderly.exists_waiting (orderly : task.Orderly id []) {progress : Progress}
    (running : task.state = .running progress) : ∃ i < task.wave.inquiries.length,
      task.wave.stage i = .waiting ∨ task.wave.stage i = .held := by
  obtain ⟨queries, some⟩ := orderly.running progress running
  have nonempty : task.wave.inquiries ≠ [] := by
    intro none
    rw [Wave.queries, none] at queries
    exact some queries.symm
  have unknown : task.wave.ending = none := by
    have resumed := orderly.resume
    cases ending : task.wave.ending with
    | none => rfl
    | some _ => simp [isResuming, running, ending] at resumed
  by_contra none
  -- Then every query has ended and has reported it, and the end of the wave is known.
  have spent : task.wave.count Stage.isDone = task.wave.inquiries.length := by
    rw [Wave.count_eq_length_iff]
    intro i inside
    have awaited := orderly.wave.awaited i
    cases stage : task.wave.stage i with
    | done _ => rfl
    | waiting => exact absurd ⟨i, inside, .inl stage⟩ none
    | held => exact absurd ⟨i, inside, .inr stage⟩ none
    | put withdrawn => cases withdrawn <;> simp [stage, Stage.Awaited] at awaited
    | _ => simp [stage, Stage.Awaited] at awaited
  have counted := orderly.wave.reports
  have missing := orderly.wave.missing unknown nonempty
  simp only [filterMap_nil, countP_nil] at counted
  omega

end Task

end Crosstab
