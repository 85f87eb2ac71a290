import Crosstab.Proofs.Outcome
import Crosstab.Request

/-!
# Requests over fixed answers

Where the answers of an executor depend on the queries alone, so does the outcome of a request. It
is said without an executor by `Progress.grid`.
-/
namespace Crosstab

open Request Outcome

namespace Run

variable {σ α β : Type} {kind : σ → Prop}

/-- From states of some kind a computation has this outcome, and the states it reaches are of the same
kind. -/
def Yields (kind : σ → Prop) (run : Run σ α) (outcome : Outcome α) : Prop :=
  ∀ state, kind state → (run.exec state).2 = outcome ∧ kind (run.exec state).1

private theorem Yields.ofOutcome (outcome : Outcome α) : Yields kind (Run.ofOutcome outcome) outcome :=
  fun _ holds => ⟨rfl, holds⟩

theorem Yields.pure (a : α) : Yields kind (Pure.pure a) (.ok a) := fun _ holds => ⟨rfl, holds⟩

private theorem Yields.throw (error : Error) :
    Yields kind (MonadExcept.throw error : Run σ α) (.error error) :=
  fun _ holds => ⟨rfl, holds⟩

variable {run : Run σ α} {outcome : Outcome α} {next : α → Run σ β} {state : σ}

private theorem Yields.attempt (yields : Yields kind run outcome) :
    Yields kind run.attempt (.ok outcome) := by
  intro state holds
  obtain ⟨same, kept⟩ := yields state holds
  exact ⟨congrArg Except.ok same, kept⟩

theorem exec_bind_ok {a : α} (first : (run.exec state).2 = .ok a) :
    (run >>= next).exec state = (next a).exec (run.exec state).1 := by
  rcases reached : ExceptT.run run state with ⟨outcome, between⟩
  obtain rfl : outcome = .ok a := by simpa only [exec, reached] using first
  simp only [exec, ExceptT.run, bind, ExceptT.bind, ExceptT.mk, StateT.bind, ExceptT.bindCont] at reached ⊢
  rw [reached]

theorem exec_bind_error {error : Error} (first : (run.exec state).2 = .error error) :
    (run >>= next).exec state = ((run.exec state).1, .error error) := by
  rcases reached : ExceptT.run run state with ⟨outcome, between⟩
  obtain rfl : outcome = .error error := by simpa only [exec, reached] using first
  simp only [exec, ExceptT.run, bind, ExceptT.bind, ExceptT.mk, StateT.bind, ExceptT.bindCont] at reached ⊢
  rw [reached]
  rfl

theorem Yields.bind {later : α → Outcome β} (yields : Yields kind run outcome)
    (follows : ∀ a, Yields kind (next a) (later a)) :
    Yields kind (run >>= next) (outcome >>= later) := by
  intro state holds
  obtain ⟨same, kept⟩ := yields state holds
  cases outcome with
  | error error =>
    rw [exec_bind_error same]
    exact ⟨rfl, kept⟩
  | ok a =>
    rw [exec_bind_ok same]
    exact follows a _ kept

private theorem Yields.mapM {run : α → Run σ β} {outcome : α → Outcome β}
    (yields : ∀ a, Yields kind (run a) (outcome a)) (xs : List α) :
    Yields kind (xs.mapM run) (xs.mapM outcome) := by
  induction xs with
  | nil => exact .pure []
  | cons x xs ih =>
    rw [List.mapM_cons, List.mapM_cons]
    exact (yields x).bind fun _ => ih.bind fun _ => .pure _

end Run

/-! ### What a request comes to -/

section

variable (answer : GroupingQuery → Outcome (List Row)) (settings : Settings)

namespace Request

def resultOf (query : GroupingQuery) : Outcome (String × List Row) := do
  return (query.key, ← (answer query).mapError (queryFailure query))

def results (queries : List GroupingQuery) : Outcome Results := queries.mapM (resultOf answer)

/-- What is left to do once the members are known. -/
def tabulate (resolved : ResolvedTable) (plan : QueryPlan) : Outcome Grid := do
  resolved.assemble settings plan (← results answer plan.mainQueries)

end Request

/-- The grid to which a request comes that waits for answers. -/
def Progress.grid : Progress → Outcome Grid
  | discovering table discovery => do
    let (resolved, plan) ← planAfter table discovery (← results answer discovery.queries)
    tabulate answer settings resolved plan
  | tabulating resolved plan => tabulate answer settings resolved plan

def Reached.grid : Reached → Outcome Grid
  | awaiting progress => progress.grid answer settings
  | complete grid => .ok grid

/-- The grid to which a request comes as a whole. -/
def Request.grid (schema : Schema) (document : Value) : Outcome Grid := do
  (← Progress.ofTable settings (← compile schema settings document)).grid answer settings

end

variable {answer : GroupingQuery → Outcome (List Row)} {settings : Settings}

namespace Request

variable {queries : List GroupingQuery} {found : Results}

theorem results_eq_ok :
    results answer queries = .ok found ↔
      List.Forall₂ (fun query entry => entry.1 = query.key ∧ answer query = .ok entry.2) queries found := by
  rw [results, mapM_eq_ok]
  have each (query : GroupingQuery) (entry : String × List Row) :
      resultOf answer query = .ok entry ↔ entry.1 = query.key ∧ answer query = .ok entry.2 := by
    cases answered : answer query with
    | error error => simp [resultOf, answered, Except.mapError, bind, Except.bind]
    | ok rows =>
      obtain ⟨key, rows'⟩ := entry
      simp [resultOf, answered, Except.mapError, eq_comm]
  simp only [each]

theorem results_of_answers {rows : List (List Row)}
    (answered : List.Forall₂ (fun query found => answer query = .ok found) queries rows) :
    results answer queries = .ok ((queries.map GroupingQuery.key).zip rows) := by
  rw [results_eq_ok]
  induction answered with
  | nil => exact .nil
  | cons head _ ih => exact .cons ⟨rfl, head⟩ ih

private theorem answer_of_results (returned : results answer queries = .ok found) {query : GroupingQuery}
    (member : query ∈ queries) : ∃ rows, answer query = .ok rows := by
  obtain ⟨entry, _, _, answered⟩ := exists_right_of_forall₂ (results_eq_ok.mp returned) member
  exact ⟨entry.2, answered⟩

end Request

namespace Progress

theorem grid_of_discovered (table : Table) (discovery : DiscoveryPlan) (found : Results) :
    (discovered settings table discovery found >>= fun reached => reached.grid answer settings) =
      planAfter table discovery found >>= fun planned =>
        tabulate answer settings planned.1 planned.2 := by
  unfold discovered
  cases planAfter table discovery found with
  | error error => rfl
  | ok planned =>
    obtain ⟨resolved, plan⟩ := planned
    simp only [ok_bind]
    split
    next none =>
      have empty : plan.mainQueries = [] := List.isEmpty_iff.mp none
      simp only [tabulate, empty, results, List.mapM_nil, pure_eq, ok_bind]
      cases resolved.assemble settings plan [] <;> rfl
    next => rfl

variable {progress : Progress}

/-- With the results it waits for, a request comes to the same grid. -/
theorem grid_of_next {found : Results} (returned : results answer progress.queries = .ok found) :
    (progress.next settings found >>= fun reached => reached.grid answer settings) =
      progress.grid answer settings := by
  cases progress with
  | discovering table discovery =>
    rw [next, grid_of_discovered, grid]
    rw [queries] at returned
    rw [returned]
    rfl
  | tabulating resolved plan =>
    rw [queries] at returned
    rw [grid, tabulate, returned, ok_bind, next]
    cases resolved.assemble settings plan found <;> rfl

theorem answer_of_grid {grid : Grid} (returned : progress.grid answer settings = .ok grid)
    {query : GroupingQuery} (member : query ∈ progress.queries) :
    ∃ rows, answer query = .ok rows := by
  cases progress with
  | discovering table discovery =>
    obtain ⟨found, answered, _⟩ := bind_eq_ok.mp returned
    exact answer_of_results answered member
  | tabulating resolved plan =>
    obtain ⟨found, answered, _⟩ := bind_eq_ok.mp returned
    exact answer_of_results answered member

theorem grid_of_ofTable (table : Table) :
    (ofTable settings table >>= fun reached => reached.grid answer settings) =
      table.discover >>= fun discovery => (discovering table discovery).grid answer settings := by
  unfold ofTable
  cases table.discover with
  | error error => rfl
  | ok discovery =>
    simp only [ok_bind]
    split
    next none =>
      have empty : discovery.queries = [] := List.isEmpty_iff.mp none
      rw [grid_of_discovered, grid, empty]
      rfl
    next => rfl

theorem grid_of_start {schema : Schema} {document : Value}
    (accepted : Request.checkConcurrency settings = .ok ()) :
    (start schema settings document >>= fun reached => reached.grid answer settings) =
      Request.grid answer settings schema document := by
  rw [start, Request.grid, accepted]
  cases Request.compile schema settings document <;> rfl

end Progress

/-! ### Queries one after the other -/

namespace Request

variable {σ : Type} {kind : σ → Prop} {execute : GroupingQuery → Run σ (List Row)}

private theorem executeInOrder_yields (steady : ∀ query, (execute query).Yields kind (answer query))
    (queries : List GroupingQuery) :
    (executeInOrder execute queries).Yields kind (results answer queries) := by
  refine .mapM (fun query => ?_) queries
  have each : (executeOne execute query).Yields kind ((.ok (answer query) : Outcome _) >>= fun answered =>
      (answered.mapError (queryFailure query)).map fun rows => (query.key, rows)) := by
    refine (steady query).attempt.bind fun answered => ?_
    cases answered with
    | ok rows => exact .pure _
    | error error => exact .throw _
  cases answered : answer query with
  | ok rows => simpa [resultOf, answered, Except.mapError, Except.map] using each
  | error error => simpa [resultOf, answered, Except.mapError, Except.map, bind, Except.bind] using each

/-- A request whose queries are executed one after the other comes to its grid. -/
theorem run_yields (steady : ∀ query, (execute query).Yields kind (answer query)) (schema : Schema)
    (document form : Value) : (run execute schema settings document form).Yields kind
      (grid answer settings schema document >>= Response.ofGrid form) := by
  have tabulates (table : Table) : (runTable (executeInOrder execute) settings table).Yields kind
      (Progress.ofTable settings table >>= fun reached => reached.grid answer settings) := by
    rw [Progress.grid_of_ofTable]
    refine (Run.Yields.ofOutcome _).bind fun discovery => ?_
    refine (executeInOrder_yields steady _).bind fun found => ?_
    refine (Run.Yields.ofOutcome _).bind fun planned => ?_
    exact (executeInOrder_yields steady _).bind fun results => .ofOutcome _
  rw [grid, bind_assoc]
  exact (Run.Yields.ofOutcome _).bind fun table => (tabulates table).bind fun grid => .ofOutcome _

end Request

end Crosstab
