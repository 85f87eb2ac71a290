import Crosstab.Proofs.Request.Log

/-!
# Requests one after the other

A controller carries nothing from one request to the next but the state of its executor, the number
of requests and the schema.
-/
namespace Crosstab.Controller

open List

variable {ε : Type} [Answerer ε]

/-- The schema that is used for requests, in any state of the executor. -/
def Knows (controller : Controller ε) (schema : Schema) : Prop :=
  ∀ state : ε, controller.knownSchema.elim (Answerer.schema state) .ok = .ok schema

/-- Runs requests, each a statement with the form of its response, one after the other. -/
def serve (controller : Controller ε) (history : List (Value × Value)) : Controller ε :=
  history.foldl (fun controller request => (controller.run request.1 request.2).1) controller

/-- Takes requests with these settings and this schema. -/
structure Serves (settings : Settings) (schema : Schema) (controller : Controller ε) : Prop where
  settings : controller.settings = settings
  knows : controller.Knows schema

variable {settings : Settings} {schema : Schema}

theorem Serves.run {controller : Controller ε} (serves : controller.Serves settings schema)
    (document form : Value) :
    let request := Request.run Answerer.execute schema settings document form
    (controller.run document form).1.Serves settings schema ∧
      (controller.run document form).1.executor = (request.exec controller.executor).1 ∧
      (controller.run document form).2 = (request.exec controller.executor).2 := by
  obtain ⟨rfl, knows⟩ := serves
  cases known : controller.knownSchema with
  | some other =>
    have same : other = schema := by simpa [Knows, known] using knows controller.executor
    subst same
    simp only [Controller.run, Controller.schema, countRequest, known]
    exact ⟨⟨rfl, fun _ => rfl⟩, trivial, trivial⟩
  | none =>
    have told : Answerer.schema controller.executor = .ok schema := by
      simpa [Knows, known] using knows controller.executor
    simp only [Controller.run, Controller.schema, countRequest, known, told]
    exact ⟨⟨rfl, fun _ => rfl⟩, trivial, trivial⟩

private theorem Serves.serve {controller : Controller ε} (serves : controller.Serves settings schema)
    (history : List (Value × Value)) : (controller.serve history).Serves settings schema := by
  induction history generalizing controller with
  | nil => exact serves
  | cons request history ih => exact ih (serves.run request.1 request.2).1

private theorem executor_serve {recorded : Controller (Recorder ε)} {bare : Controller ε}
    (serves : recorded.Serves settings schema) (alone : bare.Serves settings schema)
    (same : recorded.executor.executor = bare.executor) (history : List (Value × Value)) :
    (recorded.serve history).executor.executor = (bare.serve history).executor := by
  induction history generalizing recorded bare with
  | nil => exact same
  | cons request history ih =>
    obtain ⟨serves, reached, _⟩ := serves.run request.1 request.2
    obtain ⟨alone, other, _⟩ := alone.run request.1 request.2
    refine ih serves alone ?_
    obtain ⟨log, _, ended⟩ := Request.run_served recorded.executor
    rw [reached, other, ended, same]

/-- Whatever was served before, a request executes its queries one after the other and up to the first
failure, and it comes to what its statement, the settings and the answers to these queries say: as it
does with a controller that has served nothing. -/
theorem requests_leave_nothing_behind {known : Option Schema}
    (fixed : ∀ state : ε, known.elim (Answerer.schema state) .ok = .ok schema) (executor : ε)
    (pace : Pace) (settings : Settings) (history : List (Value × Value)) (document form : Value) :
    let controller := (fresh (⟨executor, []⟩ : Recorder ε) pace settings known).serve history
    let served := controller.run document form
    let first := (fresh controller.executor pace settings known).run document form
    (∃ log, served.1.executor.log = controller.executor.log ++ log ∧
        Request.Served schema settings document form log served.2) ∧
      (first.2 = served.2 ∧ first.1.executor = served.1.executor) ∧
      (((fresh executor pace settings known).serve history).run document form).2 = served.2 := by
  intro controller served first
  have starts (recorder : Recorder ε) : (fresh recorder pace settings known).Serves settings schema :=
    ⟨rfl, fun state => fixed state.executor⟩
  have alone : (fresh executor pace settings known).Serves settings schema := ⟨rfl, fixed⟩
  have same := executor_serve (starts ⟨executor, []⟩) alone rfl history
  obtain ⟨_, reached, outcome⟩ := ((starts ⟨executor, []⟩).serve history).run document form
  obtain ⟨_, fresh_reached, fresh_outcome⟩ := (starts controller.executor).run document form
  obtain ⟨_, _, bare_outcome⟩ := (alone.serve history).run document form
  obtain ⟨log, told, ended⟩ := Request.run_served controller.executor
  refine ⟨⟨log, ?_, ?_⟩, ⟨?_, ?_⟩, ?_⟩
  · rw [reached, ended]
  · rw [outcome, ended]
    exact told
  · exact fresh_outcome.trans outcome.symm
  · exact fresh_reached.trans reached.symm
  · rw [bare_outcome, outcome, ended, ← same]

/-- A source that fails on its second query: the request for towns by their pay ends there, two others
come to no query, and asked for again it executes both of its queries. -/
theorem requests_leave_nothing_behind_after_failure :
    let pay : Value := .record [("type", "binding"), ("measure", "pay"),
      ("aggregations", .list ["sum"])]
    let ranked (field : String) : Value := .record [("type", "dimension"), ("name", .text field),
      ("order_by", .record [("field", "pay"), ("aggregate", "sum")])]
    let by_pay (field : String) : Value := .record [("rows", .record [("type", "axis"),
      ("groups", .list [.record [("items", .list [ranked field, pay])]])])]
    let schema := Schema.ofNames ["town"] ["pay"]
    let source : Executor := .memory
      ⟨[[("town", "York"), ("pay", 3)]], schema, some (1, ⟨.timeout, "late"⟩), 0, []⟩
    let history : List (Value × Value) :=
      [(by_pay "town", "grid"), (by_pay "job", "grid"), (.null, .null)]
    let controller := (fresh (⟨source, []⟩ : Recorder Executor) .prompt {} (some schema)).serve history
    let served := controller.run (by_pay "town") "grid"
    let told (log : Log) := log.map fun entry => (entry.1.purpose, entry.2.isOk)
    told controller.executor.log = [(.discovery, true), (.main, false)] ∧
      told served.1.executor.log =
        [(.discovery, true), (.main, false), (.discovery, true), (.main, true)] ∧
      ∃ log, served.1.executor.log = controller.executor.log ++ log ∧
        Request.Served schema {} (by_pay "town") "grid" log served.2 := by
  intro pay ranked by_pay schema source history controller served told
  have evaluated : told controller.executor.log = [(.discovery, true), (.main, false)] ∧
      told served.1.executor.log =
        [(.discovery, true), (.main, false), (.discovery, true), (.main, true)] := by
    decide +kernel
  have fixed (state : Executor) : (some schema).elim (Answerer.schema state) .ok = .ok schema := rfl
  obtain ⟨logged, _⟩ := requests_leave_nothing_behind fixed source .prompt {} history
    (by_pay "town") "grid"
  subst served controller
  exact ⟨evaluated.1, evaluated.2, logged⟩

end Crosstab.Controller
