import Crosstab.Proofs.Controller.Trace
import Crosstab.Proofs.Grid.Lookups
import Crosstab.Proofs.Request

/-!
# What a request asks

A request over any executor, with a log of its queries and their answers. The log follows the plan
and ends with the first failure.
-/
namespace Crosstab

open List Outcome Table ResolvedTable

/-- Queries with their answers, in the order in which they were executed. -/
abbrev Log := List (GroupingQuery × Outcome (List Row))

namespace Log

def Answered (log : Log) : Prop := ∀ entry ∈ log, ∃ rows, entry.2 = .ok rows

/-- The log of one who answers this way. -/
def IsOf (log : Log) (answer : GroupingQuery → Outcome (List Row)) : Prop :=
  ∀ entry ∈ log, answer entry.1 = entry.2

/-- The last query failed, and no other. An error of the engine comes out as it is, and any other as
a failure of execution. -/
def StopsWith (log : Log) (error : Error) : Prop :=
  ∃ front query cause, log = front ++ [(query, .error cause)] ∧ Answered front ∧
    error = if cause.isOwn then cause else .execution (.failed query.describe cause.message)

theorem StopsWith.not_answered {log : Log} {error : Error} (stops : log.StopsWith error) :
    ¬ log.Answered := by
  obtain ⟨front, query, cause, rfl, _⟩ := stops
  intro answered
  obtain ⟨rows, same⟩ := answered _ (mem_append_right _ mem_cons_self)
  cases same

theorem StopsWith.append {front log : Log} {error : Error} (answered : front.Answered)
    (stops : log.StopsWith error) : StopsWith (front ++ log) error := by
  obtain ⟨between, query, cause, rfl, between_answered, rfl⟩ := stops
  exact ⟨front ++ between, query, cause, (append_assoc ..).symm,
    forall_mem_append.mpr ⟨answered, between_answered⟩, rfl⟩

end Log

/-- An executor with a log of what was asked of it. -/
structure Recorder (ε : Type) where
  executor : ε
  log : Log

instance {ε : Type} [Answerer ε] : Answerer (Recorder ε) where
  execute query := Run.ofStep fun recorder =>
    let (executor, answer) := (Answerer.execute query).exec recorder.executor
    (⟨executor, recorder.log ++ [(query, answer)]⟩, answer)
  schema recorder := Answerer.schema recorder.executor
  close recorder := { recorder with executor := Answerer.close recorder.executor }

/-! ### Computations with a log -/

namespace Run

variable {ε α β : Type}

/-- A computation over a recorder does what it does over the executor alone, and adds a log. -/
def Logs (run : Run (Recorder ε) α) (bare : Run ε α) (course : Log → Outcome α → Prop) : Prop :=
  ∀ recorder, ∃ log, course log (bare.exec recorder.executor).2 ∧ run.exec recorder =
    (⟨(bare.exec recorder.executor).1, recorder.log ++ log⟩, (bare.exec recorder.executor).2)

def Still (made : Outcome α) (log : Log) (outcome : Outcome α) : Prop := log = [] ∧ outcome = made

/-- One course, and another behind it if the first leads to a result. -/
inductive Sequel (first : Log → Outcome α → Prop) (next : α → Log → Outcome β → Prop) :
    Log → Outcome β → Prop
  | stopped {log : Log} {error : Error} (failed : first log (.error error)) :
      Sequel first next log (.error error)
  | went {front back : Log} {a : α} {outcome : Outcome β} (returned : first front (.ok a))
      (later : next a back outcome) : Sequel first next (front ++ back) outcome

theorem Logs.ofOutcome (outcome : Outcome α) :
    (Run.ofOutcome outcome : Run (Recorder ε) α).Logs (Run.ofOutcome outcome) (Still outcome) := by
  intro recorder
  refine ⟨[], ⟨rfl, rfl⟩, ?_⟩
  rw [append_nil]
  rfl

theorem Logs.imp {run : Run (Recorder ε) α} {bare : Run ε α} {course other : Log → Outcome α → Prop}
    (logs : run.Logs bare course) (weaker : ∀ log outcome, course log outcome → other log outcome) :
    run.Logs bare other := by
  intro recorder
  obtain ⟨log, took, reached⟩ := logs recorder
  exact ⟨log, weaker _ _ took, reached⟩

theorem Logs.bind {run : Run (Recorder ε) α} {bare : Run ε α} {f : α → Run (Recorder ε) β}
    {g : α → Run ε β} {first : Log → Outcome α → Prop} {next : α → Log → Outcome β → Prop}
    (start : run.Logs bare first) (follows : ∀ a, (f a).Logs (g a) (next a)) :
    (run >>= f).Logs (bare >>= g) (Sequel first next) := by
  intro recorder
  obtain ⟨log, course, reached⟩ := start recorder
  cases made : (bare.exec recorder.executor).2 with
  | error error =>
    rw [made] at course reached
    refine ⟨log, ?_, ?_⟩
    · rw [exec_bind_error made]
      exact .stopped course
    · rw [exec_bind_error made, exec_bind_error (by rw [reached]), reached]
  | ok a =>
    rw [made] at course reached
    obtain ⟨more, later, ended⟩ := follows a ⟨(bare.exec recorder.executor).1, recorder.log ++ log⟩
    refine ⟨log ++ more, ?_, ?_⟩
    · rw [exec_bind_ok made]
      exact .went course later
    · rw [exec_bind_ok made, exec_bind_ok (by rw [reached]), reached, ended, append_assoc]

private theorem ofOutcome_bind {σ : Type} (made : Outcome α) (f : α → Outcome β) :
    (Run.ofOutcome made >>= fun a => Run.ofOutcome (f a) : Run σ β) = Run.ofOutcome (made >>= f) := by
  cases made <;> rfl

private theorem Sequel.of_still {first : Log → Outcome α → Prop} {f : α → Outcome β} {log : Log}
    {outcome : Outcome β} (course : Sequel first (fun a => Still (f a)) log outcome) :
    ∃ made, first log made ∧ outcome = made >>= f := by
  cases course with
  | stopped failed => exact ⟨_, failed, rfl⟩
  | went returned still =>
    obtain ⟨rfl, rfl⟩ := still
    rw [append_nil]
    exact ⟨_, returned, rfl⟩

end Run

namespace Request

open Run

variable {ε : Type} [Answerer ε] {settings : Settings} {schema : Schema} {document form : Value}

/-! ### Waves with a log -/

private theorem exec_executeOne {σ : Type} (execute : GroupingQuery → Run σ (List Row))
    (query : GroupingQuery) (state : σ) : (executeOne execute query).exec state =
      (((execute query).exec state).1, resultOf (fun _ => ((execute query).exec state).2) query) := by
  have attempted : ((execute query).attempt.exec state).2 = .ok ((execute query).exec state).2 := rfl
  unfold executeOne resultOf
  rw [exec_bind_ok attempted]
  cases ((execute query).exec state).2 <;> rfl

/-- What the log of a wave tells. -/
structure Asked (queries : List GroupingQuery) (log : Log) (outcome : Outcome Results) : Prop where
  order : log.map Prod.fst <+: queries
  whole : ∀ found, outcome = .ok found → log.Answered ∧ log.map Prod.fst = queries ∧
    found.map Prod.fst = queries.map GroupingQuery.key
  stops : ∀ error, outcome = .error error → log.StopsWith error
  replay : ∀ answer, log.IsOf answer → results answer queries = outcome

private theorem executeOne_logs (query : GroupingQuery) :
    (executeOne Answerer.execute query : Run (Recorder ε) _).Logs
      (executeOne Answerer.execute query) fun log outcome =>
        ∃ answer, log = [(query, answer)] ∧ outcome = resultOf (fun _ => answer) query := by
  intro recorder
  rw [exec_executeOne, exec_executeOne]
  exact ⟨_, ⟨_, rfl, rfl⟩, rfl⟩

private theorem results_cons (answer : GroupingQuery → Outcome (List Row)) (query : GroupingQuery)
    (queries : List GroupingQuery) : results answer (query :: queries) = (do
      let first ← resultOf answer query
      return first :: (← results answer queries)) := mapM_cons

private theorem Asked.cons {query : GroupingQuery} {queries : List GroupingQuery} {log : Log}
    {outcome : Outcome Results}
    (course : Sequel (fun log made => ∃ answer, log = [(query, answer)] ∧
        made = resultOf (fun _ => answer) query)
      (fun first => Sequel (Asked queries) fun rest => Still (.ok (first :: rest))) log outcome) :
    Asked (query :: queries) log outcome := by
  cases course with
  | stopped failed =>
    -- The first query failed, and the log ends with it.
    obtain ⟨_ | rows, rfl, made⟩ := failed
    · cases made
      constructor
      case order => exact prefix_append [query] queries
      case whole => rintro _ ⟨⟩
      case stops =>
        rintro _ ⟨⟩
        exact ⟨[], query, _, rfl, forall_mem_nil _, rfl⟩
      case replay =>
        intro answer isOf
        rw [results_cons, resultOf, isOf _ mem_cons_self]
        rfl
    · cases made
  | went returned later =>
    obtain ⟨_ | rows, rfl, made⟩ := returned
    · cases made
    · cases made
      have answered : Log.Answered [(query, .ok rows)] := by simp [Log.Answered]
      cases later with
      | stopped failed =>
        constructor
        case order => exact cons_prefix_cons.mpr ⟨rfl, failed.order⟩
        case whole => rintro _ ⟨⟩
        case stops =>
          rintro _ ⟨⟩
          exact (failed.stops _ rfl).append answered
        case replay =>
          intro answer isOf
          obtain ⟨own, others⟩ := forall_mem_cons.mp isOf
          rw [results_cons, resultOf, own, failed.replay answer others]
          rfl
      | went asked still =>
        obtain ⟨rfl, rfl⟩ := still
        obtain ⟨all, order, keys⟩ := asked.whole _ rfl
        rw [append_nil]
        constructor
        case order => exact cons_prefix_cons.mpr ⟨rfl, asked.order⟩
        case whole =>
          rintro _ ⟨⟩
          exact ⟨forall_mem_append.mpr ⟨answered, all⟩, congrArg _ order, congrArg _ keys⟩
        case stops => rintro _ ⟨⟩
        case replay =>
          intro answer isOf
          obtain ⟨own, others⟩ := forall_mem_cons.mp isOf
          rw [results_cons, resultOf, own, asked.replay answer others]
          rfl

/-- A wave asks its queries in their order, up to the first that fails. -/
theorem executeInOrder_logs (queries : List GroupingQuery) :
    (executeInOrder Answerer.execute queries : Run (Recorder ε) Results).Logs
      (executeInOrder Answerer.execute queries) (Asked queries) := by
  induction queries with
  | nil =>
    intro recorder
    refine ⟨[], ⟨List.nil_prefix, ?_, nofun, fun _ _ => rfl⟩, ?_⟩
    · rintro _ ⟨⟩
      exact ⟨forall_mem_nil _, rfl, rfl⟩
    · rw [append_nil]
      rfl
  | cons query queries ih =>
    unfold executeInOrder
    rw [mapM_cons, mapM_cons]
    refine .imp ((executeOne_logs query).bind fun first => ih.bind fun rest => ?_) fun _ _ => .cons
    exact .ofOutcome (.ok (first :: rest))

/-! ### Requests with a log -/

/-- The queries of a statement in the order of its plan: those of discovery, and behind them those
that are planned once discovery was answered. -/
def queries (answer : GroupingQuery → Outcome (List Row)) (schema : Schema) (settings : Settings)
    (document : Value) : List GroupingQuery :=
  let planned := do
    let table ← compile schema settings document
    let discovery ← table.discover
    planAfter table discovery (← results answer discovery.queries)
  discoveryQueries (.ok schema) settings document ++
    planned.toOption.elim [] fun planned => planned.2.mainQueries

/-- What the log of a request tells. -/
structure Served (schema : Schema) (settings : Settings) (document form : Value) (log : Log)
    (outcome : Outcome Response) : Prop where
  once : (log.map Prod.fst).Nodup
  order : ∀ answer, log.IsOf answer → log.map Prod.fst <+: queries answer schema settings document
  /-- All queries are executed, unless one fails. -/
  whole : log.Answered → ∀ answer, log.IsOf answer →
    log.map Prod.fst = queries answer schema settings document
  /-- The first failure is the end, and what the request fails with. -/
  stops : log.Answered ∨ ∃ error, log.StopsWith error ∧ outcome = .error error
  /-- Once a query was executed, the request itself fails only on values: not for the statement, and
  not for its plan. -/
  early : log.Answered → log = [] ∨ outcome.FailsOnValues
  replay : ∀ answer, log.IsOf answer →
    outcome = grid answer settings schema document >>= Response.ofGrid form

/-- What is done with the results of discovery. -/
abbrev AfterDiscovery (settings : Settings) (form : Value) (table : Table) (discovery : DiscoveryPlan)
    (found : Results) : Log → Outcome Response → Prop :=
  Sequel (Still (planAfter table discovery found)) fun planned =>
    Sequel (Asked planned.2.mainQueries) fun results =>
      Still (planned.1.assemble settings planned.2 results >>= Response.ofGrid form)

private theorem run_logs : (run Answerer.execute schema settings document form : Run (Recorder ε) _).Logs
    (run Answerer.execute schema settings document form)
    (Sequel (Still (compile schema settings document)) fun table =>
      Sequel (Still table.discover) fun discovery =>
        Sequel (Asked discovery.queries) (AfterDiscovery settings form table discovery)) := by
  unfold run runTable
  simp only [bind_assoc, ofOutcome_bind]
  refine (Logs.ofOutcome _).bind fun table => (Logs.ofOutcome _).bind fun discovery => ?_
  refine (executeInOrder_logs _).bind fun found => (Logs.ofOutcome _).bind fun planned => ?_
  exact (executeInOrder_logs _).bind fun results => .ofOutcome _

/-! ### What the log tells -/

private theorem ofGrid_failsOnValues (form : Value) (grid : Grid) :
    (Response.ofGrid form grid).FailsOnValues := by
  unfold Response.ofGrid
  split
  · exact .ok _
  · exact .ok _
  · refine FailsOnValues.bind_pure (.mapM fun record _ => .bind_pure ?_)
    unfold Grid.exactDouble
    split
    · exact .ok _
    · exact .ok _
    · split
      · split
        · exact (Value.asDouble_failsOnValues _).bind_pure
        · exact .error rfl
      · exact .error rfl
  · exact .error rfl

theorem cover_of_keys {found : Results} {queries : List GroupingQuery}
    (keys : found.map Prod.fst = queries.map GroupingQuery.key) : found.Cover queries := by
  intro query member
  obtain ⟨entry, there, same⟩ := mem_map.mp (keys ▸ mem_map_of_mem member)
  rw [← Option.ne_none_iff_isSome, Ne, lookup_eq_none_iff]
  intro none
  simpa [same] using none entry there

variable {table : Table} {discovery : DiscoveryPlan} {found : Results}
  {planned : ResolvedTable × QueryPlan} {log : Log} {outcome : Outcome Response}

private theorem nodup_queries (discovered : table.discover = .ok discovery)
    (after : planAfter table discovery found = .ok planned) :
    (discovery.queries ++ planned.2.mainQueries).Nodup := by
  obtain ⟨_, asked, _⟩ := discover_eq_ok discovered
  obtain ⟨resolved, _, after⟩ := bind_eq_ok.mp after
  obtain ⟨plan, made, after⟩ := bind_eq_ok.mp after
  cases after
  obtain ⟨_, _, _, answers, _⟩ := plan_eq_ok made
  refine nodup_append.mpr ⟨.of_map _ asked.nodup_keys, .of_map _ answers.nodup_keys, ?_⟩
  -- Queries of the two waves differ in their purpose.
  rintro query exploring _ main rfl
  have purpose := purpose_of_discover discovered query exploring
  rw [purpose_of_plan made query main] at purpose
  cases purpose

private theorem served_of_unplanned {error : Error}
    (failed : (compile schema settings document >>= discover) = .error error) :
    Served schema settings document form [] (.error error) where
  once := nodup_nil
  order _ _ := nil_prefix
  whole _ answer _ := by
    rcases bind_eq_error.mp failed with failed | ⟨table, compiled, failed⟩
    · rw [queries, discoveryQueries, ok_bind, failed]
      rfl
    · rw [queries, discoveryQueries, ok_bind, compiled, ok_bind, ok_bind, failed]
      rfl
  stops := .inl (forall_mem_nil _)
  early _ := .inl rfl
  replay answer _ := by
    rcases bind_eq_error.mp failed with failed | ⟨table, compiled, failed⟩
    · rw [grid, failed]
      rfl
    · rw [grid, compiled, ok_bind, Progress.ofTable, failed]
      rfl

section

variable (compiled : compile schema settings document = .ok table)
  (discovered : table.discover = .ok discovery)

include compiled discovered

theorem queries_eq (answer : GroupingQuery → Outcome (List Row)) :
    queries answer schema settings document = discovery.queries ++
      (results answer discovery.queries >>= planAfter table discovery).toOption.elim []
        fun planned => planned.2.mainQueries := by
  simp [queries, discoveryQueries, compiled, discovered, Except.toOption]

theorem grid_eq (answer : GroupingQuery → Outcome (List Row)) :
    grid answer settings schema document =
      (results answer discovery.queries >>= planAfter table discovery) >>= fun planned =>
        tabulate answer settings planned.1 planned.2 := by
  rw [grid, compiled, ok_bind, Progress.grid_of_ofTable, discovered, bind_assoc]
  rfl

/-- Whatever answers there are to the queries, what is made of them fails on values only. -/
theorem planAfter_failsOnValues (covered : found.Cover discovery.queries) :
    (planAfter table discovery found).FailsOnValues := by
  obtain ⟨statement, _, compiled⟩ := bind_eq_ok.mp compiled
  refine (resolve_failsOnValues (wellFormed_of_compile compiled) discovered covered).bind
    fun resolved fixed => ?_
  obtain ⟨plan, planned⟩ := exists_plan discovered fixed
  rw [planned]
  exact .ok _

private theorem assemble_failsOnValues (after : planAfter table discovery found = .ok planned)
    {answered : Results} (covered : answered.Cover planned.2.mainQueries) :
    (planned.1.assemble settings planned.2 answered).FailsOnValues := by
  obtain ⟨statement, _, compiled⟩ := bind_eq_ok.mp compiled
  obtain ⟨resolved, fixed, after⟩ := bind_eq_ok.mp after
  obtain ⟨plan, made, after⟩ := bind_eq_ok.mp after
  cases after
  obtain ⟨rfl, _, _⟩ := resolve_eq_ok fixed
  exact assemble_failsOnValues made (findsAll_of_plan settings
    (wellFormed_of_compile compiled)
    (fun side branch member => branchMeasures_subset compiled member) made covered)

private theorem served_of_unexplored {error : Error}
    (failed : Asked discovery.queries log (.error error)) :
    Served schema settings document form log (.error error) := by
  obtain ⟨_, exploring, _⟩ := discover_eq_ok discovered
  have stops := failed.stops _ rfl
  constructor
  case once => exact (Nodup.of_map _ exploring.nodup_keys).sublist failed.order.sublist
  case order =>
    intro answer _
    rw [queries_eq compiled discovered]
    exact failed.order.trans (prefix_append ..)
  case whole => exact fun answered => absurd answered stops.not_answered
  case stops => exact .inr ⟨_, stops, rfl⟩
  case early => exact fun answered => absurd answered stops.not_answered
  case replay =>
    intro answer isOf
    rw [grid_eq compiled discovered, failed.replay answer isOf]
    rfl

/-- Discovery was answered, but there is no plan. -/
theorem served_of_unresolved {error : Error} (explored : Asked discovery.queries log (.ok found))
    (failed : planAfter table discovery found = .error error) :
    Served schema settings document form log (.error error) := by
  obtain ⟨_, exploring, _⟩ := discover_eq_ok discovered
  obtain ⟨all, order, keys⟩ := explored.whole _ rfl
  have asked (answer) (isOf : log.IsOf answer) :
      log.map Prod.fst = queries answer schema settings document := by
    rw [queries_eq compiled discovered, explored.replay answer isOf, ok_bind, failed, order]
    exact (append_nil _).symm
  constructor
  case once => exact order ▸ .of_map _ exploring.nodup_keys
  case order => exact fun answer isOf => asked answer isOf ▸ prefix_rfl
  case whole => exact fun _ => asked
  case stops => exact .inl all
  case early =>
    have ofValue := planAfter_failsOnValues compiled discovered (cover_of_keys keys) _ failed
    exact fun _ => .inr (.error ofValue)
  case replay =>
    intro answer isOf
    rw [grid_eq compiled discovered, explored.replay answer isOf, ok_bind, failed]
    rfl

private theorem served_of_tabulated {front back : Log} {made : Outcome Results}
    (explored : Asked discovery.queries front (.ok found))
    (after : planAfter table discovery found = .ok planned)
    (asked : Asked planned.2.mainQueries back made) :
    Served schema settings document form (front ++ back) (made >>= fun answered =>
      planned.1.assemble settings planned.2 answered >>= Response.ofGrid form) := by
  obtain ⟨all, order, _⟩ := explored.whole _ rfl
  have both {answer} (isOf : Log.IsOf (front ++ back) answer) :
      results answer discovery.queries = .ok found ∧ results answer planned.2.mainQueries = made :=
    ⟨explored.replay answer (forall_mem_append.mp isOf).1,
      asked.replay answer (forall_mem_append.mp isOf).2⟩
  have queries_eq {answer} (isOf : Log.IsOf (front ++ back) answer) :
      queries answer schema settings document = discovery.queries ++ planned.2.mainQueries := by
    rw [queries_eq compiled discovered, (both isOf).1, ok_bind, after]
    rfl
  -- Discovery was answered in full, so the log goes on with queries of the plan.
  have within : (front ++ back).map Prod.fst <+: discovery.queries ++ planned.2.mainQueries := by
    rw [map_append, order]
    exact (prefix_append_right_inj _).mpr asked.order
  have stops (error) (failed : made = .error error) : Log.StopsWith (front ++ back) error :=
    (asked.stops error failed).append all
  have returned (answered : Log.Answered (front ++ back)) : ∃ found, made = .ok found := by
    cases made with
    | error error => exact absurd answered (stops error rfl).not_answered
    | ok found => exact ⟨found, rfl⟩
  constructor
  case once => exact (nodup_queries discovered after).sublist within.sublist
  case order => exact fun answer isOf => queries_eq isOf ▸ within
  case whole =>
    intro answered answer isOf
    obtain ⟨_, rfl⟩ := returned answered
    rw [queries_eq isOf, map_append, order, (asked.whole _ rfl).2.1]
  case stops =>
    cases made with
    | error error => exact .inr ⟨error, stops error rfl, rfl⟩
    | ok _ => exact .inl (forall_mem_append.mpr ⟨all, (asked.whole _ rfl).1⟩)
  case early =>
    intro answered
    obtain ⟨_, rfl⟩ := returned answered
    have covered := cover_of_keys (asked.whole _ rfl).2.2
    exact .inr ((assemble_failsOnValues compiled discovered after covered).bind
      fun grid _ => ofGrid_failsOnValues form grid)
  case replay =>
    intro answer isOf
    rw [grid_eq compiled discovered, (both isOf).1, ok_bind, after, ok_bind, tabulate,
      (both isOf).2, bind_assoc]

private theorem served_of_planned
    (course : Sequel (Asked discovery.queries) (AfterDiscovery settings form table discovery) log
      outcome) : Served schema settings document form log outcome := by
  cases course with
  | stopped failed => exact served_of_unexplored compiled discovered failed
  | went explored after =>
    cases after with
    | stopped failed =>
      obtain ⟨rfl, failed⟩ := failed
      rw [append_nil]
      exact served_of_unresolved compiled discovered explored failed.symm
    | went after tabulating =>
      obtain ⟨rfl, after⟩ := after
      obtain ⟨made, asked, rfl⟩ := tabulating.of_still
      exact served_of_tabulated compiled discovered explored after.symm asked

end

/-- A request over an executor, whatever it answers. -/
theorem run_served : (run Answerer.execute schema settings document form : Run (Recorder ε) _).Logs
    (run Answerer.execute schema settings document form) (Served schema settings document form) := by
  refine run_logs.imp fun log outcome course => ?_
  cases course with
  | stopped failed =>
    obtain ⟨rfl, failed⟩ := failed
    exact served_of_unplanned (by rw [← failed]; rfl)
  | went compiled later =>
    obtain ⟨rfl, compiled⟩ := compiled
    cases later with
    | stopped failed =>
      obtain ⟨rfl, failed⟩ := failed
      exact served_of_unplanned (by rw [← compiled, ok_bind, failed])
    | went discovered later =>
      obtain ⟨rfl, discovered⟩ := discovered
      exact served_of_planned compiled.symm discovered.symm later

end Request

end Crosstab
