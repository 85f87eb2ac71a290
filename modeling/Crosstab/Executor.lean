import Crosstab.Source
import Crosstab.Store.Table

/-!
# Executors

What answers grouping queries: rows in memory, or a store of tables that counts the queries that it
answered. A failed query leaves its traces too.
-/
namespace Crosstab

abbrev Shelf := List (String × StoredTable)

namespace Shelf

/-- Names are told apart without regard to case. -/
def sameName (a b : String) : Bool := a.map Char.toLower == b.map Char.toLower

def table? (shelf : Shelf) (name : String) : Option StoredTable :=
  (List.find? (fun entry => sameName entry.1 name) shelf).map (·.2)

def put (shelf : Shelf) (name : String) (table : StoredTable) : Shelf :=
  (name, table) :: shelf.filter fun entry => !sameName entry.1 name

end Shelf

/-- Tables of the session and lasting ones, the name that queries run on, and the number of answered
queries. -/
structure Store where
  session : Shelf := []
  lasting : Shelf := []
  source : Option String := none
  connected : Bool := true
  queryCount : Nat := 0
  deriving Repr

namespace Store

/-- Opens an empty store; its address is a text, or nothing. -/
def connect (address : Value) : Outcome Store := do
  if address.truthy then discard address.asText
  return {}

variable (store : Store)

/-- The table that queries run on; one of the session hides a lasting one. -/
def table : Outcome StoredTable :=
  match store.source with
  | none => .error (.invalid .noSourceTable)
  | some name =>
    if !store.connected then .error (.misuse .closed)
    else
      match store.session.table? name <|> store.lasting.table? name with
      | some table => .ok table
      | none => .error (.misuse .noTable)

def schema : Outcome Schema := do return (← store.table).schema

/-- Adds or replaces a table; queries then run on its name. -/
def register (name : String) (table : StoredTable) (lasts : Bool) : Store × Outcome Unit :=
  if !store.connected then (store, .error (.misuse .closed))
  else if lasts then
    ({ store with lasting := store.lasting.put name table, source := some name }, .ok ())
  else ({ store with session := store.session.put name table, source := some name }, .ok ())

/-- Answers a query; only answered queries are counted. -/
def execute (query : GroupingQuery) : Store × Outcome (List Row) :=
  match store.table.bind fun table => table.answer query with
  | .ok rows => ({ store with queryCount := store.queryCount + 1 }, .ok rows)
  | .error error => (store, .error error)

/-- Whether a filter makes a condition on the table; no filter makes none. -/
def buildFilter (filter : Option Filter) : Outcome Bool := do
  let table ← store.table
  return (← filter.mapM (Condition.build table.columns)).isSome

def reset : Store := { store with queryCount := 0 }

def close : Store := { store with connected := false }

def connection : String := if store.connected then "duckdb" else "disconnected"

end Store

/-- Rows in the order of the values of some fields; nulls come last. -/
def sortRows (fields : List String) (rows : List Row) : List Row :=
  let before (a b : Value) : Bool := !a.isNull && (b.isNull || a.less? b == some true)
  let rec atMost : List Value → List Value → Bool
    | a :: as, b :: bs => before a b || (!before b a && atMost as bs)
    | _, _ => true
  rows.mergeSort fun a b => atMost (a.project fields) (b.project fields)

/-- A computation that changes a state and may fail; a failure keeps the state reached. -/
abbrev Run (σ : Type) := ExceptT Error (StateM σ)

namespace Run

variable {σ α : Type}

def ofStep (step : σ → σ × Outcome α) : Run σ α := ExceptT.mk fun state =>
  let (state, outcome) := step state
  (outcome, state)

def ofOutcome (outcome : Outcome α) : Run σ α := ofStep fun state => (state, outcome)

def exec (run : Run σ α) (state : σ) : σ × Outcome α :=
  let (outcome, state) := ExceptT.run run state
  (state, outcome)

/-- The outcome as a value; a failure does not stop what follows. -/
def attempt (run : Run σ α) : Run σ (Outcome α) := ofStep fun state =>
  let (state, outcome) := run.exec state
  (state, .ok outcome)

end Run

/-- Rows in memory, with a record of the queries that were put to them. -/
structure MemorySource where
  rows : List Row
  schema : Schema
  /-- The call that fails, counted from zero, and how. -/
  fault : Option (Nat × Fault)
  calls : Nat := 0
  executed : List GroupingQuery := []
  deriving Repr

/-- Answers a query and records it. The call that is to fail fails, and is not recorded. -/
def MemorySource.execute (source : MemorySource) (query : GroupingQuery) :
    MemorySource × Outcome (List Row) :=
  let called := { source with calls := source.calls + 1 }
  let recorded :=
    ({ called with executed := source.executed ++ [query] }, Source.answer source.rows query)
  match source.fault with
  | some (call, fault) =>
    if call = source.calls then (called, .error (.reported fault)) else recorded
  | none => recorded

class Answerer (ε : Type) where
  execute : GroupingQuery → Run ε (List Row)
  schema : ε → Outcome Schema
  close : ε → ε := id

inductive Executor where
  | memory (source : MemorySource)
  | store (store : Store)
  deriving Repr

namespace Executor

def execute (query : GroupingQuery) : Run Executor (List Row) := Run.ofStep fun
  | memory source =>
    let (source, outcome) := source.execute query
    (memory source, outcome)
  | store s =>
    let (s, outcome) := s.execute query
    (store s, outcome)

def schema : Executor → Outcome Schema
  | memory source => .ok source.schema
  | store s => s.schema

def executed : Executor → List GroupingQuery
  | memory source => source.executed
  | store _ => []

def close : Executor → Executor
  | memory source => memory source
  | store s => store s.close

instance : Answerer Executor where
  execute := execute
  schema := schema
  close := close

end Executor

end Crosstab
