import Crosstab.Error

/-!
# Settings

What a user can set: limits of execution and texts of the display. A holder keeps the settings in
use.
-/
namespace Crosstab

structure Settings where
  backendUri : Value := .text ":memory:"
  maxConcurrentQueries : Value := .int 10
  /-- Seconds for each query. -/
  queryTimeout : Value := .real (Double.nearest false 300 1)
  includeNulls : Value := .bool false
  nullLabel : Value := .text "(null)"
  totalLabel : Value := .text "Total"
  percentDecimals : Value := .int 1
  logLevel : Value := .text "INFO"
  deriving Repr

abbrev Environment := List (String × String)

namespace Settings

def setField (settings : Settings) (name : String) (value : Value) : Outcome Settings :=
  match name with
  | "backend_uri" => .ok { settings with backendUri := value }
  | "max_concurrent_queries" => .ok { settings with maxConcurrentQueries := value }
  | "query_timeout" => .ok { settings with queryTimeout := value }
  | "include_nulls" => .ok { settings with includeNulls := value }
  | "null_label" => .ok { settings with nullLabel := value }
  | "total_label" => .ok { settings with totalLabel := value }
  | "percent_decimals" => .ok { settings with percentDecimals := value }
  | "log_level" => .ok { settings with logLevel := value }
  | _ => Outcome.wrongType

def ofFields (fields : List (String × Value)) : Outcome Settings :=
  fields.foldlM (fun settings field => settings.setField field.1 field.2) {}

def fields (settings : Settings) : List (String × Value) :=
  [("backend_uri", settings.backendUri),
   ("max_concurrent_queries", settings.maxConcurrentQueries),
   ("query_timeout", settings.queryTimeout),
   ("include_nulls", settings.includeNulls),
   ("null_label", settings.nullLabel),
   ("total_label", settings.totalLabel),
   ("percent_decimals", settings.percentDecimals),
   ("log_level", settings.logLevel)]

def trueWords : List String := ["1", "true", "yes", "on"]

def readTimeout (text : String) : Outcome Value :=
  match Number.readDouble? text with
  | some x => .ok (.real x)
  | none => .error (.invalid (.notANumber text))

def ofEnvironment (environment : Environment) : Outcome Settings := do
  let initial : Settings := {}
  let text (name : String) (initial : Value) : Value := (environment.lookup name).elim initial .text
  let number (name : String) (initial : Value) : Outcome Value := do
    return .int (← (text name initial).asInt)
  return {
    backendUri := text "TPL_BACKEND_URI" initial.backendUri
    maxConcurrentQueries := ← number "TPL_MAX_CONCURRENT_QUERIES" initial.maxConcurrentQueries
    queryTimeout := ← (match environment.lookup "TPL_QUERY_TIMEOUT" with
      | some seconds => readTimeout seconds
      | none => .ok initial.queryTimeout)
    includeNulls :=
      match environment.lookup "TPL_INCLUDE_NULLS" with
      | some word => .bool (trueWords.contains (Text.lower (Text.strip word)))
      | none => initial.includeNulls
    nullLabel := text "TPL_NULL_LABEL" initial.nullLabel
    totalLabel := text "TPL_TOTAL_LABEL" initial.totalLabel
    percentDecimals := ← number "TPL_PERCENT_DECIMALS" initial.percentDecimals
    logLevel := .text (Text.upper (text "TPL_LOG_LEVEL" initial.logLevel).plain) }

inductive TimeLimit where
  | unlimited
  /-- The time is over before the query starts. -/
  | expired
  | running
  /-- A limit that is no number, with what is said about it. -/
  | malformed (problem : String)
  deriving DecidableEq, Repr

def timeLimit (settings : Settings) : TimeLimit :=
  match settings.queryTimeout with
  | .null => .unlimited
  | seconds =>
    match seconds.atMost? (.int 0) with
    | some true => .expired
    | some false => .running
    | none =>
      .malformed ("'<=' not supported between instances of '" ++ seconds.typeName ++ "' and 'int'")

/-- How many queries may run at the same time; what is no whole number does not limit them. -/
def places (settings : Settings) : Option Nat :=
  match settings.maxConcurrentQueries with
  | .real x => if x.isWhole then some x.truncate.toNat else none
  | other => other.whole?.map Int.toNat

def logLevels : List (String × Int) :=
  [("CRITICAL", 50), ("FATAL", 50), ("ERROR", 40), ("WARN", 30), ("WARNING", 30), ("INFO", 20),
   ("DEBUG", 10), ("NOTSET", 0)]

def namedLevel? : Value → Option Int
  | .text name => logLevels.lookup name
  | _ => none

/-- The level that logging is set to: a number as it is, or the number of a name. Without a level,
warnings and worse are logged. -/
def logLevelNumber (settings : Settings) : Outcome Value :=
  match settings.logLevel with
  | .null => .ok (.int 30)
  | .bool b => .ok (.bool b)
  | .int n => .ok (.int n)
  | .text name =>
    match logLevels.lookup name with
    | some n => .ok (.int n)
    | none => .error (.invalid (.unknownLevel settings.logLevel))
  | _ => Outcome.wrongType

/-- A comparison with zero, which only numbers admit. -/
def compareZero (test : Value → Value → Option Bool) (value : Value) : Outcome Bool :=
  match test value (.int 0) with
  | some answer => .ok answer
  | none => Outcome.wrongType

/-- All that is wrong with the settings, in the order of the fields. -/
def problems (settings : Settings) : Outcome (List String) := do
  let concurrency ← compareZero Value.atMost? settings.maxConcurrentQueries
  let timeout ← compareZero Value.atMost? settings.queryTimeout
  let decimals ← compareZero Value.less? settings.percentDecimals
  let level ← settings.logLevel.asKey
  return (if concurrency then ["max_concurrent_queries must be positive"] else []) ++
    (if timeout then ["query_timeout must be positive"] else []) ++
    (if decimals then ["percent_decimals must not be negative"] else []) ++
    (if (namedLevel? level).isNone then
      ["log_level '" ++ level.plain ++ "' is not a logging level"] else [])

def validate (settings : Settings) : Outcome Unit := do
  let problems ← settings.problems
  if problems.isEmpty then return () else .error (.invalid (.settings problems))

end Settings

structure SettingsHolder where
  current : Option Settings := none
  deriving Repr

namespace SettingsHolder

/-- Loads settings from the environment or the defaults. They are in use from then on, even if the
check finds a problem with them. -/
def load (holder : SettingsHolder) (environment : Environment) (source : Value) :
    SettingsHolder × Outcome Settings :=
  let loaded :=
    match source with
    | .text "env" => Settings.ofEnvironment environment
    | _ => .ok {}
  match loaded with
  | .error error => (holder, .error error)
  | .ok settings =>
    (⟨some settings⟩, match settings.validate with
      | .ok _ => .ok settings
      | .error error => .error error)

/-- The settings in use; the defaults are loaded if there are none. -/
def get (holder : SettingsHolder) (environment : Environment) : SettingsHolder × Outcome Settings :=
  match holder.current with
  | some settings => (holder, .ok settings)
  | none => holder.load environment .null

end SettingsHolder

end Crosstab
