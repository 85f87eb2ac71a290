import Crosstab.Proofs.Outcome
import Crosstab.Settings
import Mathlib.Data.List.Induction

/-!
# Settings that a holder hands out

A load keeps the settings that it read before it checks them, so the settings in use are those that
were read last, checked or not.
-/
namespace Crosstab

open List Settings

/-- The settings that a load reads: those of the environment, or the defaults. -/
def Settings.read (environment : Environment) : Value → Outcome Settings
  | .text "env" => ofEnvironment environment
  | _ => .ok {}

theorem Settings.validate_defaults : ({} : Settings).validate = .ok () :=
  Outcome.eq_ok_of_toOption (by decide +kernel)

namespace SettingsHolder

/-- What is asked of a holder, and the environment at that time. -/
inductive Call where
  | load (environment : Environment) (source : Value)
  | get (environment : Environment)

def Call.read? : Call → Option Settings
  | load environment source => (Settings.read environment source).toOption
  | get _ => none

def answer (holder : SettingsHolder) : Call → SettingsHolder × Outcome Settings
  | .load environment source => holder.load environment source
  | .get environment => holder.get environment

/-- A new holder after some calls, the failures of which were caught. -/
def after (calls : List Call) : SettingsHolder :=
  calls.foldl (fun holder call => (holder.answer call).1) {}

/-- The settings that were read last, whether or not they passed the check. -/
def lastRead (calls : List Call) : Option Settings := calls.reverse.findSome? Call.read?

variable (holder : SettingsHolder) {environment : Environment} {source : Value} {settings : Settings}

def inUse (holder : SettingsHolder) : Settings := holder.current.getD {}

theorem load_eq : holder.load environment source =
    match Settings.read environment source with
    | .error error => (holder, .error error)
    | .ok settings => (⟨some settings⟩, match settings.validate with
      | .ok _ => .ok settings
      | .error error => .error error) := rfl

theorem load_of_read (found : Settings.read environment source = .ok settings) :
    holder.load environment source = (⟨some settings⟩, settings.validate >>= fun _ => .ok settings) := by
  rw [load_eq, found]
  refine congrArg (Prod.mk _) ?_
  cases settings.validate <;> rfl

theorem load_of_unread {error : Error} (failed : Settings.read environment source = .error error) :
    holder.load environment source = (holder, .error error) := by
  rw [load_eq, failed]

/-- Settings are given out without a check, and the defaults pass it. -/
theorem get_spec (environment : Environment) :
    (holder.get environment).2 = .ok holder.inUse ∧ (holder.get environment).1.inUse = holder.inUse := by
  unfold get inUse
  split
  next settings current => simp [current]
  next current =>
    have defaults : Settings.read environment .null = .ok {} := rfl
    rw [load_of_read _ defaults, validate_defaults, current]
    exact ⟨rfl, rfl⟩

/-- A call changes the settings in use to those that it reads. -/
theorem inUse_answer (call : Call) :
    (holder.answer call).1.inUse = call.read?.getD holder.inUse := by
  cases call with
  | get environment => exact (holder.get_spec environment).2
  | load environment source =>
    rw [answer, Call.read?]
    cases found : Settings.read environment source with
    | error error => rw [load_of_unread _ found]; rfl
    | ok settings => rw [load_of_read _ found]; rfl

private theorem inUse_after (calls : List Call) : (after calls).inUse = (lastRead calls).getD {} := by
  -- The last call comes last in the run and first in the search.
  induction calls using reverseRecOn with
  | nil => rfl
  | append_singleton calls call ih =>
    have last : after (calls ++ [call]) = ((after calls).answer call).1 := by
      rw [after, foldl_append]
      rfl
    rw [last, inUse_answer, ih, lastRead, lastRead, reverse_append, reverse_singleton,
      singleton_append, findSome?_cons]
    cases call.read? <;> rfl

/-- After any calls, a load returns the settings that it read if these pass the check, and fails
otherwise. The settings that are given out pass the check if and only if those read last do. A load,
whether or not it fails, leaves what is given out afterwards as it was if and only if it read no other
settings. -/
theorem settings_in_use_are_valid_iff (calls : List Call) (environment : Environment) :
    (∀ source settings, ((after calls).load environment source).2 = .ok settings ↔
      Settings.read environment source = .ok settings ∧ settings.validate = .ok ()) ∧
    (∃ settings, ((after calls).get environment).2 = .ok settings ∧
      (settings.validate = .ok () ↔ ∀ last, lastRead calls = some last → last.validate = .ok ())) ∧
    ∀ source later,
      (((after calls).load environment source).1.get later).2 = ((after calls).get later).2 ↔
        ∀ settings, Settings.read environment source = .ok settings →
          settings = (lastRead calls).getD {} := by
  refine ⟨?_, ?_, ?_⟩
  · intro source settings
    cases found : Settings.read environment source with
    | error error => simp [load_of_unread _ found]
    | ok other =>
      rw [load_of_read _ found]
      cases checked : other.validate with
      | error error =>
        constructor
        · rintro ⟨⟩
        · rintro ⟨⟨⟩, valid⟩
          cases checked.symm.trans valid
      | ok _ =>
        constructor
        · rintro ⟨⟩
          exact ⟨rfl, checked⟩
        · rintro ⟨⟨⟩, _⟩
          rfl
  · refine ⟨_, (get_spec _ environment).1, ?_⟩
    rw [inUse_after]
    cases lastRead calls with
    | none => simp [Settings.validate_defaults]
    | some last => simp
  · intro source later
    have changed := (after calls).inUse_answer (.load environment source)
    rw [answer, Call.read?] at changed
    rw [(get_spec _ later).1, (get_spec _ later).1, Except.ok.injEq, changed, inUse_after]
    cases Settings.read environment source with
    | error error => simp [Except.toOption]
    | ok settings => simp [Except.toOption]

/-- With no queries allowed at a time, a load fails and its settings are in use nevertheless. -/
theorem refused_settings_are_in_use :
    let none : Call := .load [("TPL_MAX_CONCURRENT_QUERIES", "0")] "env"
    let passes (holder : SettingsHolder) : Option Bool :=
      (holder.get []).2.toOption.map fun settings => settings.validate.toOption.isSome
    (({} : SettingsHolder).answer none).2.toOption.isSome = false ∧
      passes {} = some true ∧ passes (after [none]) = some false := by
  decide +kernel

end SettingsHolder

end Crosstab
