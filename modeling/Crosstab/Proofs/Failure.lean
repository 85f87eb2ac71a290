import Crosstab.Display
import Crosstab.Proofs.Outcome
import Crosstab.Ranking
import Crosstab.Value.Arithmetic

/-!
# Failures on values

Some computations can only fail on a value that does not admit what is asked of it: comparing,
dividing and showing values, and what is made of these.
-/
namespace Crosstab

/-! ### Kinds of failures -/

namespace Outcome

variable {α β : Type} {kind : Error → Bool}

/-- Fails with errors of one kind only. -/
def FailsOnly (kind : Error → Bool) (x : Outcome α) : Prop :=
  ∀ error, x = .error error → kind error = true

namespace FailsOnly

theorem ok (a : α) : FailsOnly kind (.ok a : Outcome α) := nofun

theorem error {e : Error} (ofKind : kind e) : FailsOnly kind (.error e : Outcome α) := by
  intro error failed
  cases failed
  exact ofKind

variable {x : Outcome α} {f : α → Outcome β} {xs : List α}

theorem bind (first : x.FailsOnly kind) (next : ∀ a, x = .ok a → (f a).FailsOnly kind) :
    (x >>= f).FailsOnly kind := by
  intro e failed
  rcases bind_eq_error.mp failed with early | ⟨a, returned, late⟩
  · exact first e early
  · exact next a returned e late

theorem bind_pure {f : α → β} (first : x.FailsOnly kind) :
    (x >>= fun a => pure (f a)).FailsOnly kind := first.bind fun a _ => .ok (f a)

theorem mapM (each : ∀ x ∈ xs, (f x).FailsOnly kind) : (xs.mapM f).FailsOnly kind := by
  induction xs with
  | nil => exact .ok []
  | cons x xs ih =>
    rw [List.mapM_cons]
    refine (each x List.mem_cons_self).bind fun y _ => ?_
    exact (ih fun other member => each other (List.mem_cons_of_mem x member)).bind_pure

private theorem foldlM {f : β → α → Outcome β} {start : β}
    (each : ∀ x ∈ xs, ∀ b, (f b x).FailsOnly kind) : (xs.foldlM f start).FailsOnly kind := by
  induction xs generalizing start with
  | nil => exact .ok start
  | cons x xs ih =>
    refine (each x List.mem_cons_self start).bind fun next _ => ?_
    exact ih fun other member => each other (List.mem_cons_of_mem x member)

theorem forM {f : α → Outcome PUnit} (each : ∀ x ∈ xs, (f x).FailsOnly kind) :
    (xs.forM f).FailsOnly kind := by
  induction xs with
  | nil => exact .ok _
  | cons x xs ih =>
    refine (each x List.mem_cons_self).bind fun _ _ => ?_
    exact ih fun other member => each other (List.mem_cons_of_mem x member)

end FailsOnly

end Outcome

/-- The error is about a value, and not about a statement, a plan or something that was looked up and
not found. -/
def Error.isOfValue : Error → Bool
  | invalid _ => true
  | misuse _ => true
  | _ => false

namespace Outcome

variable {α β : Type}

def FailsOnValues (x : Outcome α) : Prop := ∀ error, x = .error error → error.isOfValue = true

namespace FailsOnValues

theorem ok (a : α) : FailsOnValues (.ok a : Outcome α) := FailsOnly.ok a

theorem error {e : Error} (ofValue : e.isOfValue) :
    FailsOnValues (.error e : Outcome α) := FailsOnly.error ofValue

theorem wrongType : FailsOnValues (Outcome.wrongType : Outcome α) := .error rfl

variable {x : Outcome α} {f : α → Outcome β} {xs : List α}

theorem bind (first : x.FailsOnValues) (next : ∀ a, x = .ok a → (f a).FailsOnValues) :
    (x >>= f).FailsOnValues :=
  FailsOnly.bind first next

theorem bind_pure {f : α → β} (first : x.FailsOnValues) :
    (x >>= fun a => pure (f a)).FailsOnValues := FailsOnly.bind_pure first

theorem mapM (each : ∀ x ∈ xs, (f x).FailsOnValues) :
    (xs.mapM f).FailsOnValues := FailsOnly.mapM each

theorem foldlM {f : β → α → Outcome β} {start : β} (each : ∀ x ∈ xs, ∀ b, (f b x).FailsOnValues) :
    (xs.foldlM f start).FailsOnValues :=
  FailsOnly.foldlM each

end FailsOnValues

end Outcome

open Outcome (FailsOnValues)

/-! ### Numbers -/

theorem Value.asDouble_failsOnValues (value : Value) : value.asDouble.FailsOnValues := by
  unfold asDouble
  split
  · exact .ok _
  · split
    · exact .ok _
    · exact .error rfl
  · exact .ok _
  · exact .wrongType

private theorem Value.asText_failsOnValues (value : Value) : value.asText.FailsOnValues := by
  unfold asText
  split
  · exact .ok _
  · exact .error rfl

theorem Value.divide_failsOnValues (a b : Value) : (a.divide b).FailsOnValues := by
  unfold divide
  split
  · unfold intQuotient
    simp only
    split
    · exact .ok _
    · exact .error rfl
  · exact a.asDouble_failsOnValues.bind fun _ _ => b.asDouble_failsOnValues.bind_pure

theorem rank_failsOnValues (candidates : List Candidate) (ranking : Ranking) :
    (rank candidates ranking).FailsOnValues := by
  unfold rank
  split
  · exact .ok _
  · exact .wrongType

/-! ### Layouts -/

namespace Layout

theorem readCount_failsOnValues (text : List Char) : (readCount text).FailsOnValues := by
  unfold readCount
  simp only
  split
  · exact .error rfl
  · exact .ok _

private theorem readSeparator_failsOnValues (text : List Char) : (readSeparator text).FailsOnValues := by
  unfold readSeparator
  simp only
  split
  · exact .error rfl
  · exact .ok _

theorem readPlaces_failsOnValues (setting type : String) (text : List Char) :
    (readPlaces setting type text).FailsOnValues := by
  refine (readCount_failsOnValues text).bind fun read _ => ?_
  split
  · exact .error rfl
  · exact .ok _
  · exact .error rfl

private theorem readField_failsOnValues (setting type : String) (alignment : Alignment)
    (text : List Char) : (readField setting type alignment text).FailsOnValues := by
  unfold readField
  simp only
  refine (readCount_failsOnValues _).bind fun width _ => ?_
  refine (readSeparator_failsOnValues _).bind fun separator _ => ?_
  split
  · exact .ok _
  · exact (readPlaces_failsOnValues setting type _).bind_pure
  · exact .error rfl

private theorem ofSetting_failsOnValues (setting type : String) :
    (ofSetting setting type).FailsOnValues := by
  unfold ofSetting
  split
  · exact .error rfl
  · split
    · exact readField_failsOnValues setting type _ _
    · exact (readPlaces_failsOnValues setting type _).bind_pure

end Layout

/-! ### Display -/

namespace Display

private theorem ofFormat_failsOnValues (format : Value) : (ofFormat format).FailsOnValues := by
  unfold ofFormat
  split
  · refine format.asText_failsOnValues.bind fun name _ => ?_
    unfold ofName
    -- Keywords are known; only a number of places can be too long.
    repeat' split
    all_goals first | exact .ok _ | exact .error rfl
  · exact .ok _

theorem fixedText_failsOnValues (count : Nat) (value : Value) :
    (fixedText count value).FailsOnValues := by
  unfold fixedText
  split
  · exact .ok _
  · exact .error rfl
  · split
    · exact .error rfl
    · refine value.asDouble_failsOnValues.bind fun x _ => ?_
      split
      · exact .error rfl
      · exact .ok _

private theorem currencyText_failsOnValues (value : Value) : (currencyText value).FailsOnValues := by
  have magnitude_fails : (magnitude value).FailsOnValues := by
    cases value with
    | bool b => exact .ok _
    | int n => exact .ok _
    | real x => exact .ok _
    | _ => exact .wrongType
  unfold currencyText
  split
  · exact .wrongType
  · exact magnitude_fails.bind fun amount _ => (fixedText_failsOnValues 2 amount).bind_pure

private theorem percentText_failsOnValues (decimals value : Value) :
    (percentText decimals value).FailsOnValues := by
  have hundredfold_fails : (hundredfold value).FailsOnValues := by
    cases value with
    | bool b => exact .ok _
    | int n => exact .ok _
    | real x => exact .ok _
    | text s => exact .ok _
    | _ => exact .wrongType
  refine hundredfold_fails.bind fun entry _ => ?_
  refine (Layout.ofSetting_failsOnValues _ _).bind fun layout _ => ?_
  split
  · exact .error rfl
  · refine (Value.asDouble_failsOnValues _).bind fun x _ => ?_
    split
    · exact .error rfl
    · exact .ok _

private theorem generalText_failsOnValues (value : Value) : (generalText value).FailsOnValues := by
  unfold generalText
  split
  · exact .ok _
  · exact .ok _
  · split
    · exact .ok _
    · exact .ok _
  · exact (fixedText_failsOnValues 2 value).bind_pure

private theorem render_failsOnValues (display : Display) (decimals value : Value) :
    (display.render decimals value).FailsOnValues := by
  cases display with
  | currency => exact currencyText_failsOnValues value
  | percent => exact percentText_failsOnValues decimals value
  | integer => exact fixedText_failsOnValues 0 value
  | places count => exact fixedText_failsOnValues count value
  | general => exact generalText_failsOnValues value

end Display

theorem formatValue_failsOnValues (value format decimals : Value) :
    (formatValue value format decimals).FailsOnValues := by
  unfold formatValue
  split
  · exact .ok _
  · exact (Display.ofFormat_failsOnValues format).bind fun display _ =>
      display.render_failsOnValues decimals value

end Crosstab
