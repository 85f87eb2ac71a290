import Crosstab.Grid.Assembly
import Crosstab.Proofs.Number.Nearest
import Crosstab.Proofs.Source.Grouping
import Crosstab.Store.Table
import Mathlib.Data.List.Find

/-!
# One row for each group

A table groups decimals as they are, but returns them as doubles, and what is no number as null. So its
rows can be told apart unless two groups differ alone in that, or in decimals with one nearest double.
-/
namespace Crosstab

open List StoredValue Double Outcome

/-! ### Values that a database groups by -/

namespace Value

/-- The normal form of a value in a grouping: what is no number is all one. -/
def groupForm (v : Value) : Option Key := if v.isNan then some (.nan .nan) else v.key?

variable {v w : Value}

theorem groupForm_null : null.groupForm = some .null := rfl

/-- Where no integer meets a double, a database groups by normal forms. -/
theorem sameStored_iff (ofV : v.meeting w = v) (ofW : w.meeting v = w) (usable : w.hashable) :
    v.sameStored w ↔ v.groupForm = w.groupForm := by
  rw [sameStored, ofV, ofW, groupForm, groupForm]
  cases nan : v.isNan with
  | true =>
    cases other : w.isNan with
    | true => simp
    | false => simp [same_of_isNan nan, (key?_ne_nan other _).symm]
  | false =>
    rw [Bool.false_and, Bool.false_or, same_iff_key?_eq nan usable]
    cases other : w.isNan with
    | true =>
      have foreign : v.key? ≠ w.key? := by
        cases w with
        | real x =>
          rw [key?_eq_nan_iff.mpr ⟨other, rfl⟩]
          exact key?_ne_nan nan x
        | _ => cases other
      simp [foreign, key?_ne_nan nan]
    | false => simp

end Value

/-! ### Decimals -/

private theorem Double.isNan_nearest (negative : Bool) (num den : Nat) :
    (nearest negative num den).isNan = false := by
  have each (code : Nat) : (ofCode negative code).isNan = false := by
    simp only [isNan, ofCode, Fin.ofNat, fractionCount, infinityCode, Bool.and_eq_false_iff,
      beq_eq_false_iff_ne, bne_eq_false_iff_eq]
    omega
  unfold nearest
  split <;> exact each _

namespace StoredValue

/-- The normal form of a value in a grouping, where decimals count as they are. -/
def groupForm : StoredValue → Option Value.Key
  | plain value => value.groupForm
  | decimal count places => some (.number (.finite (count / 10 ^ places)))

end StoredValue

namespace ColumnType

/-- What may stand in a column: null, or a value of its type. -/
def holds (type : ColumnType) (stored : StoredValue) : Bool :=
  match type, stored with
  | _, .plain .null => true
  | int64, .plain (.int _) => true
  | int32, .plain (.int _) => true
  | float64, .plain (.real _) => true
  | string, .plain (.text _) => true
  | bool, .plain (.bool _) => true
  | date, .plain (.date _) => true
  | decimal digits places, .decimal count own => decide (count.natAbs < 10 ^ digits ∧ own = places)
  | _, _ => false

end ColumnType

namespace StoredValue

variable {type : ColumnType} {a b : StoredValue} {v : Value} {m n : Int} {p q : Nat}

theorem eq_null_of_holds (decimal : type.holds (decimal m p)) (held : type.holds (plain v)) :
    v = .null := by
  cases type <;> cases v <;> simp_all [ColumnType.holds]

theorem hashable_of_holds (held : type.holds a) : a.value.hashable := by
  cases a with
  | decimal count places => rfl
  | plain v => cases v <;> cases type <;> first | rfl | cases held

@[simp] theorem isNan_value_decimal (count : Int) (places : Nat) :
    (decimal count places).value.isNan = false := isNan_nearest ..

theorem same_iff (ofA : type.holds a) (ofB : type.holds b) :
    a.same b ↔ a.groupForm = b.groupForm := by
  cases a with
  | plain v =>
    cases b with
    | plain w =>
      have apart : v.meeting w = v ∧ w.meeting v = w := by
        cases type <;> cases v <;> cases w <;> simp_all [ColumnType.holds, Value.meeting]
      exact Value.sameStored_iff apart.1 apart.2 (hashable_of_holds ofB)
    | decimal n q =>
      obtain rfl := eq_null_of_holds ofB ofA
      exact iff_of_false nofun (by simp [groupForm, Value.groupForm_null])
  | decimal m p =>
    cases b with
    | plain w =>
      obtain rfl := eq_null_of_holds ofA ofB
      refine iff_of_false ?_ (by simp [groupForm, Value.groupForm_null])
      show ¬ (_ && _ || _) = true
      rw [isNan_value_decimal]
      exact nofun
    | decimal n q =>
      have scale (k : Nat) : (10 : ℚ) ^ k ≠ 0 := by positivity
      simp only [same, groupForm, decide_eq_true_eq, Option.some.injEq, Value.Key.number.injEq,
        Quantity.finite.injEq, div_eq_div_iff (scale p) (scale q)]
      norm_cast

private theorem hashable_returned (held : type.holds a) : a.returned.hashable := by
  unfold returned
  split
  · rfl
  · exact hashable_of_holds held

end StoredValue

/-! ### Rows of an answer -/

namespace StoredTable

/-- Every value is of the type of its column. -/
def isTyped (table : StoredTable) : Bool :=
  table.rows.all fun row => (table.columns.zip row).all fun entry => entry.1.2.holds entry.2

def valueAt (row : StoredRow) (field : String) : StoredValue :=
  (row.lookup field).getD (.plain .null)

def selected (table : StoredTable) (query : GroupingQuery) : Outcome (List StoredRow) := do
  let (condition, _) ← table.prepare query
  let condition ← condition.mapM (Condition.convert table.columns (table.rows.map table.readable))
  return table.kept condition

variable {table : StoredTable} {query : GroupingQuery} {fields : List String} {rows : List Row}
  {kept : List StoredRow}

private theorem answer_eq_ok (answered : table.answer query = .ok rows) :
    ∃ kept, table.selected query = .ok kept ∧
      Forall₂ (fun group row => ∃ more, row = query.fields.zip (group.1.map returned) ++ more)
        (groups query.fields kept) rows := by
  obtain ⟨⟨condition, columns⟩, prepared, answered⟩ := bind_eq_ok.mp answered
  obtain ⟨converted, conversion, answered⟩ := bind_eq_ok.mp answered
  refine ⟨table.kept converted, ?_, (mapM_eq_ok.mp answered).imp ?_⟩
  · simp [selected, prepared, conversion]
  · intro group row told
    obtain ⟨values, _, told⟩ := bind_eq_ok.mp told
    exact ⟨values, (pure_eq_ok.mp told).symm⟩

private theorem holds_null (type : ColumnType) : type.holds (.plain .null) := by cases type <;> rfl

private theorem holds_lookup {columns : List (String × ColumnType)} {row : List StoredValue}
    (typed : ((columns.zip row).all fun entry => entry.1.2.holds entry.2) = true) (field : String) :
    ((columns.lookup field).getD .string).holds (valueAt ((columns.map (·.1)).zip row) field) = true := by
  induction columns generalizing row with
  | nil => exact holds_null _
  | cons column columns ih =>
    obtain ⟨name, type⟩ := column
    cases row with
    | nil => exact holds_null _
    | cons value row =>
      simp only [zip_cons_cons, all_cons, Bool.and_eq_true] at typed
      simp only [map_cons, zip_cons_cons, valueAt, lookup_cons]
      split
      · exact typed.1
      · exact ih typed.2

private theorem sameKeys_iff {a b : StoredRow} :
    sameKeys (fields.map (valueAt a)) (fields.map (valueAt b)) ↔
      ∀ field ∈ fields, (valueAt a field).same (valueAt b field) := by
  induction fields with
  | nil => simp [sameKeys]
  | cons field fields ih => simp [sameKeys, ih]

section

variable (typed : table.isTyped) (selects : table.selected query = .ok kept)
include typed selects

/-- What rows have in a column is of its type; without a column all have null. -/
theorem holds_valueAt {row : StoredRow} (member : row ∈ kept) (field : String) :
    ((table.columns.lookup field).getD .string).holds (valueAt row field) := by
  obtain ⟨⟨condition, columns⟩, _, selects⟩ := bind_eq_ok.mp selects
  obtain ⟨converted, _, selects⟩ := bind_eq_ok.mp selects
  cases selects
  obtain ⟨stored, there, rfl⟩ := mem_map.mp member
  exact holds_lookup (all_eq_true.mp typed stored (mem_filter.mp there).1) field

theorem gathers_groups (some : fields ≠ []) :
    Groups.Gathers (map groupForm) (kept.map fun row => (fields.map (valueAt row), row))
      (groups fields kept) := by
  rw [groups, if_neg (by simpa using some)]
  refine Groups.gathers_ofList ?_
  simp only [map_map, mem_map, Function.comp_apply, forall_exists_index, and_imp]
  rintro _ a first rfl _ b second rfl
  rw [map_map, map_map, map_inj_left]
  refine sameKeys_iff.trans (forall₂_congr fun field _ => ?_)
  exact same_iff (holds_valueAt typed selects first field)
    (holds_valueAt typed selects second field)

private theorem exists_row_of_mem_groups {group : List StoredValue × List StoredRow}
    (member : group ∈ groups fields kept) :
    ∃ value, group.1 = fields.map value ∧ ∀ field ∈ fields, (value field).returned.hashable := by
  by_cases total : fields = []
  · subst total
    obtain rfl := mem_singleton.mp member
    exact ⟨valueAt [], rfl, by simp⟩
  · have key := (gathers_groups typed selects total).keys group member
    simp only [map_map, mem_map, Function.comp_apply] at key
    obtain ⟨row, there, key⟩ := key
    exact ⟨valueAt row, key.symm, fun field _ =>
      hashable_returned (holds_valueAt typed selects there field)⟩

end

/-- Two amounts that differ in the last of sixteen digits make two groups, with one nearest double. -/
example :
    let table : StoredTable :=
      ⟨[("pay", .decimal 38 0)], [[.decimal 9007199254740992 0], [.decimal 9007199254740993 0]]⟩
    let query : GroupingQuery :=
      { fields := ["pay"], aggregates := [⟨none, "count"⟩], filter := none, purpose := .main }
    table.isTyped = true ∧ ((table.answer query).toOption.map fun rows =>
      rows.map fun row => ((row.get "pay").plain, (row.get "count").whole?)) =
        some [("9007199254740992.0", some 1), ("9007199254740992.0", some 1)] := by
  decide +kernel

end StoredTable

end Crosstab
