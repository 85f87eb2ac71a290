import Crosstab.Value
import Mathlib.Data.List.Nodup
import Mathlib.Data.List.Zip

/-!
# Rows

How the fields of a row read after some of them are set, and how a row that pairs fields with values
reads back.
-/
namespace Crosstab.Row

open List

theorem get_cons (name : String) (value : Value) (row : Row) (field : String) :
    Row.get ((name, value) :: row) field = if field = name then value else row.get field := by
  unfold get
  rw [lookup_cons]
  by_cases same : field = name
  · simp [same]
  · simp [same, beq_eq_false_iff_ne.mpr same]

variable {row : Row} {field : String}

theorem get_append_of_mem (known : field ∈ row.map Prod.fst) (more : Row) :
    Row.get (row ++ more) field = row.get field := by
  induction row with
  | nil => cases known
  | cons entry row ih =>
    rw [cons_append, get_cons, get_cons]
    split
    · rfl
    next other =>
      rw [map_cons, mem_cons] at known
      exact ih (known.resolve_left other)

theorem get_append_of_not_mem (new : field ∉ row.map Prod.fst) (more : Row) :
    Row.get (row ++ more) field = Row.get more field := by
  induction row with
  | nil => rfl
  | cons entry row ih =>
    rw [map_cons, mem_cons, not_or] at new
    rw [cons_append, get_cons, if_neg new.1, ih new.2]

theorem get_of_not_mem (new : field ∉ row.map Prod.fst) : row.get field = .null := by
  have empty := get_append_of_not_mem new []
  rw [append_nil] at empty
  exact empty

theorem any_eq_true_iff : (row.any (·.1 == field)) = true ↔ field ∈ row.map Prod.fst := by
  simp [any_eq_true, mem_map]

theorem set_of_not_mem (new : field ∉ row.map Prod.fst) (value : Value) :
    row.set field value = row ++ [(field, value)] := by
  rw [set, if_neg]
  rwa [any_eq_true_iff]

theorem map_fst_set_of_mem (known : field ∈ row.map Prod.fst) (value : Value) :
    (row.set field value).map Prod.fst = row.map Prod.fst := by
  rw [set, if_pos (any_eq_true_iff.mpr known), map_map]
  apply map_congr_left
  intro entry _
  rw [Function.comp_apply]
  split
  next same => exact (beq_iff_eq.mp same).symm
  · rfl

theorem mem_keys_set {other : String} {value : Value} :
    other ∈ (row.set field value).map Prod.fst ↔ other ∈ row.map Prod.fst ∨ other = field := by
  by_cases known : field ∈ row.map Prod.fst
  · rw [map_fst_set_of_mem known]
    constructor
    · exact .inl
    · rintro (there | rfl)
      · exact there
      · exact known
  · rw [set_of_not_mem known, map_append, mem_append, map_singleton, mem_singleton]

theorem nodup_keys_set (unique : (row.map Prod.fst).Nodup) (field : String) (value : Value) :
    ((row.set field value).map Prod.fst).Nodup := by
  by_cases known : field ∈ row.map Prod.fst
  · rw [map_fst_set_of_mem known]
    exact unique
  · rw [set_of_not_mem known, map_append, map_singleton, ← concat_eq_append]
    exact unique.concat known

private theorem get_map_set (row : Row) (field : String) (value : Value) (other : String) :
    Row.get (row.map fun entry => if entry.1 == field then (field, value) else entry) other =
      if other = field ∧ field ∈ row.map Prod.fst then value else row.get other := by
  induction row with
  | nil => simp
  | cons entry row ih =>
    obtain ⟨name, old⟩ := entry
    by_cases same : name = field
    · subst same
      simp only [beq_self_eq_true, ↓reduceIte, get_cons, ih, map_cons, mem_cons, true_or, and_true]
      by_cases asked : other = name
      · simp [asked]
      · simp [asked]
    · simp only [beq_eq_false_iff_ne.mpr same, Bool.false_eq_true, ↓reduceIte, get_cons, ih,
        map_cons, mem_cons, Ne.symm same, false_or]
      by_cases asked : other = name
      · simp [asked, same]
      · simp [asked]

theorem get_set (row : Row) (field : String) (value : Value) (other : String) :
    (row.set field value).get other = if other = field then value else row.get other := by
  by_cases known : field ∈ row.map Prod.fst
  · rw [set, if_pos (any_eq_true_iff.mpr known), get_map_set]
    simp only [known, and_true]
  · rw [set_of_not_mem known]
    by_cases asked : other = field
    · subst asked
      rw [get_append_of_not_mem known, get_cons]
      simp
    · rw [if_neg asked]
      by_cases there : other ∈ row.map Prod.fst
      · exact get_append_of_mem there _
      -- Neither row has the field, so both read null.
      · rw [get_append_of_not_mem there, get_cons, if_neg asked]
        rw [get_of_not_mem there]
        rfl

/-- Setting all fields of one row in another: the fields of the first come before those of the
second. -/
theorem get_foldl_set {entries : Row} (unique : (entries.map Prod.fst).Nodup) (row : Row)
    (field : String) :
    (entries.foldl (fun row entry => row.set entry.1 entry.2) row).get field =
      if field ∈ entries.map Prod.fst then entries.get field else row.get field := by
  induction entries generalizing row with
  | nil => simp
  | cons entry entries ih =>
    obtain ⟨name, value⟩ := entry
    rw [map_cons, nodup_cons] at unique
    rw [foldl_cons, ih unique.2, map_cons, get_set, get_cons]
    by_cases own : field = name
    · subst own
      simp [unique.1]
    · simp only [mem_cons, own, false_or, ↓reduceIte]

theorem project_zip {fields : List String} (unique : fields.Nodup) {values : List Value}
    (lengths : fields.length = values.length) : Row.project (fields.zip values) fields = values := by
  induction fields generalizing values with
  | nil =>
    rw [length_nil, eq_comm, length_eq_zero_iff] at lengths
    rw [lengths]
    rfl
  | cons field fields ih =>
    obtain _ | ⟨value, values⟩ := values
    · cases lengths
    rw [nodup_cons] at unique
    -- The first entry hides none of the others, since its field does not come again.
    have rest : fields.map (Row.get ((field, value) :: fields.zip values)) =
        Row.project (fields.zip values) fields := by
      apply map_congr_left
      intro other member
      rw [get_cons, if_neg fun equal : other = field => unique.1 (equal ▸ member)]
    rw [zip_cons_cons, project, map_cons, rest, ih unique.2 (Nat.succ.inj lengths),
      get_cons, if_pos rfl]

end Crosstab.Row
