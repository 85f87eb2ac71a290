import Crosstab.Value
import Mathlib.Data.List.Induction
import Mathlib.Data.List.Nodup

/-!
# Keys of values

Values are the same key exactly when they have one normal form: numbers their exact quantity,
doubles that are no numbers their bits.
-/
namespace Crosstab

open List

namespace Value

inductive Key where
  | null
  | text (s : String)
  | date (d : Date)
  | number (q : Quantity)
  /-- A double that is no number is a key of its own. -/
  | nan (x : Double)
  deriving DecidableEq

/-- The normal form of a value; lists and records have none. -/
def key? : Value → Option Key
  | null => some .null
  | bool b => some (.number (.finite (if b then 1 else 0)))
  | int n => some (.number (.finite n))
  | real x => some (if x.isNan then .nan x else .number (.ofDouble x))
  | text s => some (.text s)
  | date d => some (.date d)
  | list _ => none
  | record _ => none

variable {v a b : Value} {p : Quantity} {as bs values : List Value}

theorem isNull_iff : v.isNull ↔ v = .null := by
  cases v <;> simp [isNull]

theorem isSome_key? (v : Value) : v.key?.isSome = v.hashable := by
  cases v <;> rfl

private theorem ofDouble_eq_nan_iff (x : Double) : Quantity.ofDouble x = .nan ↔ x.isNan := by
  unfold Quantity.ofDouble
  split
  next none => simp [none]
  next number =>
    split <;> simpa using number

theorem same_of_isNan (nan : a.isNan) : a.same b = false := by
  cases a with
  | real x =>
    have quantity := (ofDouble_eq_nan_iff x).mpr nan
    cases b <;> simp [same, sameAtom, quantity?, quantity, Quantity.same]
  | _ => cases nan

theorem key?_eq_nan_iff {x : Double} : v.key? = some (.nan x) ↔ x.isNan ∧ v = real x := by
  cases v with
  | real y =>
    simp only [key?, Option.some.injEq, real.injEq]
    split
    next nan =>
      constructor
      · rintro ⟨⟩
        exact ⟨nan, rfl⟩
      · rintro ⟨_, rfl⟩
        rfl
    next number =>
      refine iff_of_false (by simp) ?_
      rintro ⟨nan, rfl⟩
      exact number nan
  | _ => simp [key?]

theorem key?_ne_nan (number : v.isNan = false) (x : Double) : v.key? ≠ some (.nan x) := by
  rw [Ne, key?_eq_nan_iff]
  rintro ⟨nan, rfl⟩
  cases number.symm.trans nan

private theorem same_quantity_iff (number : p ≠ .nan) (q : Quantity) : p.same q ↔ p = q := by
  cases p with
  | nan => exact absurd rfl number
  | infinite negative => cases q <;> simp [Quantity.same]
  | finite value => cases q <;> simp [Quantity.same]

private theorem key?_eq_number_iff (number : p ≠ .nan) (v : Value) :
    v.key? = some (.number p) ↔ v.quantity? = some p := by
  cases v with
  | real x =>
    by_cases none : x.isNan
    · have quantity := (ofDouble_eq_nan_iff x).mpr none
      simp [key?, quantity?, none, quantity, number.symm]
    · simp [key?, quantity?, none]
  | _ => simp [key?, quantity?]

private theorem sameKey_number_iff (number : p ≠ .nan) (quantity : a.quantity? = some p) :
    a.sameKey b ↔ b.quantity? = some p := by
  -- Keys differ from values only in what is no number, which `a` is not.
  have atoms : a.sameKey b = a.sameAtom b := by
    cases a with
    | real x =>
      cases b with
      | real y =>
        have finite : x.isNan = false := by
          rw [← Bool.not_eq_true, ← ofDouble_eq_nan_iff]
          rwa [← Option.some.inj quantity] at number
        simp [sameKey, finite, same]
      | _ => simp [sameKey, same]
    | bool _ => cases b <;> simp [sameKey, same]
    | int _ => cases b <;> simp [sameKey, same]
    | _ => cases quantity
  have compared : a.sameAtom b = match b.quantity? with
      | some q => p.same q
      | none => false := by
    cases a with
    | bool _ => cases b <;> simp_all [sameAtom, quantity?]
    | int _ => cases b <;> simp_all [sameAtom, quantity?]
    | real _ => cases b <;> simp_all [sameAtom, quantity?]
    | _ => cases quantity
  rw [atoms, compared]
  cases b.quantity? with
  | none => simp
  | some q => rw [same_quantity_iff number, Option.some.injEq, eq_comm]

theorem sameKey_iff (usable : a.hashable) : a.sameKey b ↔ a.key? = b.key? := by
  have numeric {p : Quantity} (number : p ≠ .nan) (quantity : a.quantity? = some p) :
      a.sameKey b ↔ a.key? = b.key? := by
    rw [sameKey_number_iff number quantity, ← key?_eq_number_iff number b,
      (key?_eq_number_iff number a).mpr quantity, eq_comm]
  cases a with
  | list _ => cases usable
  | record _ => cases usable
  | bool p => exact numeric (by simp) rfl
  | int n => exact numeric (by simp) rfl
  | real x =>
    by_cases none : x.isNan
    · -- A double that is no number has no equal among numbers, and only itself among its like.
      cases b with
      | real y =>
        by_cases other : y.isNan
        · simp [sameKey, key?, none, other]
        · have apart : x ≠ y := fun equal => other (equal ▸ none)
          simp [sameKey, key?, none, other, apart]
      | _ =>
        simp [sameKey, same, sameAtom, quantity?, key?, none, Quantity.same,
          (ofDouble_eq_nan_iff x).mpr none]
    · exact numeric (fun equal => none ((ofDouble_eq_nan_iff x).mp equal)) rfl
  | _ =>
    cases b with
    | real y =>
      by_cases none : y.isNan
      · simp [sameKey, same, sameAtom, quantity?, key?, none]
      · simp [sameKey, same, sameAtom, quantity?, key?, none]
    | _ => simp [sameKey, same, sameAtom, quantity?, key?]

theorem sameKeys_iff (usable : as.all hashable) : sameKeys as bs ↔ as.map key? = bs.map key? := by
  induction as generalizing bs with
  | nil => cases bs <;> simp [sameKeys]
  | cons a as ih =>
    cases bs with
    | nil => simp [sameKeys]
    | cons b bs =>
      rw [all_cons, Bool.and_eq_true] at usable
      rw [sameKeys, Bool.and_eq_true, sameKey_iff usable.1, ih usable.2, map_cons,
        map_cons, cons.injEq]

/-- Values with one normal form can both serve as keys, or neither can. -/
theorem sameKeys_take {front rest others : List Value} (same : sameKeys (front ++ rest) others) :
    sameKeys front (others.take front.length) := by
  induction front generalizing others with
  | nil => rfl
  | cons v front ih =>
    cases others with
    | nil => cases same
    | cons w others =>
      rw [cons_append, sameKeys, Bool.and_eq_true] at same
      rw [length_cons, take_succ_cons, sameKeys, Bool.and_eq_true]
      exact ⟨same.1, ih same.2⟩

theorem hashable_eq_of_key?_eq (same : a.key? = b.key?) : a.hashable = b.hashable := by
  rw [← isSome_key?, ← isSome_key?, same]

theorem all_hashable_eq_of_keys_eq (same : as.map key? = bs.map key?) :
    as.all hashable = bs.all hashable := by
  have counted (values : List Value) :
      values.all hashable = (values.map key?).all Option.isSome := by
    rw [all_map]
    congr 1
    funext v
    exact (isSome_key? v).symm
  rw [counted, counted, same]

/-- What is the same key as a value that can serve as one can do so too. -/
theorem hashable_of_sameKey (same : a.sameKey b) (usable : b.hashable) : a.hashable := by
  cases a with
  | list items => cases b <;> simp_all [sameKey, Value.same, sameAtom, quantity?, hashable]
  | record fields => cases b <;> simp_all [sameKey, Value.same, sameAtom, quantity?, hashable]
  | _ => rfl

theorem all_hashable_of_sameKeys (same : sameKeys as bs) (usable : bs.all hashable) :
    as.all hashable := by
  induction as generalizing bs with
  | nil => rfl
  | cons a as ih =>
    cases bs with
    | nil => cases same
    | cons b bs =>
      rw [sameKeys, Bool.and_eq_true] at same
      rw [all_cons, Bool.and_eq_true] at usable ⊢
      exact ⟨hashable_of_sameKey same.1 usable.1, ih same.2 usable.2⟩

/-- Equality with a value that can serve as a key is equality of normal forms, but for what is no
number. -/
theorem same_iff_key?_eq (number : a.isNan = false) (usable : b.hashable) :
    a.same b ↔ a.key? = b.key? := by
  have asKeys : a.sameKey b = a.same b := by
    cases a with
    | real x =>
      cases b with
      | real y =>
        have finite : x.isNan = false := number
        simp [sameKey, finite]
      | _ => simp [sameKey]
    | _ => cases b <;> simp [sameKey]
  rw [← asKeys]
  -- Where `a` cannot serve as a key, both sides fail.
  by_cases own : a.hashable
  · exact sameKey_iff own
  · constructor
    · intro same
      exact absurd (hashable_of_sameKey same usable) own
    · intro same
      exact absurd ((hashable_eq_of_key?_eq same).trans usable) own

theorem eq_of_same_text (textual : (a.isText || a.isNull)) (same : a.same b) : a = b := by
  cases a with
  | null => cases b <;> simp_all [Value.same, sameAtom, quantity?]
  | text s => cases b <;> simp_all [Value.same, sameAtom, quantity?]
  | _ => cases textual

/-- Of equal keys the first one stays, so a last value stays only if it is new. -/
theorem distinct_concat (values : List Value) (last : Value) :
    distinct (values ++ [last]) = if (distinct values).any (sameKey · last) then distinct values
      else distinct values ++ [last] := by
  rw [distinct, foldl_append]
  rfl

theorem exists_mem_distinct (member : v ∈ values) (usable : v.hashable) :
    ∃ kept ∈ distinct values, kept.sameKey v := by
  induction values using reverseRecOn with
  | nil => cases member
  | append_singleton values last ih =>
    rw [distinct_concat]
    rw [mem_append, mem_singleton] at member
    rcases member with earlier | rfl
    · obtain ⟨kept, there, same⟩ := ih earlier
      split
      · exact ⟨kept, there, same⟩
      · exact ⟨kept, mem_append_left _ there, same⟩
    · split
      next known =>
        obtain ⟨kept, there, same⟩ := any_eq_true.mp known
        exact ⟨kept, there, same⟩
      · exact ⟨v, by simp, (sameKey_iff usable).mpr rfl⟩

theorem mem_of_mem_distinct (member : v ∈ distinct values) : v ∈ values := by
  induction values using reverseRecOn with
  | nil => cases member
  | append_singleton values last ih =>
    rw [distinct_concat] at member
    rw [mem_append]
    split at member
    · exact .inl (ih member)
    · exact (mem_append.mp member).imp_left ih

theorem nodup_keys_distinct (usable : ∀ v ∈ values, v.hashable) :
    ((distinct values).map key?).Nodup := by
  induction values using reverseRecOn with
  | nil => exact nodup_nil
  | append_singleton values last ih =>
    have earlier := ih fun v member => usable v (mem_append_left _ member)
    rw [distinct_concat]
    split
    · exact earlier
    next new =>
      rw [map_append, map_singleton, ← concat_eq_append]
      refine earlier.concat ?_
      intro known
      obtain ⟨kept, there, same⟩ := mem_map.mp known
      have hashable := usable kept (mem_append_left _ (mem_of_mem_distinct there))
      exact new (any_eq_true.mpr ⟨kept, there, (sameKey_iff hashable).mpr same⟩)

end Value

end Crosstab
