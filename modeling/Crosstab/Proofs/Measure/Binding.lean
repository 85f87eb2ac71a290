import Crosstab.Measure.Binding
import Crosstab.Proofs.Outcome
import Mathlib.Data.List.Nodup
import Mathlib.Data.List.Perm.Subperm

/-!
# Measures of bindings

Bindings only ever adjoin measures, so whatever one adjunction keeps is kept by all of them.
-/
namespace Crosstab.Measure

open List Outcome MeasureIdentity

variable {schema : Schema}

/-! ### Free names -/

private theorem numbered_injective (base : String) {m n : Nat}
    (same : base ++ "_" ++ toString (m + 2) = base ++ "_" ++ toString (n + 2)) : m = n := by
  rw [String.append_right_inj] at same
  have digits : Nat.toDigits 10 (m + 2) = Nat.toDigits 10 (n + 2) := by
    rw [← Nat.toList_repr, ← Nat.toList_repr]
    exact congrArg String.toList same
  -- The digits of a number read back as the number.
  have numbers := congrArg (fun digits => Nat.ofDigitChars 10 digits 0) digits
  rw [Nat.ofDigitChars_toDigits (by decide) (by decide),
    Nat.ofDigitChars_toDigits (by decide) (by decide)] at numbers
  omega

theorem freshName_not_mem (taken : List String) (base : String) : freshName taken base ∉ taken := by
  unfold freshName
  by_cases used : taken.contains base
  · rw [if_pos used]
    cases found : (((range (taken.length + 1)).map fun n =>
        base ++ "_" ++ toString (n + 2)).find? fun name => !taken.contains name) with
    | some name =>
      have free := find?_some found
      simp only [found, Option.getD_some]
      simpa using free
    | none =>
      -- There is one number more than there are names, so they cannot all be taken.
      rw [find?_eq_none] at found
      have inside : ((range (taken.length + 1)).map fun n =>
          base ++ "_" ++ toString (n + 2)) ⊆ taken := fun name member => by
        simpa using found name member
      have unique : ((range (taken.length + 1)).map fun n =>
          base ++ "_" ++ toString (n + 2)).Nodup :=
        nodup_range.map fun _ _ same => numbered_injective base same
      have counted := (subperm_of_subset unique inside).length_le
      rw [length_map, length_range] at counted
      omega
  · rw [if_neg used]
    simpa using used

/-! ### Adjunction -/

/-- One adjunction adds at most one measure, which has the identity asked for and a free name. -/
theorem adjoin_cases (measures : List Measure) (identity : MeasureIdentity) :
    (adjoin measures identity).1 = measures ∨
      ∃ name, name ∉ measures.map Measure.name ∧
        (adjoin measures identity).1 = measures ++ [identity.toMeasure name] := by
  unfold adjoin
  split
  · exact .inl rfl
  · exact .inr ⟨_, freshName_not_mem _ _, rfl⟩

variable {before after : List Measure}

theorem bindAggregations_cons_iff {binding : Binding} {across : Option Side} {aggregation : Aggregation}
    {rest : List Aggregation} {names : List String} :
    bindAggregations schema binding across before (aggregation :: rest) = .ok (after, names) ↔
      ∃ identity others, ofAggregation schema binding across aggregation = .ok identity ∧
        bindAggregations schema binding across (adjoin before identity).1 rest = .ok (after, others) ∧
        names = (adjoin before identity).2 :: others := by
  rw [bindAggregations, bind_eq_ok]
  constructor
  · rintro ⟨identity, checked, bound⟩
    obtain ⟨⟨_, others⟩, later, bound⟩ := bind_eq_ok.mp bound
    cases bound
    exact ⟨identity, others, checked, later, rfl⟩
  · rintro ⟨identity, others, checked, later, rfl⟩
    exact ⟨identity, checked, bind_eq_ok.mpr ⟨_, later, rfl⟩⟩

theorem bindAll_cons_iff {binding : Binding} {rest : List Binding} {bound : List (List String)} :
    bindAll schema before (binding :: rest) = .ok (after, bound) ↔
      ∃ across middle names others, ¬ binding.aggregations.isEmpty ∧
        Binding.readAcross binding.across = .ok across ∧
        bindAggregations schema binding across before binding.aggregations = .ok (middle, names) ∧
        bindAll schema middle rest = .ok (after, others) ∧ bound = names :: others := by
  constructor
  · intro returned
    obtain ⟨⟨middle, names⟩, one, returned⟩ := bind_eq_ok.mp returned
    obtain ⟨⟨_, others⟩, later, returned⟩ := bind_eq_ok.mp returned
    cases returned
    unfold bindOne at one
    split at one
    · cases one
    next some =>
      obtain ⟨across, read, one⟩ := bind_eq_ok.mp one
      exact ⟨across, middle, names, others, some, read, one, later, rfl⟩
  · rintro ⟨across, middle, names, others, some, read, one, later, rfl⟩
    refine bind_eq_ok.mpr ⟨(middle, names), ?_, bind_eq_ok.mpr ⟨_, later, rfl⟩⟩
    rw [bindOne, if_neg some]
    exact bind_eq_ok.mpr ⟨across, read, one⟩

variable {bindings : List Binding} {names : List (List String)} {measures : List Measure}

/-- What every adjunction keeps holds of the measures of all bindings. -/
theorem bindAll_induction {P : List Measure → Prop}
    (step : ∀ measures binding across aggregation identity,
      ofAggregation schema binding across aggregation = .ok identity →
      P measures → P (adjoin measures identity).1)
    (bound : bindAll schema before bindings = .ok (after, names)) (start : P before) : P after := by
  -- Two loops, one inside the other: first over the aggregations of one binding, then over the
  -- bindings.
  have aggregations (binding : Binding) (across : Option Side) (list : List Aggregation)
      (before after : List Measure) (names : List String)
      (bound : bindAggregations schema binding across before list = .ok (after, names))
      (start : P before) : P after := by
    induction list generalizing before names with
    | nil =>
      cases bound
      exact start
    | cons aggregation rest ih =>
      obtain ⟨identity, others, checked, later, rfl⟩ := bindAggregations_cons_iff.mp bound
      exact ih _ _ later (step _ _ _ _ _ checked start)
  induction bindings generalizing before names with
  | nil =>
    cases bound
    exact start
  | cons binding rest ih =>
    obtain ⟨across, middle, own, others, _, _, one, later, rfl⟩ := bindAll_cons_iff.mp bound
    exact ih later (aggregations binding across _ _ _ _ one start)

private theorem isValid_of_ofAggregation {binding : Binding} {across : Option Side}
    {aggregation : Aggregation} {identity : MeasureIdentity}
    (checked : ofAggregation schema binding across aggregation = .ok identity) :
    Aggregate.isValid identity.method := by
  obtain ⟨method, _, checked⟩ := bind_eq_ok.mp checked
  obtain ⟨field, aggregate, checked⟩ := bind_eq_ok.mp checked
  obtain ⟨format, _, checked⟩ := bind_eq_ok.mp checked
  obtain ⟨label, _, checked⟩ := bind_eq_ok.mp checked
  cases checked
  unfold Binding.checkAggregate at aggregate
  split at aggregate
  · cases aggregate
  next valid => simpa using valid

theorem nodup_names_of_bindAll (bound : bindAll schema [] bindings = .ok (measures, names)) :
    (measures.map Measure.name).Nodup := by
  refine bindAll_induction (P := fun measures => (measures.map Measure.name).Nodup) ?_ bound
    nodup_nil
  intro measures _ _ _ identity _ unique
  rcases adjoin_cases measures identity with same | ⟨name, free, longer⟩
  · rw [same]
    exact unique
  · rw [longer, map_append, map_singleton, ← concat_eq_append]
    exact unique.concat free

/-- What holds of every measure that an aggregation makes holds of all measures of the bindings. -/
theorem forall_of_bindAll {Q : Measure → Prop}
    (made : ∀ binding across aggregation identity name,
      ofAggregation schema binding across aggregation = .ok identity →
        Q (identity.toMeasure name)) (bound : bindAll schema [] bindings = .ok (measures, names)) :
    ∀ measure ∈ measures, Q measure := by
  refine bindAll_induction (P := fun measures => ∀ measure ∈ measures, Q measure) ?_ bound (by simp)
  intro measures _ _ _ identity checked each measure member
  rcases adjoin_cases measures identity with same | ⟨name, _, longer⟩
  · exact each measure (same ▸ member)
  · rw [longer, mem_append, mem_singleton] at member
    rcases member with old | rfl
    · exact each measure old
    · exact made _ _ _ identity name checked

theorem isValid_of_bindAll (bound : bindAll schema [] bindings = .ok (measures, names)) :
    ∀ measure ∈ measures, Aggregate.isValid measure.aggregate :=
  forall_of_bindAll (Q := fun measure => Aggregate.isValid measure.aggregate = true)
    (fun _ _ _ _ _ checked => isValid_of_ofAggregation checked) bound

end Crosstab.Measure
