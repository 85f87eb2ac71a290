import Crosstab.Proofs.Filter.Keys
import Crosstab.Proofs.Query.Merging
import Crosstab.Proofs.Value.Key

/-!
# Keys of memberships

Memberships of one field have one key exactly if their members have the same literals. Doubles that
are no numbers are written alike, but in memory they differ.
-/
namespace Crosstab

open List Value

namespace Value

variable {v w value : Value}

/-! ### Values that are written alike -/

/-- The values are the same, or neither is a number. -/
def WrittenAlike (v w : Value) : Prop := v = w ∨ v.isNan = true ∧ w.isNan = true

theorem isNan_or_hasNan_eq_false (usable : v.hashable) : v.isNan ∨ v.hasNan = false := by
  cases v with
  | real x =>
    rw [isNan, hasNan]
    cases x.isNan <;> simp
  | list items => cases usable
  | record fields => cases usable
  | _ => exact .inr rfl

private theorem writtenAlike_of_literal_eq (ofV : v.hashable) (ofW : w.hashable)
    (same : v.literal = w.literal) : v.WrittenAlike w := by
  have spelled : v.spelling ++ [] = w.spelling ++ [] := by rw [spelling, spelling, same]
  exact (literal_unique (isNan_or_hasNan_eq_false ofV) (isNan_or_hasNan_eq_false ofW) (by simp)
    (by simp) spelled).1

private theorem WrittenAlike.isNull_eq (alike : v.WrittenAlike w) : v.isNull = w.isNull := by
  have present {v : Value} (nan : v.isNan) : v.isNull = false := by
    cases v <;> first | rfl | cases nan
  rcases alike with rfl | ⟨nan, other⟩
  · rfl
  · rw [present nan, present other]

/-- In a database what is no number equals all that is none. -/
theorem WrittenAlike.sameStored_eq (alike : v.WrittenAlike w) (value : Value) :
    v.sameStored value = w.sameStored value := by
  have stored {v : Value} (nan : v.isNan) : v.sameStored value = value.isNan := by
    have meeting : v.meeting value = v := by
      cases v <;> first | rfl | cases nan
    rw [sameStored, meeting, same_of_isNan nan, nan, Bool.true_and, Bool.or_false]
  rcases alike with rfl | ⟨nan, other⟩
  · rfl
  · rw [stored nan, stored other]

private theorem WrittenAlike.sameKey_eq (alike : v.WrittenAlike w) (number : value.isNan = false) :
    v.sameKey value = w.sameKey value := by
  have foreign {v : Value} (nan : v.isNan) : v.sameKey value = false := by
    cases v with
    | real x =>
      rw [← Bool.not_eq_true, sameKey_iff rfl, key?_eq_nan_iff.mpr ⟨nan, rfl⟩]
      exact (key?_ne_nan number x).symm
    | _ => cases nan
  rcases alike with rfl | ⟨nan, other⟩
  · rfl
  · rw [foreign nan, foreign other]

end Value

namespace Filter

variable {field : String} {values others : List Value}

/-! ### Members with the same literals -/

/-- Members are arranged by their literals, which say where they end whatever they contain. -/
theorem memberKey_eq_iff (atoms : ∀ v ∈ values ++ others, v.hashable) :
    memberKey field values = memberKey field others ↔
      (values.map literal).Perm (others.map literal) := by
  constructor
  · intro same
    rw [← String.toList_inj, toList_memberKey, toList_memberKey, append_cancel_left_eq,
      append_cancel_left_eq] at same
    obtain ⟨literals, _⟩ := members_unique
      (fun v member => isNan_or_hasNan_eq_false (atoms v (mem_append_left _ member)))
      (fun v member => isNan_or_hasNan_eq_false (atoms v (mem_append_right _ member))) same
    have sorted (values : List Value) : (sortedLiterals values).Perm (values.map literal) :=
      Sorting.perm_arrange _ _
    exact (sorted values).symm.trans (literals ▸ sorted others)
  · intro arranged
    rw [memberKey, memberKey, arrange_texts_eq_of_perm arranged]

private theorem exists_writtenAlike (atoms : ∀ v ∈ values ++ others, v.hashable)
    (arranged : (values.map literal).Perm (others.map literal)) :
    (∀ v ∈ values, ∃ w ∈ others, v.WrittenAlike w) ∧ ∀ w ∈ others, ∃ v ∈ values, v.WrittenAlike w := by
  constructor
  · intro v member
    obtain ⟨w, there, same⟩ := mem_map.mp (arranged.mem_iff.mp (mem_map_of_mem member))
    exact ⟨w, there, writtenAlike_of_literal_eq (atoms v (mem_append_left _ member))
      (atoms w (mem_append_right _ there)) same.symm⟩
  · intro w member
    obtain ⟨v, there, same⟩ := mem_map.mp (arranged.mem_iff.mpr (mem_map_of_mem member))
    exact ⟨v, there, writtenAlike_of_literal_eq (atoms v (mem_append_left _ there))
      (atoms w (mem_append_right _ member)) same⟩

/-- In memory a double that is no number is found only where it is a member itself. -/
theorem any_sameKey_nan (atoms : ∀ v ∈ values, v.hashable) {x : Double}
    (nan : x.isNan) : (values.any fun v => v.sameKey (.real x)) = true ↔ .real x ∈ values := by
  rw [any_eq_true]
  constructor
  · rintro ⟨v, member, same⟩
    rw [sameKey_iff (atoms v member), key?_eq_nan_iff.mpr ⟨nan, rfl⟩, key?_eq_nan_iff] at same
    exact same.2 ▸ member
  · intro member
    exact ⟨.real x, member, (sameKey_iff rfl).mpr rfl⟩

/-- Memberships of one field have the same key if and only if their members have the same literals.
Then they select the same rows in a database, and in memory those rows that have no double in the field
that is not a number. In memory they select the same rows altogether if and only if they have the same
such doubles as members. -/
theorem keys_tell_members (field : String) (values others : List Value)
    (atoms : ∀ v ∈ values ++ others, v.hashable = true) :
    ((member field values).key = (member field others).key ↔
      (values.map Value.literal).Perm (others.map Value.literal)) ∧
    ((member field values).key = (member field others).key →
      (∀ row, truth row (member field values) = truth row (member field others)) ∧
      (∀ row : Row, (row.get field).isNan = false →
        holds row (member field values) = holds row (member field others)) ∧
      ((∀ row, holds row (member field values) = holds row (member field others)) ↔
        ∀ x : Double, x.isNan = true → (.real x ∈ values ↔ .real x ∈ others))) := by
  rw [key, key, memberKey_eq_iff atoms]
  refine ⟨Iff.rfl, fun arranged => ?_⟩
  -- The members are paired off, each with one that is written alike.
  obtain ⟨forth, back⟩ := exists_writtenAlike atoms arranged
  have plain (row : Row) (number : (row.get field).isNan = false) :
      holds row (member field values) = holds row (member field others) := by
    refine congrArg Except.ok (any_eq_of_matched (fun v listed => ?_) fun w listed => ?_)
    · exact (forth v listed).imp fun w both => ⟨both.1, both.2.sameKey_eq number⟩
    · exact (back w listed).imp fun v both => ⟨both.1, both.2.sameKey_eq number⟩
  have found {x : Double} (nan : x.isNan = true) (row : Row) (here : row.get field = .real x) :
      holds row (member field values) = holds row (member field others) ↔
        (.real x ∈ values ↔ .real x ∈ others) := by
    rw [holds, holds, here, Except.ok.injEq, Bool.eq_iff_iff,
      any_sameKey_nan (fun v listed => atoms v (mem_append_left _ listed)) nan,
      any_sameKey_nan (fun v listed => atoms v (mem_append_right _ listed)) nan]
  refine ⟨fun row => ?_, plain, fun same x nan => ?_, fun same row => ?_⟩
  · refine memberTruth_congr (fun v listed => ?_) fun w listed => ?_
    · exact (forth v listed).imp fun w both => ⟨both.1, both.2.isNull_eq, both.2.sameStored_eq _⟩
    · exact (back w listed).imp fun v both => ⟨both.1, both.2.isNull_eq, both.2.sameStored_eq _⟩
  -- The row with that double tells whether it is a member.
  · exact (found nan [(field, .real x)] (by simp [Row.get])).mp (same _)
  · cases nan : (row.get field).isNan with
    | false => exact plain row nan
    | true =>
      cases here : row.get field with
      | real x =>
        rw [here] at nan
        exact (found nan row here).mpr (same x nan)
      | _ => rw [here] at nan; cases nan

/-- Quotes, commas, a parenthesis, a line break and a backslash within the members, a text that is
written like a number, and a double that is none. A comma between quotes does not part a member. -/
theorem adversarial_members_told :
    let values : List Value := ["a','b", "a\",'b')", .real .nan, "nan\n\\", 1]
    let others : List Value := [1, "nan\n\\", "a\",'b')", .real .nan, "a','b"]
    let parted : List Value :=
      ["a", "b", "a\",'b')", .real .nan, "nan\n\\", "1"]
    (∀ v ∈ values ++ others ++ parted, v.hashable = true) ∧
      (member "x" values).key = (member "x" others).key ∧
      (∀ row, holds row (member "x" values) = holds row (member "x" others)) ∧
      (member "x" values).key ≠ (member "x" parted).key := by
  intro values others parted
  have atoms : ∀ v ∈ values ++ others ++ parted, v.hashable = true := by decide
  have told := keys_tell_members "x" values others (by decide)
  have foreign := keys_tell_members "x" values parted (by decide)
  have same : (member "x" values).key = (member "x" others).key := told.1.mpr (by decide +kernel)
  refine ⟨atoms, same, (told.2 same).2.2.mpr ?_, ?_⟩
  · simp [values, others]
  · exact fun equal => absurd (foreign.1.mp equal) (by decide +kernel)

/-- Two doubles that are no numbers have the same literal, but in memory each is only equal to itself. -/
theorem missing_number_told_by_itself :
    let other : Double := { Double.nan with negative := !Double.nan.negative }
    let row : Row := [("x", .real .nan)]
    other.isNan = true ∧ (member "x" [.real .nan]).key = (member "x" [.real other]).key ∧
      holds row (member "x" [.real .nan]) = .ok true ∧ holds row (member "x" [.real other]) = .ok false :=
  ⟨by decide, by decide +kernel, rfl, rfl⟩

end Filter

end Crosstab
