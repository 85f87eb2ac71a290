import Crosstab.Proofs.Filter.Conjunction
import Crosstab.Proofs.Sorting
import Crosstab.Proofs.Value.Literal

/-!
# Keys of narrowed filters

Names are written as they are, so a key is only taken apart where no name contains its opening;
literals are quoted and end by themselves.
-/
namespace Crosstab.Filter

open List Value

/-! ### Filters that select the same rows -/

/-- Filters that answer alike on every row, in two truth values and in three. -/
def SameRows (a b : Option Filter) : Prop :=
  ∀ row, passes a row = passes b row ∧ a.map (truth row) = b.map (truth row)

theorem SameRows.refl (a : Option Filter) : SameRows a a := fun _ => ⟨rfl, rfl⟩

variable {a first : Filter} {row : Row} {operands : List Filter} {values : List Value}
  {rest rest' : List Char}

theorem SameRows.truth_eq {b : Filter} (same : SameRows (some a) (some b)) (row : Row) :
    truth row a = truth row b := Option.some.inj (same row).2

section

variable (same : Forall₂ (fun a b => SameRows (some a) (some b)) operands others)
include same

private theorem eachHolds_congr : eachHolds row operands = eachHolds row others := by
  induction same with
  | nil => rfl
  | cons head _ ih =>
    have first := (head row).1
    simp only [passes] at first
    simp only [eachHolds, first, ih]

private theorem allTruth_congr (sofar : Option Bool) :
    allTruth row sofar operands = allTruth row sofar others := by
  induction same generalizing sofar with
  | nil => rfl
  | cons head _ ih => simp only [allTruth, head.truth_eq row, ih]

private theorem SameRows.conjunction : SameRows (conjoin none operands) (conjoin none others) := by
  cases same with
  | nil => exact .refl none
  | cons head tail =>
    cases tail with
    | nil => exact head
    | cons next rest =>
      intro row
      have all := SameRows.truth_eq head row
      constructor
      · simp only [conjoin, Option.toList_none, nil_append, passes, holds,
          eachHolds_congr (.cons head (.cons next rest))]
      · simp only [conjoin, Option.toList_none, nil_append, Option.map_some, truth, all,
          allTruth_congr (.cons next rest)]

end

private theorem SameRows.conjoin (front : List Filter)
    (same : Forall₂ (fun a b => SameRows (some a) (some b)) operands others) :
    SameRows (conjoin none (front ++ operands)) (Filter.conjoin none (front ++ others)) :=
  .conjunction (rel_append (forall₂_same.mpr fun a _ => .refl (some a)) same)

/-! ### Memberships -/

theorem any_eq_of_matched {others : List Value} {p : Value → Bool}
    (forth : ∀ v ∈ values, ∃ w ∈ others, p v = p w) (back : ∀ w ∈ others, ∃ v ∈ values, p v = p w) :
    values.any p = others.any p := by
  rw [Bool.eq_iff_iff, any_eq_true, any_eq_true]
  constructor
  · rintro ⟨v, member, holds⟩
    obtain ⟨w, there, same⟩ := forth v member
    exact ⟨w, there, same ▸ holds⟩
  · rintro ⟨w, member, holds⟩
    obtain ⟨v, there, same⟩ := back w member
    exact ⟨v, there, same.symm ▸ holds⟩

/-- Membership depends only on which members are null and which are equal to the value. -/
theorem memberTruth_congr {others : List Value} {value : Value}
    (forth : ∀ v ∈ values, ∃ w ∈ others, v.isNull = w.isNull ∧ v.sameStored value = w.sameStored value)
    (back : ∀ w ∈ others, ∃ v ∈ values, v.isNull = w.isNull ∧ v.sameStored value = w.sameStored value) :
    memberTruth values value = memberTruth others value := by
  have same (p : Bool → Bool → Bool) : (values.any fun v => p v.isNull (v.sameStored value)) =
      others.any fun v => p v.isNull (v.sameStored value) := by
    refine any_eq_of_matched (fun v member => ?_) fun w member => ?_
    · obtain ⟨w, there, null, equal⟩ := forth v member
      exact ⟨w, there, by rw [null, equal]⟩
    · obtain ⟨v, there, null, equal⟩ := back w member
      exact ⟨v, there, by rw [null, equal]⟩
  have nothing : (values.filter fun v => !v.isNull).isEmpty =
      (others.filter fun v => !v.isNull).isEmpty := by
    rw [Bool.eq_iff_iff]
    simpa using congrArg (fun b => b = false) (same fun null _ => !null)
  have found : ((values.filter fun v => !v.isNull).any fun v => v.sameStored value) =
      (others.filter fun v => !v.isNull).any fun v => v.sameStored value := by
    simpa [any_filter] using same fun null equal => !null && equal
  have full : (values.filter fun v => !v.isNull).length = values.length ↔
      (others.filter fun v => !v.isNull).length = others.length := by
    simpa [length_filter_eq_length_iff] using congrArg (fun b => b = false) (same fun null _ => null)
  simp only [memberTruth, nothing, found, full]

/-- Which rows a membership selects depends only on which members there are. -/
theorem sameRows_member {others : List Value} (field : String) (same : ∀ v, v ∈ values ↔ v ∈ others) :
    SameRows (some (member field values)) (some (member field others)) := by
  intro row
  constructor
  · refine congrArg Except.ok ?_
    rw [Bool.eq_iff_iff]
    simp [same]
  · refine congrArg some (memberTruth_congr (fun v member => ?_) fun v member => ?_)
    · exact ⟨v, (same v).mp member, rfl, rfl⟩
    · exact ⟨v, (same v).mpr member, rfl, rfl⟩

/-- What stands between the name of a field and its members. -/
def opening : List Char := " in (".toList

def sortedLiterals (values : List Value) : List String :=
  Sorting.arrange textOrder (values.map literal)

theorem toList_memberKey (field : String) (values : List Value) :
    (memberKey field values).toList = field.toList ++
      (opening ++ ([','].intercalate ((sortedLiterals values).map String.toList) ++ [')'])) := by
  simp only [memberKey, sortedLiterals, opening, String.toList_append, String.toList_intercalate,
    append_assoc]
  rfl

/-- The opening does not overlap itself, so behind texts that do not contain it it stands in one
place. -/
theorem opening_unique {front front' : List Char} (clear : ¬ opening <:+: front)
    (clear' : ¬ opening <:+: front')
    (same : front ++ (opening ++ rest) = front' ++ (opening ++ rest')) :
    front = front' ∧ rest = rest' := by
  -- Where one text has ended, the other would have to begin with the opening.
  have refused {first : Char} {front rest rest' : List Char} (clear : ¬ opening <:+: first :: front) :
      opening ++ rest ≠ first :: front ++ (opening ++ rest') := by
    intro same
    have begins : opening <+: first :: front ++ (opening ++ rest') := ⟨rest, same⟩
    match front with
    | [] | [_] | [_, _] | [_, _, _] => simp [opening] at same
    | a :: b :: c :: d :: front =>
      have within := prefix_of_prefix_length_le begins (prefix_append _ _)
        (by simp [opening])
      exact clear within.isInfix
  induction front generalizing front' with
  | nil =>
    cases front' with
    | nil => exact ⟨rfl, append_cancel_left same⟩
    | cons first front' => exact absurd same (refused clear')
  | cons first front ih =>
    cases front' with
    | nil => exact absurd same.symm (refused clear)
    | cons other front' =>
      injection same with heads tails
      obtain ⟨rfl, behind⟩ := ih (fun inside => clear (infix_cons inside))
        (fun inside => clear' (infix_cons inside)) tails
      exact ⟨by rw [heads], behind⟩

theorem exists_of_mem_sortedLiterals {text : String} (listed : text ∈ sortedLiterals values) :
    ∃ v ∈ values, v.literal = text := by
  rw [sortedLiterals, Sorting.mem_arrange] at listed
  exact mem_map.mp listed

theorem members_unique {others : List Value} (numbers : ∀ v ∈ values, v.isNan ∨ v.hasNan = false)
    (numbers' : ∀ v ∈ others, v.isNan ∨ v.hasNan = false)
    (same : [','].intercalate ((sortedLiterals values).map String.toList) ++ ')' :: rest =
      [','].intercalate ((sortedLiterals others).map String.toList) ++ ')' :: rest') :
    sortedLiterals values = sortedLiterals others ∧ rest = rest' := by
  have separates : ',' ∈ closers := by decide
  refine intercalate_unique separates (by decide) (by decide) ?_ ?_ same
  · intro text listed text' listed'
    obtain ⟨v, member, rfl⟩ := exists_of_mem_sortedLiterals listed
    obtain ⟨w, member', rfl⟩ := exists_of_mem_sortedLiterals listed'
    exact literal_delimited (numbers v member) (numbers' w member')
  · intro text listed
    obtain ⟨v, rfl⟩ : ∃ v : Value, v.literal = text := by
      rcases mem_append.mp listed with listed | listed
      · exact (exists_of_mem_sortedLiterals listed).imp fun _ both => both.2
      · exact (exists_of_mem_sortedLiterals listed).imp fun _ both => both.2
    exact opened_spelling (by decide) v

private theorem mem_of_sortedLiterals_eq {others : List Value} (numbers : ∀ v ∈ values, v.hasNan = false)
    (numbers' : ∀ v ∈ others, v.hasNan = false)
    (same : sortedLiterals values = sortedLiterals others) {v : Value} (member : v ∈ values) :
    v ∈ others := by
  have listed : v.literal ∈ sortedLiterals others := by
    rw [← same, sortedLiterals, Sorting.mem_arrange]
    exact mem_map_of_mem member
  obtain ⟨w, there, literal⟩ := exists_of_mem_sortedLiterals listed
  obtain ⟨rfl, _⟩ := spelling_delimited (numbers' w there) (numbers v member) [] []
    (by simp) (by simp) (by simp [spelling, literal])
  exact there

/-! ### Readable conditions -/

/-- Memberships that are told by their keys. -/
inductive Readable : Filter → Prop
  | member {field : String} {values : List Value} (named : ¬ opening <:+: field.toList)
    (numbers : ∀ v ∈ values, v.hasNan = false) : Readable (.member field values)

namespace Readable

variable {a b : Filter}

theorem delimited (ofA : Readable a) (ofB : Readable b) :
    SelfDelimiting closers String.toList a.key b.key := by
  obtain @⟨field, values, named, numbers⟩ := ofA
  obtain @⟨other, others, named', numbers'⟩ := ofB
  intro rest rest' _ _ same
  simp only [key, toList_memberKey, append_assoc, singleton_append] at same
  obtain ⟨fields, behind⟩ := opening_unique named named' same
  obtain ⟨literals, after⟩ := members_unique (fun v member => .inr (numbers v member))
    (fun v member => .inr (numbers' v member)) behind
  refine ⟨?_, after⟩
  rw [key, key, ← String.toList_inj, toList_memberKey, toList_memberKey, fields, literals]

private theorem sameRows_of_key_eq (ofA : Readable a) (ofB : Readable b) (same : a.key = b.key) :
    SameRows (some a) (some b) := by
  obtain @⟨field, values, named, numbers⟩ := ofA
  obtain @⟨other, others, named', numbers'⟩ := ofB
  rw [key, key, ← String.toList_inj, toList_memberKey, toList_memberKey] at same
  obtain ⟨fields, behind⟩ := opening_unique named named' same
  obtain ⟨literals, _⟩ := members_unique (fun v member => .inr (numbers v member))
    (fun v member => .inr (numbers' v member)) behind
  rw [String.toList_inj.mp fields]
  exact sameRows_member other fun v => ⟨mem_of_sortedLiterals_eq numbers numbers' literals,
    mem_of_sortedLiterals_eq numbers' numbers literals.symm⟩

private theorem forall₂_sameRows (readable : ∀ a ∈ conditions, Readable a)
    (readable' : ∀ b ∈ others, Readable b) (same : conditions.map key = others.map key) :
    Forall₂ (fun a b => SameRows (some a) (some b)) conditions others := by
  have related : Forall₂ (fun a b => a.key = b.key) conditions others := by
    rwa [← forall₂_eq_eq_eq, forall₂_map_left_iff, forall₂_map_right_iff] at same
  rw [forall₂_iff_zip] at related ⊢
  refine ⟨related.1, fun {a b} paired => ?_⟩
  obtain ⟨first, second⟩ := of_mem_zip paired
  exact sameRows_of_key_eq (readable a first) (readable' b second) (related.2 paired)

end Readable

/-! ### Conjunctions -/

theorem toList_keyOf_conjunction (first next : Filter) (rest : List Filter) :
    (keyOf (conjoin none (first :: next :: rest))).toList = "and(".toList ++ (first.key.toList ++
      (((next :: rest).map key).flatMap (fun text => ',' :: [' '] ++ text.toList) ++ [')'])) := by
  simp only [conjoin, Option.toList_none, nil_append, keyOf, Option.map_some, Option.getD_some,
    key, keys_eq_map, Connective.name, String.toList_append, String.toList_intercalate,
    map_cons, intercalate_cons, append_assoc]
  rw [← map_cons, flatMap_map]
  rfl

variable {conditions others : List Filter}

/-- A readable condition has not the key of a conjunction of readable ones. -/
theorem key_ne_conjunction {next : Filter} {rest : List Filter} (ofA : Readable a)
    (ofFirst : Readable first) : a.key ≠ keyOf (conjoin none (first :: next :: rest)) := by
  obtain @⟨field, values, named, numbers⟩ := ofA
  obtain @⟨other, others, named', numbers'⟩ := ofFirst
  intro same
  have clear : ¬ opening <:+: "and(".toList ++ other.toList := by
    simpa [opening, infix_cons_iff, cons_prefix_cons] using named'
  rw [← String.toList_inj, toList_keyOf_conjunction, key, key, toList_memberKey, toList_memberKey]
    at same
  rw [append_assoc other.toList, append_assoc opening, append_assoc _ [')']] at same
  obtain ⟨_, behind⟩ := opening_unique named clear same
  obtain ⟨_, after⟩ := members_unique (fun v member => .inr (numbers v member))
    (fun v member => .inr (numbers' v member)) behind
  simp at after

private theorem keyOf_ne_empty (ofFirst : Readable first) (rest : List Filter) :
    keyOf (conjoin none (first :: rest)) ≠ keyOf none := by
  obtain ⟨named, numbers⟩ := ofFirst
  intro same
  cases rest with
  | nil =>
    have empty := (toList_memberKey _ _).symm.trans (String.toList_inj.mpr same)
    simp [keyOf] at empty
  | cons next rest =>
    have empty := (toList_keyOf_conjunction _ next rest).symm.trans (String.toList_inj.mpr same)
    simp [keyOf] at empty

variable (readable : ∀ a ∈ conditions, Readable a) (readable' : ∀ b ∈ others, Readable b)
include readable readable'

theorem map_key_eq_of_separated
    (same : (conditions.map key).flatMap (fun text => ',' :: [' '] ++ text.toList) ++ ')' :: rest =
      (others.map key).flatMap (fun text => ',' :: [' '] ++ text.toList) ++ ')' :: rest') :
    conditions.map key = others.map key := by
  have delimited : ∀ text ∈ conditions.map key, ∀ text' ∈ others.map key,
      SelfDelimiting closers String.toList text text' := by
    intro text listed text' listed'
    obtain ⟨a, member, rfl⟩ := mem_map.mp listed
    obtain ⟨b, member', rfl⟩ := mem_map.mp listed'
    exact (readable a member).delimited (readable' b member')
  exact (separated_unique (by decide) (by decide) (by decide) delimited same).1

private theorem map_key_eq_of_keyOf_cons_eq (first : Filter) (front : List Filter)
    (same : keyOf (conjoin none (first :: (front ++ conditions))) =
      keyOf (conjoin none (first :: (front ++ others)))) :
    conditions.map key = others.map key := by
  -- The key of the first operand alone is shorter than that of a conjunction with it.
  have shorter (next : Filter) (rest : List Filter) :
      keyOf (conjoin none [first]) ≠ keyOf (conjoin none (first :: next :: rest)) := by
    intro same
    have lengths := congrArg length (String.toList_inj.mpr same)
    rw [toList_keyOf_conjunction] at lengths
    simp [conjoin, keyOf] at lengths
    omega
  generalize tail : front ++ conditions = operands at same
  generalize tail' : front ++ others = operands' at same
  match operands, operands' with
  | [], [] =>
    simp only [append_eq_nil_iff] at tail tail'
    rw [tail.2, tail'.2]
  | [], next :: rest => exact absurd same (shorter next rest)
  | next :: rest, [] => exact absurd same.symm (shorter next rest)
  | _ :: _, _ :: _ =>
    -- The operands in front are the same on both sides, and what follows them is separated.
    rw [← String.toList_inj, toList_keyOf_conjunction, toList_keyOf_conjunction, ← tail, ← tail']
      at same
    simp only [append_cancel_left_eq, map_append, flatMap_append, append_assoc]
      at same
    exact map_key_eq_of_separated readable readable' same

private theorem map_key_eq_of_keyOf_eq (front : List Filter)
    (same : keyOf (conjoin none (front ++ conditions)) = keyOf (conjoin none (front ++ others))) :
    conditions.map key = others.map key := by
  cases front with
  | cons first front => exact map_key_eq_of_keyOf_cons_eq readable readable' first front same
  | nil =>
    -- No condition leaves no key, one its own key, and more a conjunction.
    match conditions, others with
    | [], [] => rfl
    | [], b :: rest => exact absurd same.symm (keyOf_ne_empty (readable' b (by simp)) rest)
    | a :: rest, [] => exact absurd same (keyOf_ne_empty (readable a (by simp)) rest)
    | [a], [b] => exact congrArg (fun key => [key]) same
    | [a], first :: next :: rest =>
      exact absurd same (key_ne_conjunction (readable a (by simp)) (readable' first (by simp)))
    | first :: next :: rest, [b] =>
      exact absurd same.symm (key_ne_conjunction (readable' b (by simp)) (readable first (by simp)))
    | first :: next :: rest, first' :: next' :: rest' =>
      rw [nil_append, nil_append, ← String.toList_inj, toList_keyOf_conjunction,
        toList_keyOf_conjunction, append_cancel_left_eq] at same
      obtain ⟨head, behind⟩ := (readable first (by simp)).delimited (readable' first' (by simp)) _ _
        (head_separated (by decide) (by decide) _ []) (head_separated (by decide) (by decide) _ []) same
      have tail := map_key_eq_of_separated (forall_mem_of_forall_mem_cons readable)
        (forall_mem_of_forall_mem_cons readable') behind
      exact congrArg₂ cons head tail

/-- Filters narrowed by readable conditions select the same rows if they have one key. -/
theorem sameRows_of_keyOf_eq (front : List Filter)
    (same : keyOf (conjoin none (front ++ conditions)) = keyOf (conjoin none (front ++ others))) :
    SameRows (conjoin none (front ++ conditions)) (conjoin none (front ++ others)) :=
  .conjoin front (Readable.forall₂_sameRows readable readable'
    (map_key_eq_of_keyOf_eq readable readable' front same))

end Crosstab.Filter
