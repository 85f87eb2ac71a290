import Crosstab.Measure.Binding
import Crosstab.Proofs.Outcome
import Crosstab.Proofs.Text

/-!
# Spellings of aggregates and formats

The names of aggregates and formats, given by their spellings. A name may have one line break behind
it. Neither lower case nor the removal of blanks turns the name of an aggregate into another one.
-/
namespace Crosstab

open List Display Text

namespace Text

/-- A text is one line, which may end with a line break. -/
def IsLine (line : List Char) (text : String) : Prop :=
  text.toList = line ∨ text.toList = line ++ ['\n']

end Text

namespace Aggregate

def IsPercentile (percent : Nat) (name : String) : Prop :=
  ∃ numeral digits, Text.IsLine ('p' :: numeral) name ∧
    List.Forall₂ (fun c digit => digit? c = some digit) numeral digits ∧
    (digits.length = 1 ∨ digits.length = 2) ∧ digitsValue digits = percent

/-- The aggregates that there are. -/
def IsName (name : String) : Prop :=
  name ∈ ["sum", "mean", "count", "min", "max", "median", "stdev"] ∨
    ∃ percent, 1 ≤ percent ∧ percent ≤ 99 ∧ IsPercentile percent name

end Aggregate

namespace Binding

/-- A keyword, or one of two others with a point and a number of places. -/
def IsFormatName (name : String) : Prop :=
  (∃ keyword ∈ ["currency", "percent", "integer", "none"], Text.IsLine keyword.toList name) ∨
    ∃ keyword ∈ ["decimal", "comma"], ∃ numeral : List Char, numeral ≠ [] ∧
      (∀ c ∈ numeral, isDigit c = true) ∧ Text.IsLine (keyword.toList ++ '.' :: numeral) name

end Binding

/-! ### Lines and digits -/

namespace Text

variable {numeral : List Char}

theorem forall₂_digit_iff {digits : List Nat} :
    Forall₂ (fun c digit => digit? c = some digit) numeral digits ↔
      (∀ c ∈ numeral, isDigit c) ∧ digits = numeral.map fun c => (digit? c).getD 0 := by
  induction numeral generalizing digits with
  | nil => simp
  | cons c rest ih =>
    rw [forall₂_cons_left_iff, forall_mem_cons]
    constructor
    · rintro ⟨digit, others, read, later, rfl⟩
      obtain ⟨all, rfl⟩ := ih.mp later
      exact ⟨⟨by simp [isDigit, read], all⟩, by simp [read]⟩
    · rintro ⟨⟨first, all⟩, rfl⟩
      obtain ⟨digit, read⟩ := Option.isSome_iff_exists.mp first
      exact ⟨digit, _, read, ih.mpr ⟨all, rfl⟩, by simp [read]⟩

theorem any_isNone_digit_iff :
    (numeral.map digit?).any Option.isNone ↔ ¬∀ c ∈ numeral, isDigit c := by
  simp [isDigit]

theorem getLast?_ne_break (digits : ∀ c ∈ numeral, isDigit c) : numeral.getLast? ≠ some '\n' := by
  intro last
  have broken := digits '\n' (mem_of_getLast? last)
  exact absurd broken (by decide)

end Text

/-- A line that does not end with a break is left over from itself, with a break behind it or not. -/
theorem Display.withoutFinalBreak_eq_iff {line text : List Char} (unbroken : line.getLast? ≠ some '\n') :
    withoutFinalBreak text = line ↔ text = line ∨ text = line ++ ['\n'] := by
  unfold withoutFinalBreak
  split
  next rest reversed =>
    have whole : text = rest.reverse ++ ['\n'] := by
      rw [← reverse_reverse text, reversed, reverse_cons]
    constructor
    · rintro rfl
      exact .inr whole
    · rintro (rfl | broken)
      · rw [whole, getLast?_concat] at unbroken
        exact absurd rfl unbroken
      · exact append_cancel_right (whole.symm.trans broken)
  next other =>
    constructor
    · exact .inl
    · rintro (same | rfl)
      · exact same
      · exact absurd (reverse_append ..) (other _)

/-! ### Names that are accepted -/

namespace Aggregate

theorem percentile?_eq_some {name : String} {percent : Nat} :
    percentile? name = some percent ↔ IsPercentile percent name := by
  unfold percentile?
  split
  next rest spelled =>
    -- One line break may follow, and digits contain none.
    have line {numeral : List Char} (digits : ∀ c ∈ numeral, isDigit c) :
        Text.IsLine ('p' :: numeral) name ↔ withoutFinalBreak rest = numeral := by
      rw [withoutFinalBreak_eq_iff (getLast?_ne_break digits), Text.IsLine, spelled,
        cons_append, cons.injEq]
      simp
    change (if ((withoutFinalBreak rest).map digit?).isEmpty ||
        2 < ((withoutFinalBreak rest).map digit?).length ||
        ((withoutFinalBreak rest).map digit?).any Option.isNone then none
      else some (digitsValue
        (((withoutFinalBreak rest).map digit?).map (·.getD 0)))) = some percent ↔ _
    constructor
    · intro read
      split at read
      · cases read
      next proper =>
        simp only [Bool.or_eq_true, not_or, any_isNone_digit_iff, not_not] at proper
        obtain ⟨⟨inhabited, short⟩, digits⟩ := proper
        refine ⟨_, _, (line digits).mpr rfl, forall₂_digit_iff.mpr ⟨digits, rfl⟩, ?_, ?_⟩
        · simp at inhabited short ⊢
          have := length_pos_iff.mpr inhabited
          omega
        · rw [map_map] at read
          exact Option.some.inj read
    · rintro ⟨numeral, values, spelling, read, length, rfl⟩
      obtain ⟨digits, rfl⟩ := forall₂_digit_iff.mp read
      rw [(line digits).mp spelling, map_map, if_neg]
      · rfl
      · simp only [Bool.or_eq_true, not_or, any_isNone_digit_iff, not_not]
        simp at length ⊢
        refine ⟨⟨?_, ?_⟩, digits⟩
        · rintro rfl
          simp at length
        · omega
  next other =>
    constructor
    · nofun
    · rintro ⟨numeral, _, spelling, _⟩
      rcases spelling with plain | broken
      · exact absurd plain (other numeral)
      · exact absurd broken (other (numeral ++ ['\n']))

theorem isValid_iff {name : String} : isValid name ↔ IsName name := by
  have base : baseNames.contains name ↔
      name ∈ ["sum", "mean", "count", "min", "max", "median", "stdev"] := contains_iff_mem
  rw [isValid, Bool.or_eq_true, base, IsName]
  simp only [← percentile?_eq_some]
  refine or_congr_right ?_
  cases percentile? name with
  | none => simp
  | some percent => simp; omega

end Aggregate

namespace Binding

private theorem isSome_placesAfter?_iff {keyword name : String} :
    (placesAfter? keyword name.toList).isSome ↔ ∃ numeral : List Char, numeral ≠ [] ∧
      (∀ c ∈ numeral, isDigit c) ∧ Text.IsLine (keyword.toList ++ '.' :: numeral) name := by
  unfold placesAfter?
  simp only
  split
  next led =>
    obtain ⟨rest, spelled⟩ := isPrefixOf_iff_prefix.mp led
    have line {numeral : List Char} (digits : ∀ c ∈ numeral, isDigit c) :
        Text.IsLine (keyword.toList ++ '.' :: numeral) name ↔ withoutFinalBreak rest = numeral := by
      rw [withoutFinalBreak_eq_iff (getLast?_ne_break digits), Text.IsLine, ← spelled]
      simp
    rw [← spelled, drop_left]
    constructor
    · intro read
      split at read
      · cases read
      next proper =>
        simp only [Bool.or_eq_true, not_or, any_isNone_digit_iff, not_not] at proper
        exact ⟨_, by simpa using proper.1, proper.2, (line proper.2).mpr rfl⟩
    · rintro ⟨numeral, inhabited, digits, spelling⟩
      rw [(line digits).mp spelling, if_neg]
      · rfl
      · simp only [Bool.or_eq_true, not_or, any_isNone_digit_iff, not_not]
        exact ⟨by simpa using inhabited, digits⟩
  next unled =>
    constructor
    · nofun
    · rintro ⟨numeral, _, _, spelling⟩
      refine absurd (List.isPrefixOf_iff_prefix.mpr ?_) unled
      rcases spelling with plain | broken
      · exact ⟨numeral, by simp [plain]⟩
      · exact ⟨numeral ++ ['\n'], by simp [broken]⟩

theorem isFormat_iff {name : String} : isFormat name ↔ IsFormatName name := by
  have keyword : ["currency", "percent", "integer", "none"].contains
        (String.ofList (withoutFinalBreak name.toList)) ↔
      ∃ keyword ∈ ["currency", "percent", "integer", "none"], Text.IsLine keyword.toList name := by
    have unbroken : ∀ keyword ∈ ["currency", "percent", "integer", "none"],
        keyword.toList.getLast? ≠ some '\n' := by decide
    rw [contains_iff_mem]
    constructor
    · intro listed
      refine ⟨_, listed, (withoutFinalBreak_eq_iff (unbroken _ listed)).mp ?_⟩
      rw [String.toList_ofList]
    · rintro ⟨keyword, listed, spelling⟩
      rw [(withoutFinalBreak_eq_iff (unbroken keyword listed)).mpr spelling, String.ofList_toList]
      exact listed
  unfold isFormat IsFormatName
  simp only [Bool.or_eq_true, keyword, isSome_placesAfter?_iff, or_assoc, mem_cons,
    not_mem_nil, or_false, exists_eq_or_imp, exists_eq_left]

end Binding

/-! ### Digits -/

namespace Text

variable {c first : Char} {inClass : Char → Bool} {rest : List Char}

/-- The code point of a digit is one of the ten from a zero on. -/
theorem exists_zero_of_isDigit (digit : isDigit c) :
    ∃ start ∈ digitZeros, start ≤ c.toNat ∧ c.toNat < start + 10 := by
  unfold isDigit digit? at digit
  rw [Option.isSome_map, find?_isSome] at digit
  obtain ⟨start, listed, within⟩ := digit
  exact ⟨start, listed, of_decide_eq_true within⟩

private theorem isBlank_eq_false_of_isDigit (digit : isDigit c) : isBlank c = false := by
  obtain ⟨start, listed, lower, upper⟩ := exists_zero_of_isDigit digit
  have apart : ∀ start ∈ digitZeros, ∀ span ∈ blankSpans, span.2 < start ∨ start + 10 ≤ span.1 := by
    decide +kernel
  refine any_eq_false.mpr fun span spanned => ?_
  have clear := apart start listed span spanned
  simp only [decide_eq_true_eq]
  omega

/-- A character that is its own lower case wherever it stands. -/
def IsLowered (c : Char) : Prop := c ≠ 'Σ' ∧ lowerChar c = [c]

instance (c : Char) : Decidable (IsLowered c) := inferInstanceAs (Decidable (_ ∧ _))

private theorem isLowered_of_isDigit (digit : isDigit c) : IsLowered c := by
  obtain ⟨start, listed, lower, upper⟩ := exists_zero_of_isDigit digit
  have apart : ∀ start ∈ digitZeros, (start + 10 ≤ 304 ∨ 304 < start) ∧
      ∀ run ∈ lowerRuns, run.last < start ∨ start + 10 ≤ run.first := by decide +kernel
  obtain ⟨single, clear⟩ := apart start listed
  have outside : (lowerRuns.findSome? fun run => run.apply? c.toNat) = none := by
    refine findSome?_eq_none_iff.mpr fun run ran => if_neg ?_
    have := clear run ran
    omega
  refine ⟨?_, ?_⟩
  · rintro rfl
    exact absurd digit (by decide)
  · rw [lowerChar, if_neg (by omega), applyRuns, outside]

private theorem lowerChars_eq_self {text : List Char} (each : ∀ c ∈ text, IsLowered c)
    (afterCased : Bool) : lowerChars afterCased text = text := by
  induction text generalizing afterCased with
  | nil => rfl
  | cons c rest ih =>
    rw [forall_mem_cons] at each
    rw [lowerChars, if_neg each.1.1, each.1.2, ih each.2, singleton_append]

private theorem lower_eq_self {text : String} (each : ∀ c ∈ text.toList, IsLowered c) :
    lower text = text := by
  rw [lower, lowerChars_eq_self each, String.ofList_toList]

/-! ### Removal of blanks -/

private theorem trim_of_ends (firstOut : inClass first = false)
    (lastOut : ∀ c ∈ (first :: rest).getLast?, inClass c = false) :
    trim inClass (first :: rest) = first :: rest := by
  have front : (first :: rest).dropWhile inClass = first :: rest :=
    dropWhile_cons_of_neg (by simp [firstOut])
  rw [trim, front]
  cases reversed : (first :: rest).reverse with
  | nil => simp at reversed
  | cons last others =>
    have ends : (first :: rest).getLast? = some last := by
      rw [← head?_reverse, reversed, head?_cons]
    rw [dropWhile_cons_of_neg (by simp [lastOut last ends]), ← reversed, reverse_reverse]

private theorem trim_concat {blank : Char} (firstOut : inClass first = false) (blankIn : inClass blank) :
    trim inClass (first :: rest ++ [blank]) = trim inClass (first :: rest) := by
  have front (tail : List Char) : (first :: tail).dropWhile inClass = first :: tail :=
    dropWhile_cons_of_neg (by simp [firstOut])
  rw [trim, trim, cons_append, front, front, ← cons_append, reverse_append,
    reverse_singleton, singleton_append, dropWhile_cons_of_pos blankIn]

end Text

/-! ### Names of aggregates -/

namespace Aggregate

variable {name : String} {percent : Nat}

private theorem lower_of_isPercentile (percentile : IsPercentile percent name) : lower name = name := by
  obtain ⟨numeral, digits, line, read, _⟩ := percentile
  have lowered : ∀ c ∈ 'p' :: numeral, Text.IsLowered c := by
    rw [forall_mem_cons]
    exact ⟨by decide, fun c member =>
      isLowered_of_isDigit ((forall₂_digit_iff.mp read).1 c member)⟩
  apply lower_eq_self
  rcases line with plain | broken
  · rwa [plain]
  · rw [broken, forall_mem_append, forall_mem_singleton]
    exact ⟨lowered, by decide⟩

theorem lower_of_isValid (valid : isValid name) : lower name = name := by
  rcases isValid_iff.mp valid with base | ⟨percent, _, _, percentile⟩
  · exact forall_mem_of_all (p := fun name => lower name = name) (by decide +kernel) name base
  · exact lower_of_isPercentile percentile

/-- A percentile keeps its percentage when the line break behind it is removed. -/
theorem isPercentile_strip (percentile : IsPercentile percent name) :
    IsPercentile percent (strip name) := by
  obtain ⟨numeral, digits, line, read, shown⟩ := percentile
  have letter : isBlank 'p' = false := by decide
  have bare : trim isBlank ('p' :: numeral) = 'p' :: numeral := by
    refine trim_of_ends letter fun c last => ?_
    rcases mem_cons.mp (mem_of_getLast? last) with rfl | member
    · exact letter
    · exact isBlank_eq_false_of_isDigit ((forall₂_digit_iff.mp read).1 c member)
  have stripped : (strip name).toList = 'p' :: numeral := by
    rw [strip, String.toList_ofList]
    rcases line with plain | broken
    · rw [plain, bare]
    · rw [broken, trim_concat letter (by decide), bare]
  exact ⟨numeral, digits, .inl stripped, read, shown⟩

theorem isValid_strip (valid : isValid name) : isValid (strip name) := by
  rcases isValid_iff.mp valid with base | ⟨percent, low, high, percentile⟩
  · exact forall_mem_of_all (p := fun name => isValid (strip name) = true) (by decide +kernel)
      name base
  · exact isValid_iff.mpr (.inr ⟨percent, low, high, isPercentile_strip percentile⟩)

end Aggregate

end Crosstab
