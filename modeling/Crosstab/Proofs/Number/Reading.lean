import Crosstab.Number.Reading
import Crosstab.Proofs.Number.Nearest
import Crosstab.Proofs.Text
import Mathlib.Data.List.TakeWhile

/-!
# Texts of doubles

The text of a finite double is a numeral, and the double is the one nearest to the number that this
numeral stands for. So doubles that are numbers are told apart by their texts.
-/
namespace Crosstab

open List Nat

namespace Number

/-! ### Numerals -/

theorem naturalValue_eq (digits : List Char) :
    naturalValue digits = Nat.ofDigitChars 10 digits 0 := by
  rw [naturalValue, Text.digitsValue, foldl_map]
  rfl

theorem naturalValue_append_zeros (digits : List Char) (count : Nat) :
    naturalValue (digits ++ replicate count '0') = naturalValue digits * 10 ^ count := by
  rw [naturalValue_eq, naturalValue_eq, ofDigitChars_append, ofDigitChars_replicate_zero, mul_comm]

private theorem naturalValue_zeros_append (count : Nat) (digits : List Char) :
    naturalValue (replicate count '0' ++ digits) = naturalValue digits := by
  rw [naturalValue_eq, naturalValue_eq, ofDigitChars_append, ofDigitChars_replicate_zero, mul_zero]

def figures : List Char := ['0', '1', '2', '3', '4', '5', '6', '7', '8', '9']

/-- The characters in which doubles are written. -/
def plainChars : List Char := figures ++ ['.', 'e', '+', '-', 'i', 'n', 'f']

theorem mem_figures {c : Char} (digit : c.isDigit) : c ∈ figures := by
  have range : 48 ≤ c.toNat ∧ c.toNat ≤ 57 := by
    simp only [Char.isDigit, Bool.and_eq_true, decide_eq_true_eq] at digit
    exact digit
  rw [← Char.ofNat_toNat c]
  obtain ⟨lower, upper⟩ := range
  generalize c.toNat = n at lower upper
  interval_cases n <;> decide

/-- The number that a numeral stands for. -/
def numeralValue (body : List Char) : ℚ :=
  let (places, tail) :=
    match body.dropWhile Char.isDigit with
    | '.' :: rest => (rest.takeWhile Char.isDigit, rest.dropWhile Char.isDigit)
    | rest => ([], rest)
  naturalValue (body.takeWhile Char.isDigit ++ places) *
    10 ^ ((readExponent? tail).getD 0 - places.length)

/-- A numeral is laid out from digits, digits after a point, and an exponent. The last two may be
missing. -/
structure Spells (body whole places : List Char) (exponent : Int) : Prop where
  inhabited : whole ≠ []
  digits : ∀ c ∈ whole, c.isDigit = true
  decimals : ∀ c ∈ places, c.isDigit = true
  layout : ∃ tail, readExponent? tail = some exponent ∧ (∀ c ∈ tail, c ∈ plainChars) ∧
    (∀ c ∈ tail.head?, c.isDigit = false ∧ c ≠ '.') ∧
    (body = whole ++ '.' :: (places ++ tail) ∨ places = [] ∧ body = whole ++ tail)

namespace Spells

variable {body whole places : List Char} {exponent : Int} (spells : Spells body whole places exponent)

include spells

private theorem plain : ∀ c ∈ body, c ∈ plainChars := by
  obtain ⟨tail, _, plain, _, rfl | ⟨_, rfl⟩⟩ := spells.layout
  · intro c member
    simp only [mem_append, mem_cons] at member
    rcases member with inWhole | rfl | inPlaces | inTail
    · exact mem_append_left _ (mem_figures (spells.digits c inWhole))
    · decide
    · exact mem_append_left _ (mem_figures (spells.decimals c inPlaces))
    · exact plain c inTail
  · intro c member
    rcases mem_append.mp member with inWhole | inTail
    · exact mem_append_left _ (mem_figures (spells.digits c inWhole))
    · exact plain c inTail

theorem exists_head : ∃ c rest, body = c :: rest ∧ c.isDigit := by
  obtain ⟨c, rest, rfl⟩ := exists_cons_of_ne_nil spells.inhabited
  obtain ⟨tail, _, _, _, rfl | ⟨_, rfl⟩⟩ := spells.layout
  · exact ⟨c, _, rfl, spells.digits c mem_cons_self⟩
  · exact ⟨c, _, rfl, spells.digits c mem_cons_self⟩

private theorem numeralValue_eq : numeralValue body =
    naturalValue (whole ++ places) * 10 ^ (exponent - places.length) := by
  unfold numeralValue
  obtain ⟨tail, exponential, _, stops, rfl | ⟨rfl, rfl⟩⟩ := spells.layout
  -- With a point, the digits end at it, and the decimals where the exponent starts.
  · obtain ⟨taken, dropped⟩ := takeWhile_append_stop spells.digits
      (show ∀ c ∈ ('.' :: (places ++ tail)).head?, c.isDigit = false by simp)
    obtain ⟨taken', dropped'⟩ := takeWhile_append_stop spells.decimals fun c first => (stops c first).1
    simp only [taken, dropped, taken', dropped', exponential, Option.getD_some]
  · obtain ⟨taken, dropped⟩ := takeWhile_append_stop spells.digits fun c first => (stops c first).1
    simp only [taken, dropped]
    split
    next => exact absurd rfl (stops '.' rfl).2
    next => simp [exponential]

end Spells

/-- A numeral and the number that it stands for. -/
def Denotes (body : List Char) (q : ℚ) : Prop :=
  ∃ whole places exponent, Spells body whole places exponent ∧
    (naturalValue (whole ++ places) : ℚ) * 10 ^ (exponent - places.length) = q

private theorem Denotes.numeralValue_eq {body : List Char} {q : ℚ} (denotes : Denotes body q) :
    numeralValue body = q := by
  obtain ⟨whole, places, exponent, spells, rfl⟩ := denotes
  exact spells.numeralValue_eq

end Number

/-! ### Texts of decimals -/

namespace Double

open Number

private theorem exists_figures {digits : Nat} (positive : 0 < digits) :
    ∃ (kept : List Char) (zeros : Nat),
      ((Nat.toDigits 10 digits).reverse.dropWhile (· == '0')).reverse = kept ∧
      (Nat.toDigits 10 digits).length = kept.length + zeros ∧
      digits = naturalValue kept * 10 ^ zeros ∧ kept ≠ [] ∧ ∀ c ∈ kept, c.isDigit := by
  have whole := takeWhile_append_dropWhile (p := (· == '0'))
    (l := (Nat.toDigits 10 digits).reverse)
  have zeros : (Nat.toDigits 10 digits).reverse.takeWhile (· == '0') =
      replicate ((Nat.toDigits 10 digits).reverse.takeWhile (· == '0')).length '0' := by
    rw [eq_replicate_iff]
    refine ⟨rfl, fun c member => ?_⟩
    simpa using mem_takeWhile_imp member
  generalize ((Nat.toDigits 10 digits).reverse.takeWhile (· == '0')).length = count at zeros
  generalize (Nat.toDigits 10 digits).reverse.dropWhile (· == '0') = reversed at whole
  rw [zeros] at whole
  have spelled : Nat.toDigits 10 digits = reversed.reverse ++ replicate count '0' := by
    rw [← reverse_reverse (Nat.toDigits 10 digits), ← whole, reverse_append, reverse_replicate]
  have value : digits = naturalValue reversed.reverse * 10 ^ count := by
    have read := ofDigitChars_ten_toDigits (n := digits)
    rw [spelled, ← naturalValue_eq, naturalValue_append_zeros] at read
    exact read.symm
  refine ⟨reversed.reverse, count, rfl, ?_, value, ?_, ?_⟩
  · simp [spelled]
  · intro none
    rw [none] at value
    simp [naturalValue, Text.digitsValue] at value
    omega
  · intro c member
    apply isDigit_of_mem_toDigits (b := 10) (n := digits) (by decide) (by decide)
    rw [spelled]
    exact mem_append_left _ member

theorem readExponent?_exponentText (exponent : Int) :
    readExponent? (exponentText exponent).toList = some exponent := by
  have padded : ∃ digits : List Char, (if (toString exponent.natAbs).length < 2
      then "0" ++ toString exponent.natAbs else toString exponent.natAbs).toList = digits ∧
        digits ≠ [] ∧ (∀ c ∈ digits, c.isDigit) ∧ naturalValue digits = exponent.natAbs := by
    have shown : ∀ c ∈ Nat.toDigits 10 exponent.natAbs, c.isDigit := fun c member =>
      isDigit_of_mem_toDigits (by decide) (by decide) member
    split
    · refine ⟨_, rfl, ?_, ?_, ?_⟩
      · simp
      · simpa using shown
      · simp [naturalValue_eq, ofDigitChars_cons]
    · refine ⟨_, rfl, ?_, ?_, ?_⟩
      · simp
      · simpa using shown
      · simp [naturalValue_eq]
  obtain ⟨digits, spelled, some, shown, value⟩ := padded
  unfold exponentText
  simp only [String.toList_append, spelled]
  split
  next below =>
    have parsed : readExponent? ('e' :: '-' :: digits) = Option.some (-(naturalValue digits : Int)) := by
      simp [readExponent?, splitSign, some, all_eq_true.mpr shown]
    refine parsed.trans (congrArg Option.some ?_)
    omega
  next =>
    have parsed : readExponent? ('e' :: '+' :: digits) = Option.some (naturalValue digits : Int) := by
      simp [readExponent?, splitSign, some, all_eq_true.mpr shown]
    refine parsed.trans (congrArg Option.some ?_)
    omega

theorem exponentText_plain (exponent : Int) :
    (exponentText exponent).toList.head? = some 'e' ∧
      ∀ c ∈ (exponentText exponent).toList, c ∈ plainChars := by
  have digits : ∀ c ∈ (toString exponent.natAbs).toList, c ∈ plainChars := by
    rw [toString_eq_ofList_toDigits, String.toList_ofList]
    exact fun c member => mem_append_left _
      (mem_figures (isDigit_of_mem_toDigits (by decide) (by decide) member))
  have signs : ∀ c ∈ ['e', '-', '+', '0'], c ∈ plainChars := forall_mem_of_all (by decide)
  unfold exponentText
  constructor
  · simp only [String.toList_append]
    split <;> rfl
  · intro c member
    simp only [String.toList_append, mem_append] at member
    rcases member with sign | inside
    · split at sign
      · exact forall_mem_of_all (by decide) c sign
      · exact forall_mem_of_all (by decide) c sign
    · split at inside
      · rw [String.toList_append, mem_append] at inside
        rcases inside with zero | inside
        · exact signs c (forall_mem_of_all (by decide) c zero)
        · exact digits c inside
      · exact digits c inside

end Double

namespace Number.Spells

open Double

variable {whole places : List Char} (inhabited : whole ≠ [])
  (digits : ∀ c ∈ whole, c.isDigit = true) (decimals : ∀ c ∈ places, c.isDigit = true)

include inhabited digits decimals

theorem pointed : Spells (whole ++ '.' :: places) whole places 0 :=
  ⟨inhabited, digits, decimals, [], rfl, by simp, by simp, by simp⟩

private theorem scaled (exponent : Int) :
    Spells (whole ++ '.' :: (places ++ (exponentText exponent).toList)) whole places exponent := by
  obtain ⟨first, plain⟩ := exponentText_plain exponent
  refine ⟨inhabited, digits, decimals, _, readExponent?_exponentText exponent, plain, ?_, .inl rfl⟩
  rw [first]
  simp

omit decimals in
private theorem scaled_whole (exponent : Int) :
    Spells (whole ++ (exponentText exponent).toList) whole [] exponent := by
  obtain ⟨first, plain⟩ := exponentText_plain exponent
  refine ⟨inhabited, digits, by simp, _, readExponent?_exponentText exponent, plain, ?_,
    .inr ⟨rfl, rfl⟩⟩
  rw [first]
  simp

end Number.Spells

namespace Double

open Number

/-! ### Layouts of decimals -/

section

variable {kept : List Char} (inhabited : kept ≠ []) (shown : ∀ c ∈ kept, c.isDigit = true)
  {exponent : Int}

theorem isDigit_of_mem_zeros (count : Nat) : ∀ c ∈ replicate count '0', c.isDigit := by
  intro c member
  rw [eq_of_mem_replicate member]
  rfl

include shown

/-- A zero, the point, and zeros between the point and the figures. -/
theorem denotes_below_one (gap : Nat) (place : exponent = -(gap + kept.length : Nat)) :
    Denotes ('0' :: '.' :: (replicate gap '0' ++ kept)) (naturalValue kept * 10 ^ exponent) := by
  refine ⟨['0'], replicate gap '0' ++ kept, 0, ?_, ?_⟩
  · exact .pointed (cons_ne_nil _ _) (isDigit_of_mem_zeros 1)
      (forall_mem_append.mpr ⟨isDigit_of_mem_zeros gap, shown⟩)
  · rw [← append_assoc, show ['0'] = replicate 1 '0' from rfl,
      replicate_append_replicate, naturalValue_zeros_append, length_append,
      length_replicate, place, Int.zero_sub]

include inhabited

private theorem denotes_before_point (count : Nat) (place : exponent = count) :
    Denotes (kept ++ replicate count '0' ++ '.' :: ['0']) (naturalValue kept * 10 ^ exponent) := by
  refine ⟨kept ++ replicate count '0', ['0'], 0, ?_, ?_⟩
  · exact .pointed (by simp [inhabited])
      (forall_mem_append.mpr ⟨shown, isDigit_of_mem_zeros count⟩) (isDigit_of_mem_zeros 1)
  · rw [append_assoc, show ['0'] = replicate 1 '0' from rfl,
      replicate_append_replicate, naturalValue_append_zeros, cast_mul, cast_pow,
      cast_ofNat, mul_assoc, ← zpow_natCast, ← zpow_add₀ (by norm_num), length_replicate]
    congr 2
    omega

private theorem denotes_around_point {count : Nat} (some : 0 < count)
    (place : exponent = -(kept.length - count : Nat)) :
    Denotes (kept.take count ++ '.' :: kept.drop count) (naturalValue kept * 10 ^ exponent) := by
  refine ⟨kept.take count, kept.drop count, 0, ?_, ?_⟩
  · refine .pointed ?_ (fun c member => shown c (mem_of_mem_take member))
      (fun c member => shown c (mem_of_mem_drop member))
    simp [inhabited, some.ne']
  · rw [take_append_drop, length_drop, place, Int.zero_sub]

end

private theorem denotes_scaled_single {single : Char} (digit : single.isDigit) (lead : Int) :
    Denotes ([single] ++ (exponentText lead).toList) (naturalValue [single] * 10 ^ lead) := by
  refine ⟨[single], [], lead, .scaled_whole (cons_ne_nil _ _) (by simpa using digit) lead, ?_⟩
  simp

/-- One figure before the point, the others behind it, and a power of ten. -/
theorem denotes_scaled {first : Char} {rest : List Char} (digit : first.isDigit)
    (digits : ∀ c ∈ rest, c.isDigit) {exponent lead : Int} (place : exponent = lead - rest.length) :
    Denotes (first :: '.' :: rest ++ (exponentText lead).toList)
      (naturalValue (first :: rest) * 10 ^ exponent) := by
  have alone : ∀ c ∈ [first], c.isDigit := by simpa using digit
  refine ⟨[first], rest, lead, ?_, ?_⟩
  · exact .scaled (cons_ne_nil _ _) alone digits lead
  · rw [place]
    rfl

private theorem denotes_decimalText {digits : Nat} (positive : 0 < digits) (exponent : Int) :
    Denotes (decimalText digits exponent).toList (digits * 10 ^ exponent) := by
  obtain ⟨kept, zeros, stripped, length, value, inhabited, shown⟩ := exists_figures positive
  have total : (digits : ℚ) * 10 ^ exponent = naturalValue kept * 10 ^ (zeros + exponent) := by
    rw [value, cast_mul, cast_pow, cast_ofNat, mul_assoc, zpow_add₀ (by norm_num), zpow_natCast]
  unfold decimalText
  simp only [stripped, length, total]
  generalize leading : ((kept.length + zeros : Nat) : Int) - 1 + exponent = lead
  split
  next inRange =>
    split
    next below =>
      rw [String.toList_ofList]
      exact denotes_below_one shown _ (by omega)
    next above =>
      rw [String.toList_ofList]
      by_cases fits : kept.length ≤ lead.toNat + 1
      · rw [drop_eq_nil_of_le fits, take_of_length_le (by simp; omega)]
        exact denotes_before_point inhabited shown _ (by omega)
      · have padding : lead.toNat + 1 - kept.length = 0 := by omega
        have behind : kept.drop (lead.toNat + 1) ≠ [] := by
          rw [ne_eq, drop_eq_nil_iff]
          exact fits
        rw [padding, replicate_zero, append_nil, if_neg (by simpa using behind)]
        exact denotes_around_point inhabited shown (by omega) (by omega)
  next =>
    -- One figure stands before the point, and the exponent tells the rest.
    rw [String.toList_append, String.toList_ofList]
    cases kept with
    | nil => exact absurd rfl inhabited
    | cons first rest =>
      obtain ⟨digit, others⟩ := forall_mem_cons.mp shown
      rw [length_cons] at leading
      cases rest with
      | nil =>
        have place : (zeros : Int) + exponent = lead := by simpa using leading
        rw [place]
        exact denotes_scaled_single digit lead
      | cons second rest => exact denotes_scaled digit others (by omega)

variable {x : Double}

private theorem eq_infinity (infinite : x.isInfinite) : x = infinity x.negative := by
  obtain ⟨negative, exponent, fraction⟩ := x
  simp only [isInfinite, Bool.and_eq_true, beq_iff_eq] at infinite
  obtain ⟨top, none⟩ := infinite
  simp only [infinity, ofCode, mk.injEq, true_and]
  exact ⟨Fin.ext top, Fin.ext none⟩

private theorem eq_zero (none : x.isZero) : x = zero x.negative := by
  obtain ⟨negative, exponent, fraction⟩ := x
  simp only [isZero, Bool.and_eq_true, beq_iff_eq] at none
  simp only [zero, ofCode, mk.injEq, true_and]
  exact ⟨Fin.ext none.1, Fin.ext none.2⟩

/-- A decimal has a point or an exponent in its text, so it is never taken for an integer. -/
theorem exists_mark_decimalText (digits : Nat) (exponent : Int) :
    ∃ c ∈ (decimalText digits exponent).toList, c ∉ '-' :: figures := by
  unfold decimalText
  simp only
  split
  · refine ⟨'.', ?_, by decide⟩
    split <;> simp
  · refine ⟨'e', ?_, by decide⟩
    rw [String.toList_append, mem_append]
    exact .inr (mem_of_mem_head? (exponentText_plain _).1)

private theorem signed_toList (negative : Bool) (text : String) :
    ((if negative then "-" else "") ++ text).toList =
      (if negative then ['-'] else []) ++ text.toList := by
  rw [String.toList_append]
  split <;> rfl

/-- Behind the sign stands a name for infinity, or a numeral of a number that is rounded to the double.
The numeral has a character that no integer has. -/
theorem text_cases (number : x.isNan = false) : ∃ body : String,
    x.text = (if x.negative then "-" else "") ++ body ∧
      (x = infinity x.negative ∧ body = "inf" ∨ ∃ q, Denotes body.toList q ∧
        ofMagnitude x.negative q = x ∧ ∃ c ∈ body.toList, c ∉ '-' :: figures) := by
  unfold text
  rw [if_neg (by simp [number])]
  simp only
  split
  next infinite => exact ⟨_, rfl, .inl ⟨eq_infinity infinite, rfl⟩⟩
  next bounded =>
    split
    next none =>
      have spells : Spells ['0', '.', '0'] ['0'] ['0'] 0 :=
        .pointed (cons_ne_nil _ _) (isDigit_of_mem_zeros 1) (isDigit_of_mem_zeros 1)
      refine ⟨_, rfl, .inr ⟨0, ⟨_, _, _, spells, ?_⟩, ?_, '.', by decide, by decide⟩⟩
      · simp [naturalValue, Text.digitsValue]
      · rw [ofMagnitude, if_pos rfl, ← eq_zero none]
    next present =>
      have finite : x.isFinite := by
        simp only [isNan, isInfinite, isFinite] at number bounded ⊢
        grind
      have nonzero : x.isZero = false := by simpa using present
      refine ⟨_, rfl, .inr ⟨_, denotes_decimalText (shortest_pos finite nonzero) _, ?_,
        exists_mark_decimalText _ _⟩⟩
      rw [ofMagnitude_negative, ofMagnitude_shortest finite nonzero]
      rfl

/-- The text of a double, apart from its sign: a digit or a letter first, and somewhere a character
that no integer has. -/
theorem exists_text_eq (number : x.isNan = false) :
    ∃ first rest, x.text.toList = (if x.negative then ['-'] else []) ++ first :: rest ∧
      first ∈ 'i' :: figures ∧ (∀ c ∈ first :: rest, c ∈ plainChars) ∧
        ∃ c ∈ first :: rest, c ∉ '-' :: figures := by
  obtain ⟨body, written, ⟨_, rfl⟩ | ⟨_, ⟨_, _, _, spells, _⟩, _, marked⟩⟩ := text_cases number
  · refine ⟨'i', ['n', 'f'], ?_, by decide, forall_mem_of_all (by decide), 'i', by decide, by decide⟩
    rw [written, signed_toList]
    rfl
  · obtain ⟨first, rest, spelled, digit⟩ := spells.exists_head
    rw [spelled] at marked
    refine ⟨first, rest, ?_, mem_cons_of_mem _ (mem_figures digit), ?_, marked⟩
    · rw [written, signed_toList, spelled]
    · rw [← spelled]
      exact spells.plain

private theorem negative_eq_of_text_eq {y : Double} (ofX : x.isNan = false) (ofY : y.isNan = false)
    (same : x.text = y.text) : x.negative = y.negative := by
  obtain ⟨first, _, written, leading, _⟩ := exists_text_eq ofX
  obtain ⟨first', _, written', leading', _⟩ := exists_text_eq ofY
  have unsigned : '-' ∉ 'i' :: figures := by decide
  rw [same, written'] at written
  revert written
  cases x.negative <;> cases y.negative <;> intro written
  · rfl
  · exact absurd ((cons.inj written).1 ▸ leading) unsigned
  · exact absurd ((cons.inj written).1 ▸ leading') unsigned
  · rfl

/-- Doubles that are numbers are told apart by their texts. -/
theorem text_injective {y : Double} (ofX : x.isNan = false) (ofY : y.isNan = false)
    (same : x.text = y.text) : x = y := by
  have sign := negative_eq_of_text_eq ofX ofY same
  have named {q : ℚ} (denotes : Denotes "inf".toList q) : False := by
    obtain ⟨_, _, _, spells, _⟩ := denotes
    obtain ⟨_, _, starts, digit⟩ := spells.exists_head
    cases starts
    exact absurd digit (by decide)
  obtain ⟨body, written, ofBody⟩ := text_cases ofX
  obtain ⟨body', written', ofBody'⟩ := text_cases ofY
  obtain rfl : body = body' := by
    rw [written, written', sign] at same
    simpa [← String.toList_inj] using same
  rcases ofBody with ⟨infinite, rfl⟩ | ⟨q, denotes, rounds, _⟩
  · rcases ofBody' with ⟨infinite', _⟩ | ⟨_, denotes, _⟩
    · rw [infinite, infinite', sign]
    · exact (named denotes).elim
  · rcases ofBody' with ⟨_, rfl⟩ | ⟨q', denotes', rounds', _⟩
    · exact (named denotes).elim
    · rw [← rounds, ← rounds', sign, ← denotes.numeralValue_eq, denotes'.numeralValue_eq]

end Double

end Crosstab
