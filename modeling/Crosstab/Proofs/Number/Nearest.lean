import Crosstab.Number.Double
import Mathlib.Algebra.Order.Field.Power
import Mathlib.Algebra.Order.Floor.Semifield
import Mathlib.Data.Int.Log
import Mathlib.Data.Nat.Cast.Order.Field
import Mathlib.Data.Rat.Floor
import Mathlib.Tactic.Positivity

/-!
# Nearest doubles

A quotient is rounded by its value alone, and one closer to a double than a quarter of the step to
the next is rounded to that double. So the digits that stand for a double round to it again.
-/
namespace Crosstab

open Number

/-! ### Scaled quotients -/

theorem scaled_quotient (base num den : Nat) (unit : Int) :
    ((num * base ^ (-unit).toNat : Nat) : ℚ) / (den * base ^ unit.toNat : Nat) =
      num / den / (base : ℚ) ^ unit := by
  rcases Int.le_total 0 unit with above | below
  · obtain ⟨n, rfl⟩ := Int.eq_ofNat_of_zero_le above
    simp [div_div]
  · obtain ⟨n, negated⟩ := Int.eq_ofNat_of_zero_le (Int.neg_nonneg.mpr below)
    obtain rfl : unit = -n := by omega
    simp [div_mul_eq_mul_div]

namespace Number

/-- The natural nearest to a rational; a half goes to the even neighbour. -/
def halfEven (q : ℚ) : Nat :=
  let below := ⌊q⌋₊
  if 2 * (q - below) < 1 then below
  else if 1 < 2 * (q - below) then below + 1
  else below + below % 2

theorem roundHalfEven_eq {den : Nat} (positive : 0 < den) (num : Nat) :
    roundHalfEven num den = halfEven (num / den) := by
  have nonzero : (den : ℚ) ≠ 0 := by positivity
  have floored : ⌊(num : ℚ) / den⌋₊ = num / den := Nat.floor_div_eq_div num den
  have parts : (num : ℚ) = den * (num / den : Nat) + (num % den : Nat) := by
    exact_mod_cast (Nat.div_add_mod num den).symm
  have remainder : 2 * ((num : ℚ) / den - (num / den : Nat)) = (2 * (num % den) : Nat) / den := by
    rw [div_sub' nonzero, mul_div_assoc', div_left_inj' nonzero]
    push_cast
    linarith
  have below : ((2 * (num % den) : Nat) / den : ℚ) < 1 ↔ 2 * (num % den) < den := by
    rw [div_lt_one (by positivity), Nat.cast_lt]
  have above : 1 < ((2 * (num % den) : Nat) / den : ℚ) ↔ den < 2 * (num % den) := by
    rw [one_lt_div (by positivity), Nat.cast_lt]
  simp only [roundHalfEven, halfEven, floored, remainder, below, above]

theorem abs_halfEven_sub_le {q : ℚ} (nonneg : 0 ≤ q) : |(halfEven q : ℚ) - q| ≤ 1 / 2 := by
  have lower := Nat.floor_le nonneg
  have upper := Nat.lt_floor_add_one q
  rw [abs_le]
  unfold halfEven
  simp only
  split
  · constructor <;> linarith
  · split
    · push_cast
      constructor <;> linarith
    · -- The middle: the neighbour that is taken is a half away, on either side.
      rcases Nat.mod_two_eq_zero_or_one ⌊q⌋₊ with even | odd
      · rw [even]
        push_cast
        constructor <;> linarith
      · rw [odd]
        push_cast
        constructor <;> linarith

theorem halfEven_eq_of_close {q : ℚ} (nonneg : 0 ≤ q) {n : Nat} (close : |q - n| < 1 / 2) :
    halfEven q = n := by
  have moved := abs_halfEven_sub_le nonneg
  have apart : |((halfEven q : ℤ) - n : ℤ)| < 1 := by
    have distance : |(halfEven q : ℚ) - n| < 1 := by
      calc |(halfEven q : ℚ) - n| ≤ |(halfEven q : ℚ) - q| + |q - n| := abs_sub_le _ _ _
        _ < 1 := by linarith
    exact_mod_cast distance
  rw [Int.abs_lt_one_iff] at apart
  omega

end Number

namespace Double

/-- The binary exponent is determined by the powers of two around a value. -/
theorem log_eq {q : ℚ} (positive : 0 < q) {k : Int} (lower : (2 : ℚ) ^ k ≤ q)
    (upper : q < (2 : ℚ) ^ (k + 1)) : Int.log 2 q = k := by
  have atLeast := (Int.zpow_le_iff_le_log (b := 2) (by decide) positive).mp (by exact_mod_cast lower)
  have below := (Int.lt_zpow_iff_log_lt (b := 2) (by decide) positive).mp (by exact_mod_cast upper)
  omega

private theorem binaryExponent_eq {num den : Nat} (ofNum : 0 < num) (ofDen : 0 < den) :
    binaryExponent num den = Int.log 2 ((num : ℚ) / den) := by
  have positive : (0 : ℚ) < num / den := by positivity
  have lowerNum : (2 : ℚ) ^ num.log2 ≤ num := by exact_mod_cast Nat.log2_self_le ofNum.ne'
  have upperNum : (num : ℚ) < 2 ^ (num.log2 + 1) := by exact_mod_cast Nat.lt_log2_self
  have lowerDen : (2 : ℚ) ^ den.log2 ≤ den := by exact_mod_cast Nat.log2_self_le ofDen.ne'
  have upperDen : (den : ℚ) < 2 ^ (den.log2 + 1) := by exact_mod_cast Nat.lt_log2_self
  -- The quotient of the leading powers is off by less than a factor of two.
  have lower : (2 : ℚ) ^ ((num.log2 : Int) - den.log2 - 1) ≤ num / den := by
    have quotient : (2 : ℚ) ^ ((num.log2 : Int) - den.log2 - 1) =
        2 ^ num.log2 / 2 ^ (den.log2 + 1) := by
      rw [show (num.log2 : Int) - den.log2 - 1 = num.log2 - (den.log2 + 1 : Nat) by push_cast; ring,
        zpow_sub₀ (by norm_num), zpow_natCast, zpow_natCast]
    rw [quotient]
    gcongr
  have upper : (num : ℚ) / den < 2 ^ ((num.log2 : Int) - den.log2 + 1) := by
    have quotient : (2 : ℚ) ^ ((num.log2 : Int) - den.log2 + 1) =
        2 ^ (num.log2 + 1) / 2 ^ den.log2 := by
      rw [show (num.log2 : Int) - den.log2 + 1 = (num.log2 + 1 : Nat) - den.log2 by push_cast; ring,
        zpow_sub₀ (by norm_num), zpow_natCast, zpow_natCast]
    rw [quotient]
    gcongr
  unfold binaryExponent
  simp only
  generalize (num.log2 : Int) - den.log2 = guess at lower upper ⊢
  have tested : den <<< guess.toNat ≤ num <<< (-guess).toNat ↔ (2 : ℚ) ^ guess ≤ num / den := by
    have scaled := scaled_quotient 2 num den guess
    rw [Nat.shiftLeft_eq, Nat.shiftLeft_eq, ← Nat.cast_le (α := ℚ), ← one_le_div (by positivity), scaled,
      Nat.cast_ofNat, one_le_div (by positivity)]
  split
  next reached => exact (log_eq positive (tested.mp reached) upper).symm
  next missed =>
    rw [tested, not_le] at missed
    exact (log_eq positive lower (by rwa [sub_add_cancel])).symm

/-- The exponent of the grid on which a value is rounded: 53 binary digits, but none below the least
double. -/
def gridUnit (q : ℚ) : Int := max (Int.log 2 q - 52) (-1074)

/-- The double nearest to a value. -/
def ofMagnitude (negative : Bool) (q : ℚ) : Double :=
  if q = 0 then zero negative
  else ofCode negative
    ((gridUnit q + 1074).toNat * fractionCount + halfEven (q / 2 ^ gridUnit q))

theorem nearest_eq (negative : Bool) (num : Nat) {den : Nat} (positive : 0 < den) :
    nearest negative num den = ofMagnitude negative (num / den) := by
  unfold nearest ofMagnitude
  by_cases none : num = 0
  · simp [none]
  · have value : (num : ℚ) / den ≠ 0 := by positivity
    rw [if_neg none, if_neg value]
    simp only [binaryExponent_eq (Nat.pos_of_ne_zero none) positive]
    rw [← gridUnit, roundHalfEven_eq (by rw [Nat.shiftLeft_eq]; positivity), Nat.shiftLeft_eq,
      Nat.shiftLeft_eq, scaled_quotient 2, Nat.cast_ofNat]

theorem ofMagnitude_negative (negative : Bool) (q : ℚ) :
    ofMagnitude negative q = { ofMagnitude false q with negative := negative } := by
  unfold ofMagnitude
  split
  · rfl
  · rfl

def magnitude (x : Double) : ℚ := x.significand * 2 ^ x.power

theorem quotient_eq (x : Double) : (x.quotient.1 : ℚ) / x.quotient.2 = x.magnitude := by
  have scaled := scaled_quotient 2 x.significand 1 (-x.power)
  unfold quotient magnitude
  rw [Nat.shiftLeft_eq, Nat.shiftLeft_eq]
  simpa using scaled

theorem quotient_den_pos (x : Double) : 0 < x.quotient.2 := by
  show 0 < 1 <<< _
  rw [Nat.shiftLeft_eq]
  positivity

private theorem ofCode_eq {x : Double} (finite : x.isFinite) (negative : Bool) :
    ofCode negative ((x.power + 1074).toNat * fractionCount + x.significand) =
      { x with negative := negative } := by
  obtain ⟨sign, exponent, fraction⟩ := x
  have below : exponent.val < 2047 := by
    simp only [isFinite, bne_iff_ne, ne_eq] at finite
    omega
  have code : (power ⟨sign, exponent, fraction⟩ + 1074).toNat * fractionCount +
      significand ⟨sign, exponent, fraction⟩ = exponent.val * fractionCount + fraction.val := by
    unfold power significand
    simp only
    split
    · simp_all
    · have shifted : ((max exponent.val 1 : Nat) - 1075 + 1074 : Int).toNat = exponent.val - 1 := by
        omega
      simp only [fractionCount]
      omega
  have small := fraction.isLt
  have inRange : exponent.val * fractionCount + fraction.val < infinityCode := by
    simp only [fractionCount, infinityCode] at small ⊢
    omega
  rw [code]
  simp only [ofCode, Nat.min_eq_left inRange.le, mk.injEq, true_and]
  constructor
  · apply Fin.ext
    simp only [Fin.ofNat, fractionCount] at small ⊢
    omega
  · apply Fin.ext
    simp only [Fin.ofNat, fractionCount] at small ⊢
    omega

/-- Significands have at most 53 digits, and exactly 53 above the least exponent. -/
theorem significand_bounds (x : Double) (nonzero : x.isZero = false) :
    1 ≤ x.significand ∧ x.significand < 2 ^ 53 ∧ (-1074 < x.power → 2 ^ 52 ≤ x.significand) ∧
      -1074 ≤ x.power := by
  simp only [isZero, Bool.and_eq_false_imp, beq_iff_eq, beq_eq_false_iff_ne, ne_eq] at nonzero
  unfold significand power
  split <;> simp only [fractionCount] at * <;> omega

/-- A value close to a double is rounded on the grid of the double, or on the next finer one if it
lies below a power of two. -/
theorem gridUnit_cases {x : Double} (nonzero : x.isZero = false) {q : ℚ}
    (close : |q / 2 ^ x.power - x.significand| < 1 / 4) :
    gridUnit q = x.power ∨ gridUnit q = x.power - 1 ∧ x.significand = 2 ^ 52 ∧ -1074 < x.power := by
  obtain ⟨least, most, full, deepest⟩ := significand_bounds x nonzero
  obtain ⟨above, below⟩ := abs_lt.mp close
  have step : (0 : ℚ) < 2 ^ x.power := by positivity
  have least' : (1 : ℚ) ≤ x.significand := by exact_mod_cast least
  have most' : (x.significand : ℚ) + 1 ≤ 2 ^ 53 := by exact_mod_cast most
  have positive : 0 < q := by
    have scaled : 0 < q / 2 ^ x.power := by linarith
    exact (div_pos_iff_of_pos_right step).mp scaled
  have reaches (k : Nat) : (2 : ℚ) ^ k ≤ q / 2 ^ x.power ↔ x.power + k ≤ Int.log 2 q := by
    rw [← Int.zpow_le_iff_le_log (b := 2) (by decide) positive, le_div_iff₀ step, Nat.cast_ofNat,
      zpow_add₀ (by norm_num), zpow_natCast, mul_comm]
  have notPast : ¬ x.power + 53 ≤ Int.log 2 q := by
    rw [← Nat.cast_ofNat (n := 53), ← reaches]
    linarith
  unfold gridUnit
  -- At the least exponent there is no finer grid. Above it the value has as many digits as the
  -- double, or one less if it falls short of a power of two.
  by_cases bottom : x.power = -1074
  · exact .inl (by omega)
  · have normal : -1074 < x.power := by omega
    have full' : (2 : ℚ) ^ 52 ≤ x.significand := by exact_mod_cast full normal
    have near : x.power + (51 : Nat) ≤ Int.log 2 q := (reaches 51).mp (by linarith)
    by_cases inside : x.power + (52 : Nat) ≤ Int.log 2 q
    · exact .inl (by omega)
    · refine .inr ⟨by omega, ?_, normal⟩
      rw [← reaches] at inside
      have power : (x.significand : ℚ) < 2 ^ 52 + 1 := by linarith
      have power' : x.significand < 2 ^ 52 + 1 := by exact_mod_cast power
      exact le_antisymm (by omega) (full normal)

/-- What lies closer to a double than a quarter of its step is rounded to it. -/
theorem ofMagnitude_eq_of_close {x : Double} (finite : x.isFinite) (nonzero : x.isZero = false)
    {q : ℚ} (close : |q - x.magnitude| < 2 ^ x.power / 4) (negative : Bool) :
    ofMagnitude negative q = { x with negative := negative } := by
  have step : (0 : ℚ) < 2 ^ x.power := by positivity
  have scaled : |q / 2 ^ x.power - x.significand| < 1 / 4 := by
    have distance : q / 2 ^ x.power - x.significand = (q - x.magnitude) / 2 ^ x.power := by
      rw [magnitude, sub_div, mul_div_cancel_right₀ _ step.ne']
    rw [distance, abs_div, abs_of_pos step, div_lt_iff₀ step]
    linarith
  have least : (1 : ℚ) ≤ x.significand := by exact_mod_cast (significand_bounds x nonzero).1
  have positive : 0 < q / 2 ^ x.power := by linarith [(abs_lt.mp scaled).1]
  have value : q ≠ 0 := by
    rintro rfl
    simp at positive
  unfold ofMagnitude
  rw [if_neg value, ← ofCode_eq finite]
  refine congrArg (ofCode negative) ?_
  rcases gridUnit_cases nonzero scaled with same | ⟨finer, power, normal⟩
  · rw [same, halfEven_eq_of_close positive.le (scaled.trans (by norm_num))]
  · -- On the finer grid the significand is twice as large, one more than its digits hold, and the
    -- carry goes into the exponent.
    have doubled : q / 2 ^ (x.power - 1) = 2 * (q / 2 ^ x.power) := by
      rw [zpow_sub_one₀ (by norm_num)]
      field_simp
    have rounded : halfEven (q / 2 ^ (x.power - 1)) = 2 * x.significand := by
      apply halfEven_eq_of_close
      · rw [doubled]
        positivity
      · rw [doubled, Nat.cast_mul, Nat.cast_ofNat, ← mul_sub, abs_mul]
        linarith
    rw [finer]
    simp only [power, fractionCount]
    omega

/-! ### Rounding errors -/

variable {negative : Bool} {q : ℚ}

end Double

open Nat

/-! ### Decimal places -/

namespace Number

private theorem lt_pow_decimalLength (n : Nat) : n < 10 ^ decimalLength n := by
  unfold decimalLength
  split
  next none => simp [none]
  next =>
    exact (length_toDigits_le_iff (by decide) length_toDigits_pos).mp le_rfl

private theorem pow_decimalLength_le {n : Nat} (positive : 0 < n) : 10 ^ (decimalLength n - 1) ≤ n := by
  unfold decimalLength
  rw [if_neg positive.ne']
  by_cases single : (Nat.toDigits 10 n).length = 1
  · rw [single]
    exact positive
  · have many : 0 < (Nat.toDigits 10 n).length - 1 := by
      have some := length_toDigits_pos (b := 10) (n := n)
      omega
    rw [← not_lt, ← length_toDigits_le_iff (by decide) many]
    omega

private theorem pow_decimalExponent_le {num den : Nat} (ofNum : 0 < num) (ofDen : 0 < den) :
    (10 : ℚ) ^ decimalExponent num den ≤ num / den := by
  unfold decimalExponent
  split
  next whole =>
    -- The integer part has as many digits as the exponent says.
    have part : 0 < num / den := div_pos whole ofDen
    have digits : 1 ≤ decimalLength (num / den) := by
      by_contra none
      have bound := lt_pow_decimalLength (num / den)
      rw [show decimalLength (num / den) = 0 by omega] at bound
      omega
    have lower : (10 : ℚ) ^ (decimalLength (num / den) - 1) ≤ (num / den : Nat) := by
      exact_mod_cast pow_decimalLength_le part
    rw [← cast_one, ← cast_sub digits]
    exact lower.trans cast_div_le
  next fraction =>
    -- The reciprocal is at most its ceiling, and the ceiling at most the next power.
    have ceiling : den ≤ num * ((den + num - 1) / num) := by
      have parts := div_add_mod (den + num - 1) num
      have small := mod_lt (den + num - 1) ofNum
      omega
    have bound := lt_pow_decimalLength ((den + num - 1) / num - 1)
    have power : den ≤ num * 10 ^ decimalLength ((den + num - 1) / num - 1) :=
      ceiling.trans (mul_le_mul_left _ (by omega))
    have power' : (den : ℚ) ≤ num * 10 ^ decimalLength ((den + num - 1) / num - 1) := by
      exact_mod_cast power
    rw [zpow_neg, inv_le_comm₀ (by positivity) (by positivity), inv_div,
      div_le_iff₀ (by positivity), mul_comm]
    exact power'

private theorem roundHalfEven_cases (num den : Nat) :
    roundHalfEven num den = num / den ∨ roundHalfEven num den = num / den + 1 := by
  unfold roundHalfEven
  simp only
  split
  · exact .inl rfl
  · split
    · exact .inr rfl
    · omega

end Number

namespace Double

theorem ofDecimal_eq (negative : Bool) (digits : Nat) (exponent : Int) :
    ofDecimal negative digits exponent = ofMagnitude negative (digits * 10 ^ exponent) := by
  have scaled := scaled_quotient 10 digits 1 (-exponent)
  unfold ofDecimal
  rw [nearest_eq negative _ (by simp [pow_eq])]
  congr 1
  simpa [pow_eq] using scaled

private theorem nearestOn_eq (x : Double) (unit : Int) :
    x.nearestOn unit = halfEven (x.magnitude / 10 ^ unit) := by
  have scaled := scaled_quotient 10 x.quotient.1 x.quotient.2 unit
  have positive := x.quotient_den_pos
  unfold nearestOn inUnits
  rw [roundHalfEven_eq (by simp only [pow_eq]; positivity), ← quotient_eq]
  congr 1

variable {x : Double} {unit : Int}

private theorem ofDecimal_of_readsBackOn? {digits : Nat} (found : x.readsBackOn? unit = some digits) :
    ofDecimal false digits unit = x.abs := by
  unfold readsBackOn? at found
  simp only at found
  split at found
  next below above =>
    have rounded := roundHalfEven_cases (x.inUnits unit).1 (x.inUnits unit).2
    cases found
    rw [beq_iff_eq] at below above
    unfold nearestOn
    rcases rounded with same | next
    · rw [same, below]
    · rw [next, above]
  next below _ =>
    cases found
    simpa using below
  next _ above =>
    cases found
    simpa using above
  · cases found

section

variable (finite : x.isFinite) (nonzero : x.isZero = false)
include finite nonzero

private theorem ofDecimal_nearestOn (fine : (10 : ℚ) ^ unit * 10 ^ 17 ≤ x.magnitude) :
    ofDecimal false (x.nearestOn unit) unit = x.abs := by
  rw [ofDecimal_eq, nearestOn_eq]
  apply ofMagnitude_eq_of_close finite nonzero
  have grid : (0 : ℚ) < 10 ^ unit := by positivity
  have most : (x.significand : ℚ) + 1 ≤ 2 ^ 53 := by
    exact_mod_cast (significand_bounds x nonzero).2.1
  have size : x.magnitude < 2 ^ 53 * 2 ^ x.power := by
    unfold magnitude
    gcongr
    linarith
  have moved : |(halfEven (x.magnitude / 10 ^ unit) : ℚ) - x.magnitude / 10 ^ unit| ≤ 1 / 2 :=
    abs_halfEven_sub_le (by unfold magnitude; positivity)
  calc |(halfEven (x.magnitude / 10 ^ unit) : ℚ) * 10 ^ unit - x.magnitude|
      = |(halfEven (x.magnitude / 10 ^ unit) : ℚ) - x.magnitude / 10 ^ unit| * 10 ^ unit := by
        rw [← abs_of_pos grid, ← abs_mul, sub_mul, abs_of_pos grid, div_mul_cancel₀ _ grid.ne']
    _ ≤ 1 / 2 * 10 ^ unit := by gcongr
    _ < 2 ^ x.power / 4 := by linarith

/-- Every try keeps the promise that the digits read back, if the last grid is fine enough. -/
theorem ofDecimal_shortestFrom {fuel : Nat} (fine : (10 : ℚ) ^ (unit - fuel) * 10 ^ 17 ≤ x.magnitude) :
    ofDecimal false (x.shortestFrom fuel unit).1 (x.shortestFrom fuel unit).2 = x.abs := by
  induction fuel generalizing unit with
  | zero =>
    rw [cast_zero, Int.sub_zero] at fine
    exact ofDecimal_nearestOn finite nonzero fine
  | succ fuel ih =>
    unfold shortestFrom
    split
    next digits found => exact ofDecimal_of_readsBackOn? found
    next =>
      apply ih
      rwa [cast_succ, show unit - (fuel + 1 : Int) = unit - 1 - fuel by ring] at fine

theorem ofMagnitude_shortest :
    ofMagnitude false (x.shortest.1 * 10 ^ x.shortest.2) = x.abs := by
  have num : 0 < x.quotient.1 := by
    have least := (significand_bounds x nonzero).1
    show 0 < x.significand <<< _
    rw [shiftLeft_eq]
    positivity
  have lower := pow_decimalExponent_le num x.quotient_den_pos
  rw [quotient_eq] at lower
  rw [← ofDecimal_eq]
  apply ofDecimal_shortestFrom finite nonzero
  rw [zpow_sub₀ (by norm_num), div_mul_eq_mul_div, cast_ofNat]
  have cancel : (10 : ℚ) ^ (17 : Int) = 10 ^ 17 := by norm_cast
  rw [cancel, mul_div_cancel_right₀ _ (by norm_num)]
  exact lower

theorem shortest_pos : 0 < x.shortest.1 := by
  by_contra none
  have rounds := ofMagnitude_shortest finite nonzero
  rw [show x.shortest.1 = 0 by omega, cast_zero, zero_mul] at rounds
  have zero : x.abs.isZero := by
    rw [← rounds]
    decide
  rw [show x.abs.isZero = x.isZero from rfl, nonzero] at zero
  cases zero

end

end Double

end Crosstab
