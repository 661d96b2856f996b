import FdpRocks.Library.PythonText

/-! # Doubles

The values of binary64 arithmetic, finite ones as the numbers they stand for,
and Python's `float` of a text.  Zeros of both signs are one value: only
comparisons are made of the results.
-/

namespace FdpRocks.Library

open Numerals PythonText

inductive Double where
  | finite (value : ℚ)
  | infinity (negative : Bool)
  | nan
deriving DecidableEq

namespace Double

/-- To the nearest double, halves to the even one; subnormal ones have a fixed
    unit, and beyond the largest one there is infinity. -/
def round (value : ℚ) : Double :=
  let unit : ℚ := 2 ^ max (Int.log 2 |value| - 52) (-1074)
  let nearest := roundHalfEven (value / unit) * unit
  if |nearest| < 2 ^ 1024 then .finite nearest else .infinity (decide (value < 0))

def neg : Double → Double
  | finite value => finite (-value)
  | infinity negative => infinity (!negative)
  | nan => nan

def sub : Double → Double → Double
  | nan, _ | _, nan => nan
  | finite left, finite right => round (left - right)
  | infinity negative, finite _ => infinity negative
  | finite _, infinity negative => infinity (!negative)
  | infinity left, infinity right => if left = right then nan else infinity left

def abs : Double → Double
  | finite value => finite |value|
  | infinity _ => infinity false
  | nan => nan

/-- `left < right`, which is never so of a NaN. -/
def less : Double → Double → Bool
  | nan, _ | _, nan => false
  | finite left, finite right => decide (left < right)
  | finite _, infinity negative => !negative
  | infinity negative, finite _ => negative
  | infinity left, infinity right => left && !right

/-- The number that the bits of a finite double stand for. -/
def ofBits (bits : UInt64) : ℚ :=
  let fraction : ℕ := bits.toNat % 2 ^ 52
  let exponent : ℕ := bits.toNat / 2 ^ 52 % 2 ^ 11
  let magnitude : ℚ :=
    if exponent = 0 then fraction * 2 ^ (-1074 : ℤ)
    else (2 ^ 52 + fraction) * 2 ^ ((exponent : ℤ) - 1075)
  if bits.toNat / 2 ^ 63 = 1 then -magnitude else magnitude

/-- A number that is not negative is at least the power of its exponent. -/
theorem le_ofBits {bits : UInt64} {exponent : ℕ} (known : bits.toNat / 2 ^ 52 = exponent)
    (normal : 0 < exponent) (positive : exponent < 2 ^ 11) :
    2 ^ ((exponent : ℤ) - 1023) ≤ ofBits bits := by
  have sign : ¬ bits.toNat / 2 ^ 63 = 1 := by omega
  have field : exponent % 2 ^ 11 = exponent := Nat.mod_eq_of_lt positive
  have fraction : (0 : ℚ) ≤ (bits.toNat % 2 ^ 52 : ℕ) := Nat.cast_nonneg _
  have unit : (0 : ℚ) ≤ 2 ^ ((exponent : ℤ) - 1075) := by positivity
  rw [ofBits, if_neg sign, known, field, if_neg normal.ne']
  calc (2 : ℚ) ^ ((exponent : ℤ) - 1023) = 2 ^ 52 * 2 ^ ((exponent : ℤ) - 1075) := by
        rw [← zpow_natCast, ← zpow_add₀ two_ne_zero]
        congr 1
        push_cast
        ring
    _ ≤ _ := mul_le_mul_of_nonneg_right (by linarith) unit

@[simp] theorem round_zero : round 0 = finite 0 := by simp [round, roundHalfEven]

theorem roundHalfEven_near (value : ℚ) : |(roundHalfEven value : ℚ) - value| ≤ 1 / 2 := by
  have low := Int.floor_le value
  have high := Int.lt_floor_add_one value
  unfold roundHalfEven
  dsimp only
  split
  next down =>
    have gap : value - ⌊value⌋ ≤ 1 / 2 := by
      rcases down with less | ⟨tie, _⟩
      · exact less.le
      · exact tie.le
    rw [abs_le]
    exact ⟨by linarith, by linarith⟩
  next up =>
    rw [not_or, not_lt] at up
    rw [abs_le]
    push_cast
    exact ⟨by linarith [up.1], by linarith [up.1]⟩

theorem abs_roundHalfEven_le {bound : ℤ} {value : ℚ} (atMost : |value| ≤ bound) :
    |(roundHalfEven value : ℚ)| ≤ bound := by
  obtain ⟨low, high⟩ := abs_le.mp atMost
  have above := roundHalfEven_mono high
  have below := @roundHalfEven_mono ((-bound : ℤ) : ℚ) value (by push_cast; exact low)
  rw [roundHalfEven_intCast] at above below
  rw [abs_le]
  exact ⟨by exact_mod_cast below, by exact_mod_cast above⟩

theorem le_abs_roundHalfEven {bound : ℤ} {value : ℚ} (atLeast : (bound : ℚ) ≤ |value|) :
    (bound : ℚ) ≤ |(roundHalfEven value : ℚ)| := by
  rcases le_abs.mp atLeast with above | below
  · have rounded := roundHalfEven_mono above
    rw [roundHalfEven_intCast] at rounded
    exact le_abs.mpr (.inl (by exact_mod_cast rounded))
  · have other : value ≤ ((-bound : ℤ) : ℚ) := by
      push_cast
      linarith
    have rounded := roundHalfEven_mono other
    rw [roundHalfEven_intCast] at rounded
    have cast : (roundHalfEven value : ℚ) ≤ -bound := by exact_mod_cast rounded
    exact le_abs.mpr (.inr (by linarith))

/-! ### Errors -/

/-- The distance of neighbouring doubles at a number. -/
def ulp (value : ℚ) : ℚ := 2 ^ max (Int.log 2 |value| - 52) (-1074)

theorem ulp_pos (value : ℚ) : 0 < ulp value := by
  unfold ulp
  positivity

/-- To the nearest double, as if there was none too large. -/
def rounded (value : ℚ) : ℚ := roundHalfEven (value / ulp value) * ulp value

theorem round_eq (value : ℚ) : round value
    = if |rounded value| < 2 ^ 1024 then finite (rounded value) else infinity (decide (value < 0)) := rfl

theorem rounded_error_ulp (value : ℚ) : |rounded value - value| ≤ ulp value / 2 := by
  have near := roundHalfEven_near (value / ulp value)
  have scaled : rounded value - value
      = (roundHalfEven (value / ulp value) - value / ulp value) * ulp value := by
    rw [rounded, sub_mul, div_mul_cancel₀ _ (ulp_pos value).ne']
  rw [scaled, abs_mul, abs_of_pos (ulp_pos value)]
  calc |(roundHalfEven (value / ulp value) : ℚ) - value / ulp value| * ulp value
    _ ≤ 1 / 2 * ulp value := mul_le_mul_of_nonneg_right near (ulp_pos value).le
    _ = ulp value / 2 := by ring

@[simp] theorem rounded_zero : rounded 0 = 0 := by simp [rounded, roundHalfEven]

/-- Relative to normal numbers, absolute to subnormal ones. -/
theorem rounded_error (value : ℚ) : |rounded value - value| ≤ |value| / 2 ^ 53 + 2 ^ (-1075 : ℤ) := by
  by_cases zero : value = 0
  · rw [zero, rounded_zero, sub_self, abs_zero, zero_div, zero_add]
    positivity
  · have error := rounded_error_ulp value
    have positive : 0 < |value| := abs_pos.mpr zero
    have power := Int.zpow_log_le_self (b := 2) (by norm_num) positive
    rcases max_choice (Int.log 2 |value| - 52) (-1074) with normal | subnormal
    · have unit : ulp value ≤ |value| / 2 ^ 52 := by
        unfold ulp
        rw [normal, zpow_sub₀ two_ne_zero]
        exact div_le_div_of_nonneg_right power (by positivity)
      calc |rounded value - value|
        _ ≤ ulp value / 2 := error
        _ ≤ |value| / 2 ^ 52 / 2 := by linarith
        _ = |value| / 2 ^ 53 := by ring
        _ ≤ |value| / 2 ^ 53 + 2 ^ (-1075 : ℤ) := le_add_of_nonneg_right (by positivity)
    · have unit : ulp value = 2 ^ (-1074 : ℤ) := by
        unfold ulp
        rw [subnormal]
      have half : (2 : ℚ) ^ (-1074 : ℤ) / 2 = 2 ^ (-1075 : ℤ) := by
        rw [show (-1074 : ℤ) = -1075 + 1 by norm_num, zpow_add₀ two_ne_zero, zpow_one]
        ring
      rw [unit, half] at error
      exact error.trans (le_add_of_nonneg_left (by positivity))

theorem round_finite {value number : ℚ} (rounds : round value = finite number) :
    number = rounded value ∧ |number| < 2 ^ 1024 := by
  rw [round_eq] at rounds
  split at rounds
  next inRange =>
    cases rounds
    exact ⟨rfl, inRange⟩
  next => cases rounds

theorem round_error {value number : ℚ} (rounds : round value = finite number) :
    |number - value| ≤ |value| / 2 ^ 53 + 2 ^ (-1075 : ℤ) := by
  obtain ⟨rfl, _⟩ := round_finite rounds
  exact rounded_error value

/-- A number between doubles is not rounded past them. -/
theorem rounded_within {value bound : ℚ} (exact : rounded bound = bound) (within : |value| ≤ bound) :
    |rounded value| ≤ bound := by
  have nonneg : 0 ≤ bound := (abs_nonneg value).trans within
  by_cases zero : value = 0
  · rw [zero, rounded_zero, abs_zero]
    exact nonneg
  -- the bound is a multiple of the smaller unit too
  have exponents : max (Int.log 2 |value| - 52) (-1074) ≤ max (Int.log 2 |bound| - 52) (-1074) := by
    have logs : Int.log 2 |value| ≤ Int.log 2 |bound| := by
      rw [abs_of_nonneg nonneg]
      exact Int.log_mono_right (abs_pos.mpr zero) within
    exact max_le_max_right _ (by omega)
  obtain ⟨steps, apart⟩ := Int.le.dest exponents
  have units : ulp bound = 2 ^ steps * ulp value := by
    unfold ulp
    rw [← apart, zpow_add₀ two_ne_zero, zpow_natCast, mul_comm]
  obtain ⟨whole, same⟩ : ∃ whole : ℤ, bound = whole * ulp value := by
    refine ⟨roundHalfEven (bound / ulp bound) * 2 ^ steps, ?_⟩
    conv_lhs => rw [← exact, rounded]
    rw [units]
    push_cast
    ring
  have scaled : |value / ulp value| ≤ whole := by
    rw [abs_div, abs_of_pos (ulp_pos value), div_le_iff₀ (ulp_pos value), ← same]
    exact within
  rw [rounded, abs_mul, abs_of_pos (ulp_pos value), same]
  exact mul_le_mul_of_nonneg_right (abs_roundHalfEven_le scaled) (ulp_pos value).le

theorem round_within {value bound : ℚ} (exact : round bound = finite bound) (within : |value| ≤ bound) :
    ∃ number, round value = finite number ∧ |number| ≤ bound := by
  obtain ⟨same, inRange⟩ := round_finite exact
  have below := rounded_within same.symm within
  rw [abs_of_nonneg ((abs_nonneg value).trans within)] at inRange
  exact ⟨_, by rw [round_eq, if_pos (below.trans_lt inRange)], below⟩

/-- Below 2^40, the nearest double is not far. -/
theorem round_near {value : ℚ} (small : |value| < 2 ^ 40) :
    ∃ number, round value = finite number ∧ |number - value| ≤ 1 / 2 ^ 14 := by
  have exact : round (2 ^ 40) = finite (2 ^ 40) := by decide +kernel
  obtain ⟨number, rounds, _⟩ := round_within exact small.le
  have exponent : Int.log 2 |value| < 40 := by
    rcases eq_or_lt_of_le (abs_nonneg value) with zero | positive
    · rw [← zero]
      norm_num
    · rw [← Int.lt_zpow_iff_log_lt (by norm_num) positive]
      exact_mod_cast small
  have unit : ulp value ≤ 2 ^ (-13 : ℤ) := by
    apply zpow_le_zpow_right₀ (by norm_num)
    apply max_le _ (by norm_num)
    omega
  obtain ⟨rfl, _⟩ := round_finite rounds
  refine ⟨_, rounds, (rounded_error_ulp value).trans ?_⟩
  calc ulp value / 2 ≤ 2 ^ (-13 : ℤ) / 2 := div_le_div_of_nonneg_right unit (by norm_num)
    _ = 1 / 2 ^ 14 := by norm_num

/-! ### Order -/

/-- A multiple of its own unit is a double. -/
theorem rounded_multiple {value : ℚ} {count : ℤ} (multiple : value = count * ulp value) :
    rounded value = value := by
  have whole : value / ulp value = count := by
    rw [div_eq_iff (ulp_pos value).ne']
    exact multiple
  rw [rounded, whole, roundHalfEven_intCast, ← multiple]

/-- The integers that need no more than 53 bits are doubles. -/
theorem rounded_intCast {count : ℤ} (small : |count| ≤ 2 ^ 53) : rounded count = count := by
  rcases eq_or_ne count 0 with rfl | nonzero
  · simp
  rcases eq_or_lt_of_le small with largest | less
  · rcases eq_or_eq_neg_of_abs_eq largest with rfl | rfl <;> decide +kernel
  have size : |(count : ℚ)| = (|count|.toNat : ℕ) := by
    rw [← Int.cast_abs, ← Int.cast_natCast, Int.toNat_of_nonneg (abs_nonneg count)]
  have positive : 0 < |(count : ℚ)| := by simpa using nonzero
  have low : 0 ≤ Int.log 2 |(count : ℚ)| := by
    rw [size, Int.log_natCast]
    positivity
  have high : Int.log 2 |(count : ℚ)| < 53 := by
    rw [← Int.lt_zpow_iff_log_lt (by norm_num) positive, ← Int.cast_abs]
    exact_mod_cast less
  obtain ⟨steps, exponent⟩ := Int.le.dest (show Int.log 2 |(count : ℚ)| - 52 ≤ 0 by omega)
  apply @rounded_multiple _ (count * 2 ^ steps)
  have unit : ulp count = 2 ^ (-(steps : ℤ)) := by
    rw [ulp, max_eq_left (by omega)]
    congr 1
    omega
  rw [unit, zpow_neg, zpow_natCast]
  push_cast
  rw [mul_assoc, mul_inv_cancel₀ (by positivity), mul_one]

theorem round_intCast {count : ℤ} (small : |count| ≤ 2 ^ 53) : round count = finite count := by
  have inRange : |(count : ℚ)| < 2 ^ 1024 :=
    calc |(count : ℚ)| ≤ 2 ^ 53 := by
          rw [← Int.cast_abs]
          exact_mod_cast small
      _ < 2 ^ 1024 := pow_lt_pow_right₀ (by norm_num) (by norm_num)
  rw [round_eq, rounded_intCast small, if_pos inRange]

theorem rounded_nonneg {value : ℚ} (nonneg : 0 ≤ value) : 0 ≤ rounded value := by
  have atLeast := @roundHalfEven_mono ((0 : ℤ) : ℚ) (value / ulp value)
    (by push_cast; exact div_nonneg nonneg (ulp_pos value).le)
  rw [roundHalfEven_intCast] at atLeast
  exact mul_nonneg (by exact_mod_cast atLeast) (ulp_pos value).le

theorem round_nonneg {value number : ℚ} (nonneg : 0 ≤ value) (rounds : round value = finite number) :
    0 ≤ number := by
  obtain ⟨rfl, _⟩ := round_finite rounds
  exact rounded_nonneg nonneg

/-- A power of two that is not too small is a double. -/
theorem rounded_power {exponent : ℤ} (notTiny : -1074 ≤ exponent) :
    rounded (2 ^ exponent) = 2 ^ exponent := by
  have size : Int.log 2 |(2 : ℚ) ^ exponent| = exponent := by
    rw [abs_of_pos (by positivity)]
    exact Int.log_zpow (by norm_num) exponent
  obtain ⟨steps, power⟩ := Int.le.dest (show max (exponent - 52) (-1074) ≤ exponent by omega)
  apply @rounded_multiple _ (2 ^ steps)
  rw [ulp, size]
  conv_lhs => rw [← power, zpow_add₀ two_ne_zero, zpow_natCast, mul_comm]
  push_cast
  rfl

/-- The power of two below a normal number is not above what it is rounded to. -/
theorem power_le_abs_rounded {value : ℚ} (nonzero : value ≠ 0) (normal : -1022 ≤ Int.log 2 |value|) :
    2 ^ Int.log 2 |value| ≤ |rounded value| := by
  have power : (2 : ℚ) ^ Int.log 2 |value| = ((2 ^ 52 : ℤ) : ℚ) * ulp value := by
    rw [ulp, max_eq_left (by omega), zpow_sub₀ two_ne_zero]
    push_cast
    field_simp
  have units : ((2 ^ 52 : ℤ) : ℚ) ≤ |value / ulp value| := by
    rw [abs_div, abs_of_pos (ulp_pos value), le_div_iff₀ (ulp_pos value), ← power]
    exact Int.zpow_log_le_self (by norm_num) (abs_pos.mpr nonzero)
  rw [power, rounded, abs_mul, abs_of_pos (ulp_pos value)]
  exact mul_le_mul_of_nonneg_right (le_abs_roundHalfEven units) (ulp_pos value).le

/-- Rounding keeps the order. -/
theorem rounded_mono {value other : ℚ} (nonneg : 0 ≤ value) (ordered : value ≤ other) :
    rounded value ≤ rounded other := by
  rcases eq_or_lt_of_le nonneg with rfl | positive
  · rw [rounded_zero]
    exact rounded_nonneg ordered
  have otherPositive : 0 < other := positive.trans_le ordered
  have size : |value| = value := abs_of_pos positive
  have otherSize : |other| = other := abs_of_pos otherPositive
  have logs : Int.log 2 |value| ≤ Int.log 2 |other| := by
    rw [size, otherSize]
    exact Int.log_mono_right positive ordered
  by_cases same : ulp value = ulp other
  · unfold rounded
    rw [same]
    apply mul_le_mul_of_nonneg_right _ (ulp_pos other).le
    exact_mod_cast roundHalfEven_mono (div_le_div_of_nonneg_right ordered (ulp_pos other).le)
  · -- a power of two stands between the two, and is a double itself
    have apart : max (Int.log 2 |value| - 52) (-1074) < Int.log 2 |other| - 52 := by
      by_contra close
      apply same
      unfold ulp
      congr 1
      omega
    have below : |value| ≤ 2 ^ Int.log 2 |other| := by
      have closer : Int.log 2 |value| < Int.log 2 |other| := by omega
      rw [← Int.lt_zpow_iff_log_lt (by norm_num) (abs_pos.mpr positive.ne')] at closer
      exact closer.le
    calc rounded value
      _ ≤ |rounded value| := le_abs_self _
      _ ≤ 2 ^ Int.log 2 |other| := rounded_within (rounded_power (by omega)) below
      _ ≤ |rounded other| := power_le_abs_rounded otherPositive.ne' (by omega)
      _ = rounded other := abs_of_nonneg (rounded_nonneg otherPositive.le)

/-- A number below a double is not rounded past it. -/
theorem rounded_le {value : ℚ} {bound : ℤ} (nonneg : 0 ≤ value) (atMost : value ≤ bound)
    (small : |bound| ≤ 2 ^ 53) : rounded value ≤ bound :=
  rounded_intCast small ▸ rounded_mono nonneg atMost

/-- A relative error of the numbers up to a bound is an absolute one. -/
theorem rounded_error_of_le {value bound : ℚ} (nonneg : 0 ≤ value) (atMost : value ≤ bound)
    (one : 1 ≤ bound) : |rounded value - value| ≤ bound / 2 ^ 52 := by
  have error := rounded_error value
  have tiny : (2 : ℚ) ^ (-1075 : ℤ) ≤ 1 / 2 ^ 53 := by
    rw [one_div, ← zpow_natCast, ← zpow_neg]
    exact zpow_le_zpow_right₀ (by norm_num) (by norm_num)
  rw [abs_of_nonneg nonneg] at error
  calc |rounded value - value|
    _ ≤ value / 2 ^ 53 + 2 ^ (-1075 : ℤ) := error
    _ ≤ bound / 2 ^ 53 + bound / 2 ^ 53 := by
      have share : value / 2 ^ 53 ≤ bound / 2 ^ 53 := div_le_div_of_nonneg_right atMost (by norm_num)
      have unit : (1 : ℚ) / 2 ^ 53 ≤ bound / 2 ^ 53 := div_le_div_of_nonneg_right one (by norm_num)
      linarith
    _ = bound / 2 ^ 52 := by ring

theorem round_mono {value other number greater : ℚ} (nonneg : 0 ≤ value) (ordered : value ≤ other)
    (rounds : round value = finite number) (alsoRounds : round other = finite greater) :
    number ≤ greater := by
  obtain ⟨rfl, _⟩ := round_finite rounds
  obtain ⟨rfl, _⟩ := round_finite alsoRounds
  exact rounded_mono nonneg ordered

/-- The nearest double, if there is a finite one. -/
def nearest (value : ℚ) : Option ℚ :=
  match round value with
  | finite number => some number
  | infinity _ | nan => none

theorem nearest_eq_some {value number : ℚ} :
    nearest value = some number ↔ round value = finite number := by
  unfold nearest
  cases round value <;> simp

theorem exists_nearest {value : ℚ} (inRange : |value| ≤ 2 ^ 1023) :
    ∃ number, nearest value = some number := by
  have exact : round (2 ^ 1023) = finite (2 ^ 1023) := by decide +kernel
  obtain ⟨number, rounds, _⟩ := round_within exact inRange
  exact ⟨number, nearest_eq_some.mpr rounds⟩

/-- The number does not overflow. -/
def Fits (value : ℚ) : Prop := |value| < 2 ^ 1024 - 2 ^ 970

instance : DecidablePred Fits := fun value => inferInstanceAs (Decidable (|value| < _))

theorem fits_of_le {value : ℚ} (inRange : |value| ≤ 2 ^ 1023) : Fits value :=
  inRange.trans_lt (by decide +kernel)

/-- The half above the largest significand already goes up. -/
theorem roundHalfEven_significand (value : ℚ) :
    |roundHalfEven value| < 2 ^ 53 ↔ |value| < 2 ^ 53 - 1 / 2 := by
  have above := @le_roundHalfEven (2 ^ 53) value
  have below := @le_roundHalfEven (-2 ^ 53 + 1) value
  norm_num at above below
  rw [abs_lt, abs_lt]
  constructor
  · rintro ⟨low, high⟩
    refine ⟨?_, ?_⟩
    · have reached := below.mp (by omega)
      linarith
    · by_contra larger
      rw [not_lt] at larger
      rcases eq_or_lt_of_le larger with tie | more
      · exact absurd (above.mpr (.inr (by linarith))) (by omega)
      · exact absurd (above.mpr (.inl (by linarith))) (by omega)
  · rintro ⟨low, high⟩
    refine ⟨?_, ?_⟩
    · have reached := below.mpr (by linarith)
      omega
    · by_contra larger
      rw [not_lt] at larger
      rcases above.mp (by omega) with more | tie <;> linarith

theorem exists_nearest_iff {value : ℚ} :
    (∃ number, nearest value = some number) ↔ |rounded value| < 2 ^ 1024 := by
  simp only [nearest_eq_some, round_eq]
  split
  next inRange => exact iff_of_true ⟨_, rfl⟩ inRange
  next overflows => exact iff_of_false (by simp) overflows

/-- `Fits` is what the rounding says. -/
theorem fits_iff {value : ℚ} : Fits value ↔ ∃ number, nearest value = some number := by
  rcases le_or_gt |value| (2 ^ 1023) with small | large
  · exact iff_of_true (fits_of_le small) (exists_nearest small)
  have positive : 0 < |value| := lt_trans (by positivity) large
  have exponent : 1023 ≤ Int.log 2 |value| := by
    rw [← Int.zpow_le_iff_le_log (by norm_num) positive]
    exact_mod_cast large.le
  rw [exists_nearest_iff, Fits]
  rcases le_or_gt 1024 (Int.log 2 |value|) with beyond | within
  · -- a power of two that is too large stands below the number and its rounding
    have atLeast : (2 : ℚ) ^ 1024 ≤ 2 ^ Int.log 2 |value| := by
      exact_mod_cast zpow_le_zpow_right₀ (a := (2 : ℚ)) (by norm_num) beyond
    have power : (2 : ℚ) ^ Int.log 2 |value| ≤ |value| := Int.zpow_log_le_self (by norm_num) positive
    refine iff_of_false (not_lt.mpr ?_) (not_lt.mpr ?_)
    · exact (sub_le_self _ (by positivity)).trans (atLeast.trans power)
    · exact atLeast.trans (power_le_abs_rounded (abs_pos.mp positive) (by omega))
  · -- the unit is known, and the question is one about the significand
    have unit : ulp value = 2 ^ 971 := by
      rw [ulp, max_eq_left (by omega), show Int.log 2 |value| - 52 = (971 : ℕ) by omega, zpow_natCast]
    have top : (2 : ℚ) ^ 1024 = 2 ^ 53 * 2 ^ 971 := by rw [← pow_add]
    have half : (2 ^ 53 - 1 / 2) * (2 : ℚ) ^ 971 = 2 ^ 1024 - 2 ^ 970 := by
      rw [sub_mul, ← top, pow_succ' (2 : ℚ) 970, one_div, inv_mul_cancel_left₀ two_ne_zero]
    have whole := roundHalfEven_significand (value / ulp value)
    rw [abs_div, abs_of_pos (ulp_pos value), div_lt_iff₀ (ulp_pos value), unit, half] at whole
    rw [rounded, abs_mul, abs_of_pos (ulp_pos value), unit, ← whole, top,
      mul_lt_mul_iff_left₀ (by positivity), ← Int.cast_abs]
    exact_mod_cast Iff.rfl

end Double

/-! ## `float` -/

namespace Float

variable (unicode : Unicode)

/-- Digits, with single underscores between them. -/
def digitPart (text : List Char) : Option (List Char) :=
  let pieces := text.splitOn '_'
  if pieces.all fun piece => piece ≠ [] && piece.all unicode.isDigit then some pieces.flatten
  else none

/-- The digits of a number without its exponent, and how many of them stand
    behind the point. -/
def digitsAndPlaces (text : List Char) : Option (List Char × ℕ) :=
  match text.splitOn '.' with
  | [whole] => (digitPart unicode whole).map fun digits => (digits, 0)
  | [whole, []] => (digitPart unicode whole).map fun digits => (digits, 0)
  | [[], fraction] => (digitPart unicode fraction).map fun digits => (digits, digits.length)
  | [whole, fraction] => do
    let before ← digitPart unicode whole
    let behind ← digitPart unicode fraction
    return (before ++ behind, behind.length)
  | _ => none

def isMinus : List Char → Bool
  | '-' :: _ => true
  | _ => false

def dropSign : List Char → List Char
  | '-' :: rest | '+' :: rest => rest
  | rest => rest

def exponent : List Char → Option ℤ
  | [] => some 0
  | _ :: text =>
    (digitPart unicode (dropSign text)).map fun digits =>
      if isMinus text then -(unicode.int digits : ℤ) else unicode.int digits

/-- A number, exactly. -/
def number (text : List Char) : Option ℚ := do
  let isExponent := fun character : Char => character = 'e' || character = 'E'
  let (digits, places) ← digitsAndPlaces unicode (text.takeWhile fun character => !isExponent character)
  let power ← exponent unicode (text.dropWhile fun character => !isExponent character)
  return (unicode.int digits : ℚ) * 10 ^ (power - places)

def magnitude (text : List Char) : Option Double :=
  let lower := text.map Char.toLower
  if lower = "inf".toList ∨ lower = "infinity".toList then some (.infinity false)
  else if lower = "nan".toList then some .nan
  else (number unicode text).map Double.round

/-- What may stand around a number: of ASCII only the white space of C, which is less
    than `strip` takes away. -/
def isBlank (character : Char) : Bool :=
  if character.toNat < 128 then character ∈ [' ', '\t', '\n', '\x0b', '\x0c', '\r']
  else unicode.isSpace character

/-- `float (text)`; `none` is `ValueError`. -/
def float (text : List Char) : Option Double :=
  let stripped := trim (isBlank unicode) text
  let value := magnitude unicode (dropSign stripped)
  if isMinus stripped then value.map Double.neg else value

example : number .ascii "1_2.5E-1".toList = some (5 / 4) := by decide +kernel
example : float .ascii " +Inf\n".toList = some (.infinity false) := by decide
example : float .ascii "\x1cnan".toList = none := by decide +kernel

/-! ## Printed numbers -/

section Printed

variable {unicode} {text : List Char}

theorem isBlank_visible {character : Char} (visible : unicode.isSpace character = false) :
    isBlank unicode character = false := by
  unfold isBlank
  split
  next ascii =>
    rw [unicode.isSpace_ascii character ascii] at visible
    simp only [isAsciiSpace, decide_eq_false_iff_not, List.mem_cons, List.not_mem_nil, or_false, not_or]
      at visible ⊢
    tauto
  next => exact visible

/-- A text without a sign in front. -/
theorem float_unsigned (visible : ∀ character ∈ text, unicode.isSpace character = false)
    (noMinus : '-' ∉ text) (noPlus : '+' ∉ text) : float unicode text = magnitude unicode text := by
  have positive : isMinus text = false := by
    cases text with
    | nil => rfl
    | cons head text =>
      have different : head ≠ '-' := (List.ne_of_not_mem_cons noMinus).symm
      simp [isMinus, different]
  have whole : dropSign text = text := by
    cases text with
    | nil => rfl
    | cons head text =>
      have noMinusHere : head ≠ '-' := (List.ne_of_not_mem_cons noMinus).symm
      have noPlusHere : head ≠ '+' := (List.ne_of_not_mem_cons noPlus).symm
      simp [dropSign, noMinusHere, noPlusHere]
  unfold float
  dsimp only
  rw [trim_kept fun character member => isBlank_visible (visible character member), positive, whole,
    if_neg Bool.false_ne_true]

theorem digitPart_digits (nonempty : text ≠ []) (digits : ∀ character ∈ text, character.isDigit = true) :
    digitPart unicode text = some text := by
  have alone : '_' ∉ text := fun member => absurd (digits _ member) (by decide)
  have all : text.all unicode.isDigit = true :=
    List.all_eq_true.mpr fun character member => unicode.isDigit_of_digit (digits character member)
  unfold digitPart
  dsimp only
  rw [List.splitOn_eq_singleton alone]
  simp [nonempty, all]

theorem digitPart_letter {head : Char} (noDigit : unicode.isDigit head = false) (noBar : head ≠ '_') :
    digitPart unicode (head :: text) = none := by
  obtain ⟨piece, pieces, split⟩ := List.exists_cons_of_ne_nil (List.splitOn_ne_nil '_' text)
  have pieces : (head :: text).splitOn '_' = (head :: piece) :: pieces := by
    rw [List.splitOn_cons_eq_if_modifyHead, split]
    simp [noBar]
  unfold digitPart
  dsimp only
  rw [pieces]
  simp [noDigit]

/-- A word is no number. -/
theorem number_word {head : Char} (noDigit : unicode.isDigit head = false)
    (letter : head ∉ ['_', '.', 'e', 'E']) : number unicode (head :: text) = none := by
  simp only [List.mem_cons, List.not_mem_nil, or_false, not_or] at letter
  obtain ⟨noBar, noPoint, noE, noUpperE⟩ := letter
  have parts : ∀ rest, digitsAndPlaces unicode (head :: rest) = none := by
    intro rest
    obtain ⟨piece, pieces, split⟩ := List.exists_cons_of_ne_nil (List.splitOn_ne_nil '.' rest)
    have whole : (head :: rest).splitOn '.' = (head :: piece) :: pieces := by
      rw [List.splitOn_cons_eq_if_modifyHead, split]
      simp [noPoint]
    have first := @digitPart_letter unicode piece head noDigit noBar
    unfold digitsAndPlaces
    rw [whole]
    cases pieces with
    | nil => simp [first]
    | cons second pieces =>
      cases pieces with
      | nil => cases second <;> simp [first]
      | cons third pieces => simp
  unfold number
  dsimp only
  rw [List.takeWhile_cons_of_pos (by simp [noE, noUpperE]), parts]
  rfl

theorem float_word {head : Char} (visible : ∀ character ∈ head :: text, unicode.isSpace character = false)
    (noMinus : '-' ∉ head :: text) (noPlus : '+' ∉ head :: text)
    (noDigit : unicode.isDigit head = false) (letter : head ∉ ['_', '.', 'e', 'E'])
    (named : head.toLower ∉ ['i', 'n']) : float unicode (head :: text) = none := by
  simp only [List.mem_cons, List.not_mem_nil, or_false, not_or] at named
  rw [float_unsigned visible noMinus noPlus]
  simp [magnitude, named, number_word noDigit letter]

theorem digitsAndPlaces_digits {whole fraction : List Char} (someWhole : whole ≠ []) (someFraction : fraction ≠ [])
    (digits : ∀ character ∈ whole ++ fraction, character.isDigit = true) :
    digitsAndPlaces unicode (whole ++ '.' :: fraction) = some (whole ++ fraction, fraction.length) := by
  have wholeDigits : ∀ character ∈ whole, character.isDigit = true :=
    fun character member => digits character (List.mem_append_left _ member)
  have fractionDigits : ∀ character ∈ fraction, character.isDigit = true :=
    fun character member => digits character (List.mem_append_right _ member)
  have parts : (whole ++ '.' :: fraction).splitOn '.' = [whole, fraction] := by
    have inWhole : '.' ∉ whole := fun member => absurd (wholeDigits _ member) (by decide)
    have inFraction : '.' ∉ fraction := fun member => absurd (fractionDigits _ member) (by decide)
    rw [List.splitOn_append_cons_self_of_not_mem inWhole, List.splitOn_eq_singleton inFraction]
  unfold digitsAndPlaces
  rw [parts]
  cases whole with
  | nil => exact absurd rfl someWhole
  | cons first whole =>
    cases fraction with
    | nil => exact absurd rfl someFraction
    | cons second fraction =>
      dsimp only
      rw [digitPart_digits someWhole wholeDigits, digitPart_digits someFraction fractionDigits]
      rfl

theorem number_pointed (places scaled : ℕ) :
    number unicode (pointed (places + 1) scaled) = some ((scaled : ℚ) / 10 ^ (places + 1)) := by
  obtain ⟨whole, fraction, text, digits, someWhole, count, value, _⟩ := pointed_parts (places + 1) scaled
  have someFraction : fraction ≠ [] := List.ne_nil_of_length_pos (by omega)
  have plain : ∀ character ∈ pointed (places + 1) scaled,
      (!(decide (character = 'e') || decide (character = 'E'))) = true := by
    intro character member
    have noE : character ≠ 'e' := by
      rintro rfl
      exact not_mem_pointed (by decide) (by decide) _ _ member
    have noUpperE : character ≠ 'E' := by
      rintro rfl
      exact not_mem_pointed (by decide) (by decide) _ _ member
    simp [noE, noUpperE]
  unfold number
  dsimp only
  rw [List.takeWhile_eq_self_iff.mpr plain, List.dropWhile_eq_nil_iff.mpr plain, text,
    digitsAndPlaces_digits someWhole someFraction digits, exponent, Option.bind_eq_bind, Option.bind_some]
  show some ((unicode.int (whole ++ fraction) : ℚ) * 10 ^ (0 - (fraction.length : ℤ))) = _
  rw [unicode.int_ascii digits, value, count, zero_sub, zpow_neg, zpow_natCast, ← div_eq_mul_inv]

theorem toLower_pointed (places scaled : ℕ) :
    (pointed places scaled).map Char.toLower = pointed places scaled := by
  conv_rhs => rw [← List.map_id (pointed places scaled)]
  apply List.map_congr_left
  intro character member
  rcases pointed_characters member with digit | rfl
  · refine dif_neg fun upper => ?_
    have high : character.toNat ≤ 57 := (Char.isDigit_iff_toNat.mp digit).2
    have low : 65 ≤ character.toNat := UInt32.le_iff_toNat_le.mp upper.1
    omega
  · rfl

/-- A number in digits, with a point among them. -/
theorem float_pointed (places scaled : ℕ) :
    float unicode (pointed (places + 1) scaled) = some (Double.round (scaled / 10 ^ (places + 1))) := by
  obtain ⟨whole, fraction, text, _⟩ := pointed_parts (places + 1) scaled
  have visible : ∀ character ∈ pointed (places + 1) scaled, unicode.isSpace character = false := by
    intro character member
    rcases pointed_characters member with digit | rfl
    · exact unicode.isSpace_of_digit digit
    · exact unicode.isSpace_point
  have noMinus : '-' ∉ pointed (places + 1) scaled := not_mem_pointed (by decide) (by decide) _ _
  have noPlus : '+' ∉ pointed (places + 1) scaled := not_mem_pointed (by decide) (by decide) _ _
  have named : ∀ {name : List Char}, '.' ∉ name → pointed (places + 1) scaled ≠ name := by
    rintro name noPoint rfl
    exact noPoint (by simp [text])
  rw [float_unsigned visible noMinus noPlus]
  unfold magnitude
  dsimp only
  rw [toLower_pointed, if_neg, if_neg (named (by decide)), number_pointed]
  · rfl
  · exact not_or.mpr ⟨named (by decide), named (by decide)⟩

end Printed

end Float

end FdpRocks.Library
