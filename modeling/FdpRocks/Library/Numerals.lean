import Mathlib

/-! # Numerals in text

Decimal text is `Nat.toDigits 10`, read back by `Nat.ofDigitChars 10`.  This
file adds the reader `std::stoull`, rounding half to even, the doubles between
a number and its text, and the `printf` conversions.
-/

namespace FdpRocks.Library.Numerals

/-! ## `std::stoull` -/

/-- `isspace` of the C locale. -/
def isCSpace (character : Char) : Bool :=
  character ∈ [' ', '\t', '\n', '\x0b', '\x0c', '\r']

/-- White space, an optional sign, then the longest run of digits.  `none` is
    an exception: no digit at all, or a magnitude beyond 64 bits.  A minus sign
    negates modulo `2 ^ 64`. -/
def stoull (text : List Char) : Option UInt64 :=
  let body := text.dropWhile isCSpace
  let (negative, rest) :=
    match body with
    | '-' :: rest => (true, rest)
    | '+' :: rest => (false, rest)
    | rest => (false, rest)
  let digits := rest.takeWhile Char.isDigit
  let magnitude := Nat.ofDigitChars 10 digits 0
  if digits = [] ∨ 2 ^ 64 ≤ magnitude then
    none
  else if negative then
    some (0 - UInt64.ofNat magnitude)
  else
    some (UInt64.ofNat magnitude)

/-- Whether there is a minus sign, and the digits that are read. -/
def signedDigits (text : List Char) : Bool × List Char :=
  match text.dropWhile isCSpace with
  | '-' :: rest => (true, rest.takeWhile Char.isDigit)
  | '+' :: rest => (false, rest.takeWhile Char.isDigit)
  | rest => (false, rest.takeWhile Char.isDigit)

/-- The size of the number that is read. -/
def magnitude (text : List Char) : ℕ := Nat.ofDigitChars 10 (signedDigits text).2 0

theorem stoull_eq (text : List Char) :
    stoull text =
      if (signedDigits text).2 = [] ∨ 2 ^ 64 ≤ magnitude text then none
      else if (signedDigits text).1 then some (0 - UInt64.ofNat (magnitude text))
      else some (UInt64.ofNat (magnitude text)) := by
  unfold stoull magnitude signedDigits
  generalize text.dropWhile isCSpace = body
  dsimp only
  split <;> rfl

theorem signedDigits_of_digits {text : List Char}
    (digits : ∀ character ∈ text, character.isDigit = true) : signedDigits text = (false, text) := by
  cases text with
  | nil => rfl
  | cons first rest =>
    have digit := digits first List.mem_cons_self
    have noSpace : isCSpace first = false := by
      by_contra space
      rw [Bool.not_eq_false, isCSpace, decide_eq_true_eq] at space
      revert digit
      fin_cases space <;> decide
    have whole : (first :: rest).takeWhile Char.isDigit = first :: rest :=
      List.takeWhile_eq_self_iff.mpr digits
    unfold signedDigits
    rw [List.dropWhile_cons_of_neg (by rw [noSpace]; exact Bool.false_ne_true)]
    split
    next same =>
      cases same
      cases digit
    next same =>
      cases same
      cases digit
    next => rw [whole]

theorem magnitude_of_digits {text : List Char}
    (digits : ∀ character ∈ text, character.isDigit = true) :
    magnitude text = Nat.ofDigitChars 10 text 0 := by
  rw [magnitude, signedDigits_of_digits digits]

/-- What is read, times a factor in 64 bits, vanishes with the magnitude's own
    product: the sign does not matter. -/
theorem stoull_mul_eq_zero {text : List Char} {value factor : UInt64}
    (reads : stoull text = some value) :
    value * factor = 0 ↔ 2 ^ 64 ∣ magnitude text * factor.toNat := by
  have vanishes : ∀ number : ℕ, UInt64.ofNat number * factor = 0 ↔ 2 ^ 64 ∣ number * factor.toNat := by
    intro number
    rw [← UInt64.toNat_inj, UInt64.toNat_mul, UInt64.toNat_ofNat', UInt64.toNat_zero,
      Nat.mod_mul_mod, ← Nat.dvd_iff_mod_eq_zero]
  rw [stoull_eq] at reads
  split at reads
  next => cases reads
  next =>
    split at reads
    next =>
      cases reads
      rw [zero_sub, neg_mul, neg_eq_zero, vanishes]
    next =>
      cases reads
      exact vanishes _

example : stoull " 42kB".toList = some 42 := by decide
example : stoull "18446744073709551616".toList = none := by decide

/-! ## Rounding -/

/-- To the nearest integer, halves to the even one. -/
def roundHalfEven (value : ℚ) : ℤ :=
  let gap := value - ⌊value⌋
  if gap < 1 / 2 ∨ gap = 1 / 2 ∧ ⌊value⌋ % 2 = 0 then ⌊value⌋ else ⌊value⌋ + 1

/-- An integer is reached from half a unit below, from the half itself only by
    the even ones. -/
theorem le_roundHalfEven {bound : ℤ} {value : ℚ} :
    bound ≤ roundHalfEven value ↔
      (bound : ℚ) - 1 / 2 < value ∨ value = bound - 1 / 2 ∧ bound % 2 = 0 := by
  have low := Int.floor_le value
  have high := Int.lt_floor_add_one value
  unfold roundHalfEven
  dsimp only
  generalize floored : ⌊value⌋ = floor at low high
  rcases lt_trichotomy bound (floor + 1) with below | same | above
  · -- At most the floor: always reached, and always less than a half above the value.
    have within : (bound : ℚ) ≤ floor := by exact_mod_cast Int.lt_add_one_iff.mp below
    constructor
    · intro _
      left
      linarith
    · intro _
      split <;> omega
  · subst same
    push_cast
    constructor
    · intro reached
      split at reached
      · omega
      next far =>
        push Not at far
        obtain ⟨half, odd⟩ := far
        rcases lt_or_eq_of_le half with more | tie
        · left
          linarith
        · right
          exact ⟨by linarith, by have := odd tie.symm; omega⟩
    · rintro (more | ⟨tie, even⟩)
      · rw [if_neg]
        rintro (less | ⟨half, _⟩) <;> linarith
      · rw [if_neg]
        rintro (less | ⟨_, floorEven⟩)
        · linarith
        · omega
  · have beyond : (floor : ℚ) + 2 ≤ bound := by
      exact_mod_cast (show floor + 2 ≤ bound by omega)
    constructor
    · intro reached
      split at reached <;> omega
    · rintro (more | ⟨tie, _⟩) <;> linarith

theorem roundHalfEven_mono {value other : ℚ} (ordered : value ≤ other) :
    roundHalfEven value ≤ roundHalfEven other := by
  rw [le_roundHalfEven]
  rcases le_roundHalfEven.mp (le_refl (roundHalfEven value)) with below | ⟨half, even⟩
  · exact .inl (below.trans_le ordered)
  · rcases eq_or_lt_of_le ordered with same | more
    · exact .inr ⟨same ▸ half, even⟩
    · exact .inl (half ▸ more)

theorem roundHalfEven_intCast (number : ℤ) : roundHalfEven number = number := by
  apply le_antisymm
  · by_contra above
    rw [not_le, ← Int.add_one_le_iff, le_roundHalfEven] at above
    push_cast at above
    rcases above with less | ⟨half, _⟩ <;> linarith
  · exact le_roundHalfEven.mpr (.inl (by linarith))

theorem roundHalfEven_le (value : ℚ) : (roundHalfEven value : ℚ) ≤ value + 1 / 2 := by
  rcases le_roundHalfEven.mp (le_refl (roundHalfEven value)) with above | ⟨tie, _⟩ <;> linarith

theorem roundHalfEven_nonneg {value : ℚ} (nonneg : 0 ≤ value) : 0 ≤ roundHalfEven value := by
  rw [le_roundHalfEven]
  left
  push_cast
  linarith

/-- The closest double to a positive number in the normal range: 53 significant
    bits. -/
def roundDouble (value : ℚ) : ℚ :=
  if value = 0 then 0
  else
    let unit : ℚ := 2 ^ (Int.log 2 value - 52)
    roundHalfEven (value / unit) * unit

theorem roundDouble_nonneg {value : ℚ} (nonneg : 0 ≤ value) : 0 ≤ roundDouble value := by
  unfold roundDouble
  split
  · exact le_refl 0
  · have unit : (0 : ℚ) < 2 ^ (Int.log 2 value - 52) := by positivity
    have rounded := roundHalfEven_nonneg (div_nonneg nonneg unit.le)
    have cast : (0 : ℚ) ≤ roundHalfEven (value / 2 ^ (Int.log 2 value - 52)) := by
      exact_mod_cast rounded
    exact mul_nonneg cast unit.le

theorem roundDouble_le {value : ℚ} (nonneg : 0 ≤ value) : roundDouble value ≤ 2 * value := by
  unfold roundDouble
  split
  next zero => rw [zero, mul_zero]
  next some =>
    have positive : 0 < value := lt_of_le_of_ne nonneg (Ne.symm some)
    have unit : (0 : ℚ) < 2 ^ (Int.log 2 value - 52) := by positivity
    have small : (2 : ℚ) ^ (Int.log 2 value - 52) ≤ value := by
      calc (2 : ℚ) ^ (Int.log 2 value - 52) ≤ 2 ^ Int.log 2 value :=
            zpow_le_zpow_right₀ (by norm_num) (by omega)
        _ ≤ value := Int.zpow_log_le_self (by norm_num) positive
    have rounded := roundHalfEven_le (value / 2 ^ (Int.log 2 value - 52))
    calc _ ≤ (value / 2 ^ (Int.log 2 value - 52) + 1 / 2) * 2 ^ (Int.log 2 value - 52) :=
          mul_le_mul_of_nonneg_right rounded unit.le
      _ = value + 2 ^ (Int.log 2 value - 52) / 2 := by field_simp
      _ ≤ 2 * value := by linarith

/-! ## `printf` -/

/-- `%d` and its relatives without a field width. -/
def decimal (value : ℕ) : List Char := Nat.toDigits 10 value

theorem decimal_isDigit {value : ℕ} {character : Char} (member : character ∈ decimal value) :
    character.isDigit = true :=
  Nat.isDigit_of_mem_toDigits (by decide) (by decide) member

theorem decimal_ne_nil (value : ℕ) : decimal value ≠ [] := Nat.toDigits_ne_nil

theorem decimal_length_le {value width : ℕ} (positive : 0 < width) (small : value < 10 ^ width) :
    (decimal value).length ≤ width :=
  (Nat.length_toDigits_le_iff (by decide) positive).mpr small

/-- The digits of `scaled` with the point before the last `places` of them. -/
def pointed (places scaled : ℕ) : List Char :=
  let digits := List.replicate (places + 1 - (decimal scaled).length) '0' ++ decimal scaled
  digits.take (digits.length - places) ++ '.' :: digits.drop (digits.length - places)

/-- `%.*f` of a number known exactly. -/
def fixedPoint (places : ℕ) (value : ℚ) : List Char :=
  let digits := pointed places (roundHalfEven (|value| * 10 ^ places)).toNat
  if value < 0 then '-' :: digits else digits

/-- A field width: blanks before the text. -/
def padLeft (width : ℕ) (text : List Char) : List Char :=
  List.replicate (width - text.length) ' ' ++ text

/-- A field width with `-`: blanks after the text. -/
def padRight (width : ℕ) (text : List Char) : List Char :=
  text ++ List.replicate (width - text.length) ' '

theorem pointed_parts (places scaled : ℕ) :
    ∃ whole fraction : List Char, pointed places scaled = whole ++ '.' :: fraction ∧
      (∀ character ∈ whole ++ fraction, character.isDigit = true) ∧ whole ≠ [] ∧
      fraction.length = places ∧ Nat.ofDigitChars 10 (whole ++ fraction) 0 = scaled ∧
      (whole ++ fraction).length = max (places + 1) (decimal scaled).length := by
  refine ⟨_, _, rfl, ?_, ?_, ?_, ?_, ?_⟩
  · rw [List.take_append_drop]
    intro character member
    rcases List.mem_append.mp member with zero | digit
    · rw [List.eq_of_mem_replicate zero]
      rfl
    · exact decimal_isDigit digit
  · rw [ne_eq, ← List.length_eq_zero_iff, List.length_take, List.length_append,
      List.length_replicate]
    omega
  · rw [List.length_drop, List.length_append, List.length_replicate]
    omega
  · rw [List.take_append_drop, Nat.ofDigitChars_append, Nat.ofDigitChars_replicate_zero, decimal,
      Nat.mul_zero, Nat.ofDigitChars_ten_toDigits]
  · rw [List.take_append_drop, List.length_append, List.length_replicate]
    omega

theorem pointed_ne_nil (places scaled : ℕ) : pointed places scaled ≠ [] := by
  simp [pointed]

theorem pointed_characters {places scaled : ℕ} {character : Char}
    (member : character ∈ pointed places scaled) : character.isDigit = true ∨ character = '.' := by
  obtain ⟨whole, fraction, text, digits, _⟩ := pointed_parts places scaled
  rw [text, List.mem_append, List.mem_cons] at member
  rcases member with left | point | right
  · exact .inl (digits character (List.mem_append_left _ left))
  · exact .inr point
  · exact .inl (digits character (List.mem_append_right _ right))

theorem not_mem_pointed {character : Char} (noDigit : character.isDigit = false)
    (noPoint : character ≠ '.') (places scaled : ℕ) : character ∉ pointed places scaled := by
  intro member
  rcases pointed_characters member with digit | point
  · rw [noDigit] at digit
    cases digit
  · exact noPoint point

theorem fixedPoint_nonneg {value : ℚ} (nonneg : 0 ≤ value) (places : ℕ) :
    fixedPoint places value = pointed places (roundHalfEven (value * 10 ^ places)).toNat := by
  rw [fixedPoint, if_neg (not_lt.mpr nonneg), abs_of_nonneg nonneg]

theorem not_mem_fixedPoint {character : Char} (noDigit : character.isDigit = false)
    (noPoint : character ≠ '.') {value : ℚ} (nonneg : 0 ≤ value) (places : ℕ) :
    character ∉ fixedPoint places value := by
  rw [fixedPoint_nonneg nonneg]
  exact not_mem_pointed noDigit noPoint places _

theorem not_mem_decimal {character : Char} (noDigit : character.isDigit = false) (value : ℕ) :
    character ∉ decimal value := by
  intro member
  rw [decimal_isDigit member] at noDigit
  cases noDigit

end FdpRocks.Library.Numerals
