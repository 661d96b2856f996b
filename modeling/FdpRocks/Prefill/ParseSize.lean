import FdpRocks.Library.Numerals

/-! # `ParseSize` of the prefill tool

A size on the command line is a number with an optional unit letter.

* `sizeText_iff` — the grammar is what the split into number and unit leaves.
* `parseSize_iff` — the texts on which the function keeps to the grammar.
-/

namespace FdpRocks.Prefill

open FdpRocks.Library.Numerals

/-! ## The function -/

/-- The `switch` over the unit. -/
def unitMultiplier (unit : Char) : Option UInt64 :=
  match unit with
  | 'K' | 'k' => some ((1 : UInt64) <<< 10)
  | 'M' | 'm' => some ((1 : UInt64) <<< 20)
  | 'G' | 'g' => some ((1 : UInt64) <<< 30)
  | 'T' | 't' => some ((1 : UInt64) <<< 40)
  | _ => none

/-- `number` and `multiplier`; `none` is a `return 0` on the way. -/
def splitUnit (value : List Char) : Option (List Char × UInt64) :=
  match value.getLast? with
  | none => none
  | some unit =>
    if unit < '0' ∨ unit > '9' then
      match unitMultiplier unit with
      | none => none
      | some multiplier => some (value.dropLast, multiplier)
    else some (value, 1)

/-- The `try` block: an exception becomes zero. -/
def scaled (number : List Char) (multiplier : UInt64) : UInt64 :=
  match stoull number with
  | none => 0
  | some parsed => parsed * multiplier

def parseSize (value : List Char) : UInt64 :=
  match splitUnit value with
  | none => 0
  | some (number, multiplier) => scaled number multiplier

/-! ## The grammar -/

def units : List (Char × ℕ) :=
  [('K', 2 ^ 10), ('k', 2 ^ 10), ('M', 2 ^ 20), ('m', 2 ^ 20), ('G', 2 ^ 30), ('g', 2 ^ 30),
    ('T', 2 ^ 40), ('t', 2 ^ 40)]

/-- Decimal digits, and behind them at most one unit letter. -/
inductive SizeText : List Char → ℕ → ℕ → Prop where
  | bytes {digits : List Char} (some : digits ≠ [])
      (decimal : ∀ character ∈ digits, character.isDigit = true) :
      SizeText digits (Nat.ofDigitChars 10 digits 0) 1
  | scaled {digits : List Char} {unit : Char} {multiplier : ℕ} (some : digits ≠ [])
      (decimal : ∀ character ∈ digits, character.isDigit = true)
      (known : (unit, multiplier) ∈ units) :
      SizeText (digits ++ [unit]) (Nat.ofDigitChars 10 digits 0) multiplier

/-- A size of the grammar that fits is returned, and everything else is zero. -/
def KeepsGrammar (value : List Char) : Prop :=
  (∀ number multiplier, SizeText value number multiplier → number * multiplier < 2 ^ 64 →
    (parseSize value).toNat = number * multiplier) ∧
  ((¬ ∃ number multiplier, SizeText value number multiplier ∧ number * multiplier < 2 ^ 64) →
    parseSize value = 0)

theorem isDigit_iff {character : Char} :
    character.isDigit = true ↔ ¬ (character < '0' ∨ character > '9') := by
  rw [not_or, not_lt, gt_iff_lt, not_lt]
  simp [Char.isDigit, Char.le_def, UInt32.le_iff_toNat_le]

theorem unitMultiplier_iff {unit : Char} {multiplier : ℕ} :
    (unit, multiplier) ∈ units ↔ ∃ factor, unitMultiplier unit = some factor ∧
      multiplier = factor.toNat := by
  constructor
  · intro member
    simp only [units, List.mem_cons, Prod.mk.injEq, List.not_mem_nil, or_false] at member
    obtain ⟨rfl, rfl⟩ | ⟨rfl, rfl⟩ | ⟨rfl, rfl⟩ | ⟨rfl, rfl⟩ | ⟨rfl, rfl⟩ | ⟨rfl, rfl⟩ | ⟨rfl, rfl⟩
      | ⟨rfl, rfl⟩ := member <;> exact ⟨_, rfl, by decide⟩
  · rintro ⟨factor, known, rfl⟩
    unfold unitMultiplier at known
    split at known <;> cases known <;> decide

theorem not_isDigit_of_unit {unit : Char} {factor : UInt64}
    (known : unitMultiplier unit = some factor) : ¬ unit.isDigit = true := by
  unfold unitMultiplier at known
  split at known <;> first | decide | cases known

/-- The grammar asks that the part before the unit is digits and nothing else. -/
theorem sizeText_iff {value : List Char} {number multiplier : ℕ} :
    SizeText value number multiplier ↔ ∃ digits factor, splitUnit value = some (digits, factor) ∧
      digits ≠ [] ∧ (∀ character ∈ digits, character.isDigit = true) ∧
      number = Nat.ofDigitChars 10 digits 0 ∧ multiplier = factor.toNat := by
  constructor
  · intro sized
    cases sized with
    | bytes some decimal =>
      have last := List.getLast?_eq_some_getLast some
      have digit := decimal _ (List.getLast_mem some)
      refine ⟨value, 1, ?_, some, decimal, rfl, rfl⟩
      rw [splitUnit, last]
      dsimp only
      rw [if_neg (isDigit_iff.mp digit)]
    | scaled some decimal known =>
      rename_i digits unit
      obtain ⟨factor, switch, same⟩ := unitMultiplier_iff.mp known
      refine ⟨digits, factor, ?_, some, decimal, rfl, same⟩
      have letter := mt isDigit_iff.mpr (not_isDigit_of_unit switch)
      rw [not_not] at letter
      rw [splitUnit, List.getLast?_concat]
      dsimp only
      rw [if_pos letter, switch, List.dropLast_concat]
  · rintro ⟨digits, factor, splits, some, decimal, rfl, rfl⟩
    unfold splitUnit at splits
    split at splits
    next => cases splits
    next unit last =>
      split at splits
      next =>
        split at splits
        next => cases splits
        next known =>
          cases splits
          have whole : value = value.dropLast ++ [unit] :=
            (List.dropLast_append_getLast? unit last).symm
          rw [whole, List.dropLast_concat]
          exact .scaled some decimal (unitMultiplier_iff.mpr ⟨factor, known, rfl⟩)
      next =>
        cases splits
        exact .bytes some decimal

/-! ## Where the function keeps to the grammar -/

/-- Nothing but digits before the unit and no overflow, unless the text is
    rejected or the product vanishes in 64 bits anyway. -/
def SizeSafe (value : List Char) : Prop :=
  ∀ number factor, splitUnit value = some (number, factor) →
    (signedDigits number).2 = [] ∨ 2 ^ 64 ≤ magnitude number ∨
      2 ^ 64 ∣ magnitude number * factor.toNat ∨
      (∀ character ∈ number, character.isDigit = true) ∧ magnitude number * factor.toNat < 2 ^ 64

theorem scaled_eq_zero_iff {number : List Char} {factor : UInt64} :
    scaled number factor = 0 ↔ (signedDigits number).2 = [] ∨ 2 ^ 64 ≤ magnitude number ∨
      2 ^ 64 ∣ magnitude number * factor.toNat := by
  unfold scaled
  cases reads : stoull number with
  | none =>
    rw [stoull_eq] at reads
    split at reads
    next thrown => exact ⟨fun _ => by rw [← or_assoc]; exact .inl thrown, fun _ => rfl⟩
    next => split at reads <;> cases reads
  | some parsed =>
    have fits : ¬ ((signedDigits number).2 = [] ∨ 2 ^ 64 ≤ magnitude number) := by
      intro thrown
      rw [stoull_eq, if_pos thrown] at reads
      cases reads
    rw [stoull_mul_eq_zero reads, ← or_assoc, or_iff_right fits]

/-- Plain digits are read as they are. -/
theorem scaled_exact {number : List Char} {factor : UInt64} (some : number ≠ [])
    (decimal : ∀ character ∈ number, character.isDigit = true)
    (fits : magnitude number * factor.toNat < 2 ^ 64) :
    (scaled number factor).toNat = magnitude number * factor.toNat := by
  by_cases huge : 2 ^ 64 ≤ magnitude number
  · -- Only a factor of zero keeps such a product small.
    have zero : factor.toNat = 0 := by
      by_contra positive
      have more := Nat.mul_le_mul huge (Nat.one_le_iff_ne_zero.mpr positive)
      omega
    rw [scaled_eq_zero_iff.mpr (.inr (.inl huge)), zero]
    rfl
  · have parts := signedDigits_of_digits decimal
    have reads : stoull number = .some (UInt64.ofNat (magnitude number)) := by
      rw [stoull_eq, parts, if_neg (not_or.mpr ⟨some, huge⟩), if_neg Bool.false_ne_true]
    rw [scaled, reads]
    dsimp only
    rw [UInt64.toNat_mul, UInt64.toNat_ofNat', Nat.mod_mul_mod, Nat.mod_eq_of_lt fits]

/-- `ParseSize` keeps to the grammar exactly where the text is safe. -/
theorem parseSize_iff (value : List Char) : KeepsGrammar value ↔ SizeSafe value := by
  unfold KeepsGrammar SizeSafe parseSize
  simp only [sizeText_iff]
  cases splitUnit value with
  | none => simp
  | some parts =>
    obtain ⟨number, factor⟩ := parts
    dsimp only
    constructor
    · rintro ⟨_, rejects⟩ number factor same
      cases same
      -- Either the product is what the grammar says, or the grammar has no reading and
      -- the code must have returned zero.
      by_cases exact : (∀ character ∈ number, character.isDigit = true) ∧
          magnitude number * factor.toNat < 2 ^ 64
      · exact .inr (.inr (.inr exact))
      · have zero := scaled_eq_zero_iff.mp (rejects ?_)
        · obtain empty | huge | divides := zero
          · exact .inl empty
          · exact .inr (.inl huge)
          · exact .inr (.inr (.inl divides))
        · rintro ⟨_, _, ⟨digits, factor, same, _, decimal, rfl, rfl⟩, fits⟩
          cases same
          exact exact ⟨decimal, magnitude_of_digits decimal ▸ fits⟩
    · intro safe
      constructor
      · rintro _ _ ⟨digits, factor, same, some, decimal, rfl, rfl⟩ fits
        cases same
        rw [← magnitude_of_digits decimal] at fits ⊢
        exact scaled_exact some decimal fits
      · intro none
        obtain empty | huge | divides | ⟨decimal, fits⟩ := safe number factor rfl
        · exact scaled_eq_zero_iff.mpr (.inl empty)
        · exact scaled_eq_zero_iff.mpr (.inr (.inl huge))
        · exact scaled_eq_zero_iff.mpr (.inr (.inr divides))
        -- `sizeText_iff` wants a digit; without one the code returns zero by itself.
        · by_cases empty : number = []
          · rw [empty]
            rfl
          · exact absurd ⟨_, _, ⟨number, factor, rfl, empty, decimal, rfl, rfl⟩,
              magnitude_of_digits decimal ▸ fits⟩ none

/-- A product beyond 64 bits comes back as a plausible size, and a decimal point
    ends the number. -/
theorem parseSize_lenient :
    ¬ KeepsGrammar "16777217T".toList ∧ ¬ KeepsGrammar "1.5K".toList := by
  constructor
  · rintro ⟨_, rejects⟩
    refine absurd (rejects ?_) (by decide)
    rintro ⟨_, _, sized, fits⟩
    obtain ⟨digits, factor, splits, _, _, rfl, rfl⟩ := sizeText_iff.mp sized
    cases splits
    revert fits
    decide
  · rintro ⟨_, rejects⟩
    refine absurd (rejects ?_) (by decide)
    rintro ⟨_, _, sized, _⟩
    obtain ⟨digits, factor, splits, _, decimal, _⟩ := sizeText_iff.mp sized
    cases splits
    exact absurd (decimal '.' (by decide)) (by decide)

end FdpRocks.Prefill
