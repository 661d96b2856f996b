import FdpRocks.Library.Multiplier

/-! # `Trace::Random`

The generator of the traces' base class.

* `random_toNat` — the shifts and the subtraction are a remainder.
* `random_cycles` — what the comment of the source says about all seeds.
-/

namespace FdpRocks.Benchmark

open FdpRocks.Library

/-- `M`. -/
def randomModulus : UInt32 := 2147483647

/-- `A`. -/
def randomFactor : UInt64 := 16807

/-- `Random`: the next `seed_`, which is an `int`; a word of it is returned. -/
def random (seed : Int32) : Int32 :=
  let product := seed.toInt64.toUInt64 * randomFactor
  let reduced := ((product >>> 31) + (product &&& randomModulus.toUInt64)).toUInt32
  if reduced > randomModulus then (reduced - randomModulus).toInt32 else reduced.toInt32

/-- What `Random` returns, if this is its `seed_` then. -/
def returned (seed : Int32) : UInt32 := seed.toUInt32

/-- Seeds that are neither zero nor `M`. -/
def Seeded (seed : Int32) : Prop := 0 < seed.toInt ∧ seed.toInt < randomModulus.toNat

instance (seed : Int32) : Decidable (Seeded seed) := inferInstanceAs (Decidable (_ ∧ _))

/-! ## The modulus and the factor -/

/-- The prime divisors of the number of nonzero remainders. -/
theorem prime_divisors {divisor : ℕ} (prime : divisor.Prime) (divides : divisor ∣ 2147483647 - 1) :
    divisor ∈ [2, 3, 7, 11, 31, 151, 331] := by
  have factors : 2147483647 - 1 = 2 * (3 ^ 2 * (7 * (11 * (31 * (151 * 331))))) := by norm_num
  have same : ∀ {other : ℕ}, other.Prime → divisor ∣ other → divisor = other :=
    fun otherPrime known => (Nat.prime_dvd_prime_iff_eq prime otherPrime).mp known
  rw [factors] at divides
  rcases prime.dvd_mul.mp divides with two | divides
  · simp [same Nat.prime_two two]
  rcases prime.dvd_mul.mp divides with three | divides
  · simp [same Nat.prime_three (prime.dvd_of_dvd_pow three)]
  rcases prime.dvd_mul.mp divides with seven | divides
  · simp [same (by norm_num) seven]
  rcases prime.dvd_mul.mp divides with eleven | divides
  · simp [same (by norm_num) eleven]
  rcases prime.dvd_mul.mp divides with other | divides
  · simp [same (by norm_num) other]
  rcases prime.dvd_mul.mp divides with other | last
  · simp [same (by norm_num) other]
  · simp [same (by norm_num) last]

theorem factor_pow : (16807 : ZMod 2147483647) ^ (2147483647 - 1) = 1 := by
  reduce_mod_char

theorem factor_pow_ne {divisor : ℕ} (prime : divisor.Prime) (divides : divisor ∣ 2147483647 - 1) :
    (16807 : ZMod 2147483647) ^ ((2147483647 - 1) / divisor) ≠ 1 := by
  have known := prime_divisors prime divides
  fin_cases known
  all_goals
    norm_num
    reduce_mod_char
    decide

theorem modulus_prime : Nat.Prime 2147483647 :=
  lucas_primality _ 16807 factor_pow fun _ => factor_pow_ne

theorem factor_primitive : orderOf (16807 : ZMod 2147483647) = 2147483647 - 1 :=
  orderOf_eq_of_pow_and_pow_div_prime (by norm_num) factor_pow fun _ => factor_pow_ne

/-! ## One call -/

theorem returned_toNat {seed : Int32} (nonneg : 0 ≤ seed.toInt) :
    ((returned seed).toNat : ℤ) = seed.toInt := by
  have bits : seed.toInt = seed.toUInt32.toBitVec.toInt := rfl
  have word : seed.toUInt32.toBitVec.toNat = (returned seed).toNat := rfl
  have small := (returned seed).toNat_lt
  rw [bits, BitVec.toInt_eq_toNat_cond, word] at nonneg ⊢
  split at nonneg
  next below => rw [if_pos below]
  next => omega

theorem long_toNat {seed : Int32} (nonneg : 0 ≤ seed.toInt) :
    seed.toInt64.toUInt64.toNat = (returned seed).toNat := by
  have extended : seed.toInt64.toUInt64.toNat = (seed.toInt % 2 ^ 64).toNat := rfl
  have small := seed.toInt_lt
  have word := returned_toNat nonneg
  omega

/-- Numbers below twice the modulus that are not the modulus. -/
theorem reduced_mod {product sum : ℕ} (split : sum = product / 2 ^ 31 + product % 2 ^ 31)
    (small : product < 2 ^ 46) (nonzero : product % 2147483647 ≠ 0) :
    (if 2147483647 < sum then sum - 2147483647 else sum) = product % 2147483647 := by
  split <;> omega

theorem remainder_pos {number : ℕ} (positive : 0 < number) (small : number < 2147483647) :
    number * 16807 % 2147483647 ≠ 0 := by
  intro zero
  cases modulus_prime.dvd_mul.mp (Nat.dvd_of_mod_eq_zero zero) with
  | inl divides => exact absurd (Nat.le_of_dvd positive divides) (not_le.mpr small)
  | inr divides => exact absurd (Nat.le_of_dvd (by decide) divides) (by decide)

theorem random_toNat {seed : Int32} (seeded : Seeded seed) :
    (returned (random seed)).toNat = (returned seed).toNat * 16807 % 2147483647 := by
  obtain ⟨positive, below⟩ := seeded
  have word := returned_toNat positive.le
  have modulus : randomModulus.toNat = 2147483647 := rfl
  rw [modulus] at below
  have low : 0 < (returned seed).toNat := by omega
  have high : (returned seed).toNat < 2147483647 := by omega
  generalize product : seed.toInt64.toUInt64 * randomFactor = whole
  have wholeNat : whole.toNat = (returned seed).toNat * 16807 := by
    have factor : randomFactor.toNat = 16807 := rfl
    rw [← product, UInt64.toNat_mul, long_toNat positive.le, factor]
    exact Nat.mod_eq_of_lt (by omega)
  have upper : (whole >>> 31).toNat = whole.toNat / 2 ^ 31 := by simp [Nat.shiftRight_eq_div_pow]
  have lower : (whole &&& randomModulus.toUInt64).toNat = whole.toNat % 2 ^ 31 :=
    Nat.and_two_pow_sub_one_eq_mod whole.toNat 31
  generalize reduction : ((whole >>> 31) + (whole &&& randomModulus.toUInt64)).toUInt32 = reduced
  have reducedNat : reduced.toNat = whole.toNat / 2 ^ 31 + whole.toNat % 2 ^ 31 := by
    rw [← reduction, UInt64.toNat_toUInt32, UInt64.toNat_add, upper, lower]
    omega
  have seeded : random seed = if reduced > randomModulus then (reduced - randomModulus).toInt32
      else reduced.toInt32 := by
    unfold random
    dsimp only
    rw [product, reduction]
  have result : (returned (random seed)).toNat
      = if 2147483647 < reduced.toNat then reduced.toNat - 2147483647 else reduced.toNat := by
    rw [seeded]
    have compared : reduced > randomModulus ↔ 2147483647 < reduced.toNat := UInt32.lt_iff_toNat_lt
    by_cases beyond : reduced > randomModulus
    · rw [if_pos beyond, if_pos (compared.mp beyond)]
      exact UInt32.toNat_sub_of_le _ _ (UInt32.le_of_lt beyond)
    · rw [if_neg beyond, if_neg (mt compared.mpr beyond)]
      rfl
  rw [result, reduced_mod reducedNat (by omega) (wholeNat ▸ remainder_pos low high), wholeNat]

/-! ## All calls -/

instance modulusPrime : Fact (Nat.Prime 2147483647) := ⟨modulus_prime⟩

theorem Seeded.returned {seed : Int32} (seeded : Seeded seed) :
    0 < (returned seed).toNat ∧ (returned seed).toNat < 2147483647 := by
  obtain ⟨positive, below⟩ := seeded
  have word := returned_toNat positive.le
  have modulus : randomModulus.toNat = 2147483647 := rfl
  omega

theorem seeded_of_returned {seed : Int32} (positive : 0 < (returned seed).toNat)
    (below : (returned seed).toNat < 2147483647) : Seeded seed := by
  have small : 2 * seed.toUInt32.toBitVec.toNat < 2 ^ 32 := by
    have word : seed.toUInt32.toBitVec.toNat = (returned seed).toNat := rfl
    omega
  have value : seed.toInt = ((returned seed).toNat : ℤ) := BitVec.toInt_eq_toNat_of_lt small
  have modulus : randomModulus.toNat = 2147483647 := rfl
  unfold Seeded
  omega

theorem returned_injective {seed other : Int32} (same : returned seed = returned other) : seed = other := by
  cases seed
  cases other
  exact congrArg Int32.ofUInt32 same

/-- A seed stands for its remainder. -/
theorem random_multiplies : Multiplier Seeded
    (fun seed => ((returned seed).toNat : ZMod 2147483647)) random 16807 where
  keeps seed seeded := by
    obtain ⟨low, high⟩ := seeded.returned
    have value := random_toNat seeded
    apply seeded_of_returned
    · rw [value]
      exact Nat.pos_of_ne_zero (remainder_pos low high)
    · rw [value]
      exact Nat.mod_lt _ (by decide)
  nonzero seed seeded zero := by
    obtain ⟨low, high⟩ := seeded.returned
    rw [ZMod.natCast_eq_zero_iff] at zero
    exact absurd (Nat.le_of_dvd low zero) (not_le.mpr high)
  injective seed other seeded otherSeeded same := by
    rw [ZMod.natCast_eq_natCast_iff', Nat.mod_eq_of_lt seeded.returned.2,
      Nat.mod_eq_of_lt otherSeeded.returned.2] at same
    exact returned_injective (UInt32.toNat_inj.mp same)
  multiplies seed seeded := by
    rw [random_toNat seeded, ZMod.natCast_mod, Nat.cast_mul, mul_comm]
    rfl

/-- The numbers that `Random` returns are the powers of the factor: never zero nor
    `M`, every other number below `M` exactly once in a round of `M - 1` calls, and
    then the same ones again. -/
theorem random_cycles {seed : Int32} (seeded : Seeded seed) :
    (∀ calls, Seeded (random^[calls] seed) ∧
      (returned (random^[calls] seed)).toNat = 16807 ^ calls * (returned seed).toNat % 2147483647) ∧
    (∀ value : UInt32, 0 < value.toNat → value.toNat < 2147483647 →
      ∃! calls, calls < 2147483646 ∧ returned (random^[calls] seed) = value) ∧
    random^[2147483646] seed = seed := by
  have card : Nat.card (ZMod 2147483647) = 2147483647 := Nat.card_zmod _
  have primitive : orderOf (16807 : ZMod 2147483647) = Nat.card (ZMod 2147483647) - 1 := by
    rw [card]
    exact factor_primitive
  have round := random_multiplies.period primitive seeded
  refine ⟨fun calls => ?_, fun value low high => ?_, by rwa [card] at round⟩
  · obtain ⟨stays, power⟩ := random_multiplies.iterate seeded calls
    refine ⟨stays, ?_⟩
    have cast : ((16807 ^ calls * (returned seed).toNat : ℕ) : ZMod 2147483647)
        = 16807 ^ calls * ((returned seed).toNat : ZMod 2147483647) := by push_cast; rfl
    rw [← cast, ZMod.natCast_eq_natCast_iff', Nat.mod_eq_of_lt stays.returned.2] at power
    exact power
  · have known : returned value.toInt32 = value := rfl
    have valid : Seeded value.toInt32 := seeded_of_returned (known ▸ low) (known ▸ high)
    have visits := random_multiplies.visits primitive seeded valid
    have same : ∀ calls, random^[calls] seed = value.toInt32 ↔ returned (random^[calls] seed) = value :=
      fun calls => ⟨fun reaches => by rw [reaches, known], fun reaches => returned_injective reaches⟩
    rw [card] at visits
    simpa only [same] using visits

/-- The seed of one of the generators. -/
theorem random_cycles_exponential : random^[2147483646] 667 = 667 :=
  (@random_cycles 667 (by decide)).2.2

end FdpRocks.Benchmark
