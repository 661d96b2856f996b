import FdpRocks.Benchmark.PrepareKeysSoundness

/-! # The engines behind `random_seed<N>`

`PrepareShuffledKeys` multiplies the number behind `random_seed` by `2 ^ 24`
and hands the sum to an engine that looks at 32 bits of it, so only eight bits
of the number are left.

* `seedState_injective` — the engine itself tells all 32-bit seeds apart.
* `shuffleSeed_seeded` — the seed that a number comes to.
* `shuffleEngine_ne_iff` — which numbers get engines of their own.
* `generateThread_sameSeed` — the others get the same keys.
-/

namespace FdpRocks.Benchmark

open FdpRocks.Library.Numerals

/-! ## The engine -/

/-- One word of the state that `std::mt19937` starts in. -/
def seedWord (seed : UInt32) : ℕ → UInt32
  | 0 => seed
  | index + 1 =>
    let previous := seedWord seed index
    (1812433253 : UInt32) * (previous ^^^ (previous >>> 30)) + UInt32.ofNat (index + 1)

def seedState (seed : UInt32) : List UInt32 := (List.range 624).map (seedWord seed)

/-- The first word is the seed. -/
theorem seedState_injective : Function.Injective seedState := by
  intro seed other same
  have words := congrArg List.head? same
  have first : ∀ seed : UInt32, (seedState seed).head? = some seed := by
    intro seed
    rw [seedState, List.head?_map, List.head?_range]
    rfl
  rw [first, first] at words
  exact Option.some.inj words

/-- `std::mt19937` with its seeding; the draws are the least possible ones. -/
def RandomLibrary.mersenne : RandomLibrary where
  Engine := List UInt32
  mt19937 := seedState
  shuffle := fun engine keys => (keys, engine)
  discreteDistribution := fun _ engine => (0, engine)
  uniformIntDistribution := fun low _ engine => (low, engine)
  shuffle_perm := fun _ keys => List.Perm.refl keys
  discrete_lt := fun _ _ some => List.length_pos_of_ne_nil some
  uniformInt_le := fun low _ _ ordered => ⟨UInt64.le_refl low, ordered⟩

theorem mersenne_seeded : Function.Injective RandomLibrary.mersenne.mt19937 := by
  have seeding : RandomLibrary.mersenne.mt19937 = seedState := by simp only [RandomLibrary.mersenne]
  rw [seeding]
  exact seedState_injective

/-! ## The seed -/

/-- The flags with `--key_sort=random_seed<number>`. -/
def seedFlags (flags : Flags) (number : ℕ) : Flags :=
  { flags with keySort := "random_seed" ++ toString number }

@[simp] theorem seedFlags_num (flags : Flags) (number : ℕ) :
    (seedFlags flags number).num = flags.num := rfl

@[simp] theorem seedFlags_workerThreads (flags : Flags) (number : ℕ) :
    (seedFlags flags number).workerThreads = flags.workerThreads := rfl

@[simp] theorem seedFlags_keyDistribution (flags : Flags) (number : ℕ) :
    (seedFlags flags number).keyDistribution = flags.keyDistribution := rfl

theorem seedFlags_toList (flags : Flags) (number : ℕ) :
    (seedFlags flags number).keySort.toList = "random_seed".toList ++ decimal number := by
  simp [seedFlags, decimal]

theorem stoull_decimal {number : ℕ} (small : number < 2 ^ 64) :
    stoull (decimal number) = some (UInt64.ofNat number) := by
  have digits : ∀ character ∈ decimal number, character.isDigit = true := fun _ => decimal_isDigit
  have value : magnitude (decimal number) = number := by
    rw [magnitude_of_digits digits, decimal, Nat.ofDigitChars_ten_toDigits]
  rw [stoull_eq, value, signedDigits_of_digits digits]
  rw [if_neg (not_or.mpr ⟨decimal_ne_nil number, not_le.mpr small⟩), if_neg Bool.false_ne_true]

theorem shuffleSeed_seeded (flags : Flags) (tid : UInt32) {number : ℕ} (small : number < 2 ^ 64) :
    shuffleSeed (seedFlags flags number) tid
      = fixedSeed + tid.toUInt64 + UInt64.ofNat number * 0x1000000 := by
  have named : "random_seed".toList.isPrefixOf ("random_seed".toList ++ decimal number) = true :=
    List.isPrefixOf_iff_prefix.mpr (List.prefix_append _ _)
  have rest : ("random_seed".toList ++ decimal number).drop 11 = decimal number := rfl
  simp only [shuffleSeed, seedFlags_toList, named, rest, stoull_decimal small, if_true, ne_eq,
    decimal_ne_nil, not_false_eq_true]

/-- The engine that shuffles the keys of one thread. -/
def shuffleEngine (library : RandomLibrary) (flags : Flags) (tid : UInt32) : library.Engine :=
  library.mt19937 (shuffleSeed flags tid).toUInt32

theorem sortKeys_seeded (library : RandomLibrary) (flags : Flags) (number : ℕ) (tid : UInt32)
    (keys : List UInt64) :
    sortKeys library (seedFlags flags number) tid keys
      = (library.shuffle (shuffleEngine library (seedFlags flags number) tid) keys).1 := by
  have first : ∀ text : String, text.toList.head? ≠ some 'r' →
      (seedFlags flags number).keySort ≠ text := by
    intro text other same
    rw [← same, seedFlags_toList] at other
    exact other rfl
  -- Neither `ascending` nor `descending` opens like `random_seed`.
  rw [sortKeys, if_neg (first _ (by simp)), if_neg (first _ (by simp)), shuffleEngine]

/-- Of the number, the low eight bits reach the engine. -/
theorem shuffleSeed_eq_iff (flags : Flags) (tid : UInt32) {first second : ℕ}
    (firstSmall : first < 2 ^ 32) (secondSmall : second < 2 ^ 32) :
    (shuffleSeed (seedFlags flags first) tid).toUInt32
        = (shuffleSeed (seedFlags flags second) tid).toUInt32
      ↔ first % 256 = second % 256 := by
  have scaled : ∀ number : ℕ, ((UInt64.ofNat number * 0x1000000).toUInt32).toNat
      = number % 256 * 2 ^ 24 := by
    intro number
    simp only [UInt64.toNat_toUInt32, UInt64.toNat_mul, UInt64.toNat_ofNat']
    -- Of 32 bits the factor leaves the upper eight to the number.
    show number % 2 ^ 64 * 2 ^ 24 % 2 ^ 64 % 2 ^ 32 = number % 256 * 2 ^ 24
    omega
  rw [shuffleSeed_seeded flags tid (by omega), shuffleSeed_seeded flags tid (by omega),
    UInt64.toUInt32_add, UInt64.toUInt32_add _ (UInt64.ofNat second * _), add_right_inj,
    ← UInt32.toNat_inj, scaled, scaled]
  omega

/-- Two numbers get different engines exactly when they differ in their low
    eight bits. -/
theorem shuffleEngine_ne_iff (library : RandomLibrary)
    (seeded : Function.Injective library.mt19937) (flags : Flags) (tid : UInt32)
    (first second : ℕ) (firstSmall : first < 2 ^ 32) (secondSmall : second < 2 ^ 32) :
    shuffleEngine library (seedFlags flags first) tid
        ≠ shuffleEngine library (seedFlags flags second) tid
      ↔ first % 256 ≠ second % 256 := by
  rw [shuffleEngine, shuffleEngine, seeded.ne_iff, ne_eq, shuffleSeed_eq_iff flags tid firstSmall
    secondSmall]

theorem shuffleEngine_ne_iff_next :
    shuffleEngine .mersenne (seedFlags {} 1) 0 ≠ shuffleEngine .mersenne (seedFlags {} 2) 0 := by
  have apart := shuffleEngine_ne_iff .mersenne mersenne_seeded {} 0 1 2 (by norm_num)
    (by norm_num)
  exact apart.mpr (by norm_num)

/-- The numbers 1 and 257 share an engine. -/
theorem shuffleEngine_collides :
    ¬ ∀ library : RandomLibrary, Function.Injective library.mt19937 →
      ∀ (flags : Flags) (tid : UInt32), tid ∈ threadIds flags → ∀ first second : ℕ,
        first < 2 ^ 32 → second < 2 ^ 32 → first ≠ second →
        shuffleEngine library (seedFlags flags first) tid
          ≠ shuffleEngine library (seedFlags flags second) tid := by
  intro apart
  have different := apart .mersenne mersenne_seeded {} 0 (by simp [mem_threadIds]) 1 257
    (by norm_num) (by norm_num) (by norm_num)
  have same := (shuffleSeed_eq_iff {} 0 (show 1 < 2 ^ 32 by norm_num)
    (show 257 < 2 ^ 32 by norm_num)).mpr rfl
  exact different (congrArg RandomLibrary.mersenne.mt19937 same)

/-- With numbers that share an engine every thread gets the same keys, under
    two file names. -/
theorem generateThread_sameSeed (library : RandomLibrary) (flags : Flags) (fuel : ℕ) (tid : UInt32)
    {first second : ℕ} (firstSmall : first < 2 ^ 32) (secondSmall : second < 2 ^ 32)
    (same : first % 256 = second % 256) :
    (generateThread library (seedFlags flags first) fuel tid).map Generated.keys
      = (generateThread library (seedFlags flags second) fuel tid).map Generated.keys := by
  have seeds := (shuffleSeed_eq_iff flags tid firstSmall secondSmall).mpr same
  apply generateThread_congr
  case num => simp
  case threads => simp
  case distribution => simp
  case sorted =>
    intro _
    funext keys
    simp only [sortKeys_seeded, shuffleEngine, seeds]

end FdpRocks.Benchmark
