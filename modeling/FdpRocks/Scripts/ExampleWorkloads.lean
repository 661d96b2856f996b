import FdpRocks.Benchmark.PrepareKeysSoundness
import FdpRocks.Library.Rounds

/-! # `generate_example_workloads.py`

`write_phase1` and the way of its file into `PrepareShuffledKeys`.

* `writePhase1_rounds` — the words written go through the keys in rounds.
* `writePhase1_balanced` — what that means for the file, and what loads it.
-/

namespace FdpRocks.Scripts

open FdpRocks.Benchmark FdpRocks.Library FdpRocks.Library.Loop FdpRocks.Library.Words

/-! ## The script -/

/-- What the script takes from numpy; the generator's draws are numbered. -/
structure Numpy where
  /-- `np.arange (start, stop, dtype="<u8")`. -/
  arange : ℕ → ℕ → List UInt64
  shuffle : ℕ → List UInt64 → List UInt64

/-- `arange` counts from `start` to `stop - 1`, and `shuffle` permutes. -/
structure Numpy.Documented (numpy : Numpy) (keyspace : ℕ) : Prop where
  arange : (numpy.arange 1 (keyspace + 1)).map UInt64.toNat = List.range' 1 keyspace
  shuffle : ∀ draw keys, (numpy.shuffle draw keys).Perm keys

structure Phase1 where
  remaining : ℕ
  draws : ℕ
  written : List UInt8

variable (numpy : Numpy) (count keyspace : ℕ)

/-- One turn of the `while` loop; `tobytes` of `<u8` is little-endian. -/
def Phase1.turn (state : Phase1) : Turn Phase1 (List UInt8) :=
  if state.remaining = 0 then .done state.written
  else
    let keys := numpy.shuffle state.draws (numpy.arange 1 (keyspace + 1))
    let chunk := keys.take state.remaining
    .again ⟨state.remaining - chunk.length, state.draws + 1,
      state.written ++ encodeWords .little chunk⟩

/-- The bytes of the file; without any key the loop never ends. -/
def writePhase1 : Option (List UInt8) :=
  run (Phase1.turn numpy keyspace) (count + 1) ⟨count, 0, []⟩

/-! ## What is written -/

variable {numpy count keyspace}

theorem encodeWords_append (order : ByteOrder) (earlier later : List UInt64) :
    encodeWords order (earlier ++ later) = encodeWords order earlier ++ encodeWords order later :=
  List.flatMap_append

/-- The words so far: whole rounds, and a part of one once nothing remains. -/
structure Phase1.Writing (base : List UInt64) (count : ℕ) (state : Phase1) : Prop where
  words : ∃ (blocks : List (List UInt64)) (block part : List UInt64),
    (∀ earlier ∈ blocks, earlier.Perm base) ∧ block.Perm base ∧ part <+: block ∧
    state.written = encodeWords .little (blocks.flatten ++ part) ∧
    (blocks.flatten ++ part).length + state.remaining = count ∧
    (part = [] ∨ state.remaining = 0)

variable {base : List UInt64}

theorem Phase1.Writing.turn {state next : Phase1} (writing : state.Writing base count)
    (arange : numpy.arange 1 (keyspace + 1) = base)
    (shuffle : ∀ draw keys, (numpy.shuffle draw keys).Perm keys) (some : base ≠ [])
    (again : state.turn numpy keyspace = .again next) :
    next.Writing base count ∧ next.remaining < state.remaining := by
  obtain ⟨blocks, block, part, permute, permutes, first, written, length, ends⟩ := writing.words
  unfold Phase1.turn at again
  split at again
  next => cases again
  next more =>
    have empty := ends.resolve_right more
    subst empty
    rw [arange] at again
    have shuffled := shuffle state.draws base
    generalize numpy.shuffle state.draws base = keys at again shuffled
    cases again
    dsimp only
    have someKeys : 0 < keys.length := by
      rw [shuffled.length_eq]
      exact List.length_pos_of_ne_nil some
    rw [List.append_nil] at written length
    refine ⟨⟨?_⟩, ?_⟩
    · by_cases fits : keys.length ≤ state.remaining
      · -- A whole round.
        rw [List.take_of_length_le fits]
        refine ⟨blocks ++ [keys], keys, [], ?_, shuffled, List.nil_prefix, ?_, ?_, .inl rfl⟩
        · intro earlier member
          cases List.mem_append.mp member with
          | inl before => exact permute earlier before
          | inr last => exact List.mem_singleton.mp last ▸ shuffled
        · simp [written, encodeWords_append]
        · simp only [List.flatten_append, List.flatten_singleton, List.append_nil,
            List.length_append]
          omega
      · refine ⟨blocks, keys, keys.take state.remaining, permute, shuffled, List.take_prefix _ _,
          ?_, ?_, .inr ?_⟩
        · rw [encodeWords_append, written]
        · simp only [List.length_append, List.length_take]
          omega
        · simp only [List.length_take]
          omega
    · simp only [List.length_take]
      omega

/-- The script ends, and its words go through the keys in rounds. -/
theorem writePhase1_rounds (documented : numpy.Documented keyspace) (someKeys : 0 < keyspace) :
    ∃ words, writePhase1 numpy count keyspace = some (encodeWords .little words) ∧
      words.length = count ∧ Rounds (numpy.arange 1 (keyspace + 1)) words := by
  have length : (numpy.arange 1 (keyspace + 1)).length = keyspace := by
    simpa using congrArg List.length documented.arange
  have some : numpy.arange 1 (keyspace + 1) ≠ [] := List.ne_nil_of_length_pos (by omega)
  obtain ⟨bytes, returns, words, rfl, counted, rounds⟩ := run_total
    (Phase1.turn numpy keyspace)
    (fun state => state.Writing (numpy.arange 1 (keyspace + 1)) count)
    (fun state => state.remaining)
    (fun bytes => ∃ words, bytes = encodeWords .little words ∧ words.length = count ∧
      Rounds (numpy.arange 1 (keyspace + 1)) words)
    (fun state next writing again => writing.turn rfl documented.shuffle some again)
    (by
      intro state result writing leaves
      obtain ⟨blocks, block, part, permute, permutes, first, written, length, _⟩ := writing.words
      unfold Phase1.turn at leaves
      split at leaves
      next finished =>
        cases leaves
        exact ⟨_, written, by omega, .flatten permute permutes first⟩
      next => cases leaves)
    (⟨⟨[], _, [], by simp, .refl _, List.nil_prefix, rfl, Nat.zero_add _, .inl rfl⟩⟩ :
      (⟨count, 0, []⟩ : Phase1).Writing _ count)
    (Nat.lt_succ_self count)
  exact ⟨words, returns, counted, rounds⟩

/-! ## The file as key file -/

theorem threadIds_single {flags : Flags} (single : flags.workerThreads = 1) :
    threadIds flags = [0] := by
  rw [threadIds, single]
  rfl

/-- A single worker takes a file of as many words as it needs. -/
theorem prepareShuffledKeys_single (library : RandomLibrary) {flags : Flags} {host : Host}
    (fuel : ℕ) {fileSystem : FileSystem} {words : List UInt64} (single : flags.workerThreads = 1)
    (total : flags.num.toNat = words.length) (given : flags.keyFilePath ≠ "")
    (content : fileSystem.content flags.keyFilePath = some (encodeWords host.order words))
    (sound : host.reading flags.keyFilePath = .sound)
    (distribution : acceptedDistribution flags = true) :
    ∃ plan, prepareShuffledKeys library flags host fuel fileSystem = some (.returned plan) ∧
      plan.allLoaded = true ∧ plan.shuffledKeys = [words] := by
  have workers : flags.workerThreads ≠ 0 := by
    rw [single]
    decide
  -- A single worker has every key as its share.
  have expected : (expectedCount flags 0).toNat = words.length := by
    rw [expectedCount_toNat workers, single, ← total]
    simp [Nat.mod_one]
  have file : keyFile flags 0 = flags.keyFilePath := getKeyOrderFilePath_given given _
  obtain ⟨loads, keys⟩ := loadThread_sound (file.symm ▸ content) (file.symm ▸ sound)
    (by rw [expected, encodeWords_length])
  rw [expected, decodeWords_encodeWords] at keys
  have loaded : (threadIds flags).map (loadThread flags host fileSystem)
      = [loadThread flags host fileSystem 0] := by
    rw [threadIds_single single]
    rfl
  unfold prepareShuffledKeys
  rw [if_neg (by simp [distribution]), if_neg workers]
  dsimp only
  rw [loaded, if_pos (by simp [loads])]
  exact ⟨_, rfl, rfl, by rw [List.map_singleton, keys]⟩

/-- The file of `write_phase1` has the keys in equal numbers, up to one, and a
    single worker on a little-endian host takes over its words as they are. -/
theorem writePhase1_balanced (documented : numpy.Documented keyspace) (someKeys : 1 ≤ keyspace) :
    ∃ bytes words, writePhase1 numpy count keyspace = some bytes ∧ bytes.length = 8 * count ∧
      words = decodeWords .little count bytes ∧
      (∀ word ∈ words, 1 ≤ word.toNat ∧ word.toNat ≤ keyspace) ∧
      (∀ window, (window + 1) * keyspace ≤ count →
        (((words.drop (window * keyspace)).take keyspace).map UInt64.toNat).Perm
          (List.range' 1 keyspace)) ∧
      (∀ first second, 1 ≤ first → first ≤ keyspace → 1 ≤ second → second ≤ keyspace →
        (words.map UInt64.toNat).count first ≤ (words.map UInt64.toNat).count second + 1) ∧
      (∀ (library : RandomLibrary) (flags : Flags) (host : Host) (fuel : ℕ)
          (fileSystem : FileSystem), flags.workerThreads = 1 → flags.num.toNat = count →
        flags.keyFilePath ≠ "" → fileSystem.content flags.keyFilePath = some bytes →
        host.order = .little → host.reading flags.keyFilePath = .sound →
        acceptedDistribution flags = true →
        ∃ plan, prepareShuffledKeys library flags host fuel fileSystem = some (.returned plan) ∧
          plan.allLoaded = true ∧ plan.shuffledKeys = [words]) := by
  obtain ⟨words, returns, length, rounds⟩ := @writePhase1_rounds numpy count keyspace documented someKeys
  have decoded : words = decodeWords .little count (encodeWords .little words) := by
    rw [← length, decodeWords_encodeWords]
  have numbers : Rounds (List.range' 1 keyspace) (words.map UInt64.toNat) := by
    rw [← documented.arange]
    exact rounds.map UInt64.toNat
  refine ⟨_, words, returns, by rw [encodeWords_length, length], decoded, ?_, ?_, ?_, ?_⟩
  · intro word member
    have inside := List.mem_range'_1.mp (numbers.mem (List.mem_map_of_mem member))
    omega
  · intro window fits
    have inside : (window + 1) * (List.range' 1 keyspace).length
        ≤ (words.map UInt64.toNat).length := by
      rw [List.length_range', List.length_map, length]
      exact fits
    have permutes := numbers.window inside
    rw [List.length_range', ← List.map_drop, ← List.map_take] at permutes
    exact permutes
  · intro first second firstLow firstHigh secondLow secondHigh
    -- Every key occurs in each whole round, and at most once in the last.
    obtain ⟨turns, even⟩ := numbers.count List.nodup_range'
    have left := even first (List.mem_range'_1.mpr ⟨firstLow, by omega⟩)
    have right := even second (List.mem_range'_1.mpr ⟨secondLow, by omega⟩)
    omega
  · intro library flags host fuel fileSystem single total given content little sound distribution
    exact prepareShuffledKeys_single library fuel single (total.trans length.symm) given
      (little ▸ content) sound distribution

/-- Counts through the keys, and turns them once further at each draw. -/
def Numpy.turning : Numpy where
  arange start stop := (List.range' start (stop - start)).map UInt64.ofNat
  shuffle draw keys := keys.rotate draw

/-- Five keys out of three: one round, and two of the next. -/
theorem writePhase1_balanced_five :
    ∃ bytes, writePhase1 .turning 5 3 = some bytes ∧ bytes.length = 8 * 5 := by
  obtain ⟨bytes, _, returns, length, _⟩ := @writePhase1_balanced .turning 5 3
    ⟨by decide, fun draw keys => List.rotate_perm keys draw⟩ (by decide)
  exact ⟨bytes, returns, length⟩

end FdpRocks.Scripts
