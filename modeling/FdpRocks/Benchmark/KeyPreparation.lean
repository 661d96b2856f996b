import FdpRocks.Benchmark.UserKeyFile

/-! # Key preparation without arithmetic faults

`Run` checks `--num` only.  Without worker threads `PrepareShuffledKeys`
divides by zero, and a uniform range up to the largest 64-bit value never ends.

* `loadThread_ok_iff` — the files that the first pass accepts.
* `share_lt` — where the ranges of the threads before the last one end.
* `faultFree_iff` — the calls without a fault.
-/

namespace FdpRocks.Benchmark

open FdpRocks.Library.Words

variable {library : RandomLibrary} {flags : Flags} {host : Host} {fileSystem : FileSystem}

/-! ## Statement -/

/-- `start_key` and `end_key` are what unbounded arithmetic makes of them. -/
structure ExactRange (flags : Flags) (tid : UInt32) : Prop where
  start : (uniformStart (keysPerThread flags) tid).toNat
    = tid.toNat * (flags.num.toNat / flags.workerThreads.toNat) + 1
  fits : (uniformStart (keysPerThread flags) tid).toNat + (expectedCount flags tid).toNat < 2 ^ 64
  finish : (uniformEnd (keysPerThread flags) (expectedCount flags tid) tid).toNat
    = (uniformStart (keysPerThread flags) tid).toNat + (expectedCount flags tid).toNat - 1

/-- No division by zero, no wrapped range of a thread that generates keys, and
    an end of the call. -/
structure FaultFree (library : RandomLibrary) (flags : Flags) (host : Host)
    (fileSystem : FileSystem) : Prop where
  division : ∀ fuel, prepareShuffledKeys library flags host fuel fileSystem ≠ some .divisionFault
  ranges : flags.keyDistribution = "uniform" → ∀ tid ∈ threadIds flags,
    (loadThread flags host fileSystem tid).ok = false → 1 ≤ (expectedCount flags tid).toNat →
    ExactRange flags tid
  terminates : ∃ fuel, (prepareShuffledKeys library flags host fuel fileSystem).isSome

/-- The thread's file can be read and has as many keys as the thread expects. -/
def Cached (flags : Flags) (host : Host) (fileSystem : FileSystem) (tid : UInt32) : Prop :=
  host.reading (keyFile flags tid) = .sound ∧ ∃ bytes,
    fileSystem.content (keyFile flags tid) = some bytes ∧
    bytes.length = 8 * (expectedCount flags tid).toNat

/-- The settings and files with which no fault happens. -/
def SafeToPrepare (flags : Flags) (host : Host) (fileSystem : FileSystem) : Prop :=
  acceptedDistribution flags = false ∨ flags.workerThreads ≠ 0 ∧
    (flags.keyDistribution = "uniform" → flags.num.toNat = 2 ^ 64 - 1 →
      Cached flags host fileSystem (flags.workerThreads - 1))

/-! ## Files and shares -/

theorem loadThread_ok_iff {tid : UInt32} :
    (loadThread flags host fileSystem tid).ok = true ↔ Cached flags host fileSystem tid := by
  constructor
  · intro accepted
    obtain ⟨bytes, content, size, _⟩ := loadThread_ok accepted
    refine ⟨?_, bytes, content, size⟩
    cases reading : host.reading (keyFile flags tid) with
    | sound => rfl
    | denied => simp [loadThread, loadKeysFromFile, content, reading] at accepted
    | faulty => simp [loadThread, loadKeysFromFile, content, reading, size] at accepted
  · intro cached
    obtain ⟨sound, bytes, content, size⟩ := cached
    exact (loadThread_sound content sound size).1

/-- Short of the largest 64-bit value, a range is what it should be. -/
theorem exactRange_of_lt {tid : UInt32} (member : tid ∈ threadIds flags)
    (bounded : tid.toNat * (flags.num.toNat / flags.workerThreads.toNat)
      + (expectedCount flags tid).toNat < 2 ^ 64 - 1) : ExactRange flags tid := by
  have start := uniformStart_toNat member
  have finish := uniformEnd_toNat member
  exact ⟨start, by omega, by omega⟩

theorem keys_of_cached {tid : UInt32} (cached : Cached flags host fileSystem tid) :
    (loadThread flags host fileSystem tid).keys.length = (expectedCount flags tid).toNat := by
  obtain ⟨sound, bytes, content, size⟩ := cached
  rw [(loadThread_sound content sound size).2, decodeWords_length]

/-- Whenever the last thread's keys are cached, the range of a thread that
    generates ends short of the largest 64-bit value. -/
theorem share_bounded (workers : flags.workerThreads ≠ 0)
    (cached : flags.num.toNat = 2 ^ 64 - 1 → Cached flags host fileSystem (flags.workerThreads - 1))
    {tid : UInt32} (member : tid ∈ threadIds flags)
    (empty : (loadThread flags host fileSystem tid).keys = []) :
    tid.toNat * (flags.num.toNat / flags.workerThreads.toNat) + (expectedCount flags tid).toNat
      < 2 ^ 64 - 1 := by
  have share := share_le member
  have bound := flags.num.toNat_lt
  by_cases largest : flags.num.toNat = 2 ^ 64 - 1
  · have someKeys : 1 ≤ flags.num.toNat := by omega
    have notLast : tid ≠ flags.workerThreads - 1 := by
      intro last
      have count := keys_of_cached (cached largest)
      rw [← last, empty, last] at count
      have positive := lastCount_pos workers someKeys
      simp at count
      omega
    have before := share_lt workers someKeys member notLast
    omega
  · omega

/-! ## The whole call -/

theorem prepareShuffledKeys_divides (workers : flags.workerThreads ≠ 0) (fuel : ℕ) :
    prepareShuffledKeys library flags host fuel fileSystem ≠ some .divisionFault := by
  intro fault
  simp only [prepareShuffledKeys, if_neg workers] at fault
  split at fault
  next => cases fault
  next =>
    split at fault
    next => cases fault
    next =>
      obtain ⟨pass, _, equal⟩ := Option.bind_eq_some_iff.mp fault
      cases equal

theorem prepareShuffledKeys_refused (refused : acceptedDistribution flags = false) (fuel : ℕ) :
    ∃ stderr, prepareShuffledKeys library flags host fuel fileSystem = some (.exited stderr) := by
  simp [prepareShuffledKeys, refused]

/-- An uncached last thread with a uniform range up to the largest 64-bit value. -/
theorem prepareShuffledKeys_diverges (uniform : flags.keyDistribution = "uniform")
    (workers : flags.workerThreads ≠ 0) (largest : flags.num.toNat = 2 ^ 64 - 1)
    (uncached : ¬ Cached flags host fileSystem (flags.workerThreads - 1)) (fuel : ℕ) :
    prepareShuffledKeys library flags host fuel fileSystem = none := by
  have member := last_mem workers
  have rejected : (loadThread flags host fileSystem (flags.workerThreads - 1)).ok = false := by
    rw [← Bool.not_eq_true, loadThread_ok_iff]
    exact uncached
  have accepted : acceptedDistribution flags = true := by simp [acceptedDistribution, uniform]
  have missing : ¬ ((threadIds flags).map (loadThread flags host fileSystem)).all Loaded.ok = true := by
    intro all
    rw [List.all_map, List.all_eq_true] at all
    have loaded := all _ member
    simp [rejected] at loaded
  cases second : generatePass library flags host fuel (firstPass flags host fileSystem) fileSystem with
  | none =>
    simp only [prepareShuffledKeys, accepted, if_neg workers, if_neg missing, not_true_eq_false,
      if_false]
    rw [firstPass] at second
    rw [second]
    rfl
  | some pass =>
    -- The second pass reaches the last thread, and its loop does not come back.
    obtain ⟨generated, generates⟩ := secondPass_generates second member (loadThread_failed rejected)
    rw [generateThread_diverges library member uniform ((lastShare_eq workers).trans largest)]
      at generates
    cases generates

/-- A refused distribution ends the process before anything is divided. -/
theorem faultFree_refused (refused : acceptedDistribution flags = false) :
    FaultFree library flags host fileSystem := by
  have exits : ∀ fuel, ∃ stderr,
      prepareShuffledKeys library flags host fuel fileSystem = some (.exited stderr) :=
    prepareShuffledKeys_refused refused
  constructor
  case division =>
    intro fuel fault
    obtain ⟨stderr, exited⟩ := exits fuel
    rw [exited] at fault
    cases fault
  case ranges =>
    intro uniform
    simp [acceptedDistribution, uniform] at refused
  case terminates =>
    obtain ⟨stderr, exited⟩ := exits 0
    exact ⟨0, by rw [exited]; rfl⟩

theorem faultFree_cached (workers : flags.workerThreads ≠ 0)
    (cached : flags.keyDistribution = "uniform" → flags.num.toNat = 2 ^ 64 - 1 →
      Cached flags host fileSystem (flags.workerThreads - 1)) :
    FaultFree library flags host fileSystem := by
  cases accepted : acceptedDistribution flags with
  | false => exact faultFree_refused accepted
  | true =>
    constructor
    case division => exact prepareShuffledKeys_divides workers
    case ranges =>
      intro uniform tid member rejected _
      have empty := loadThread_failed rejected
      exact exactRange_of_lt member (share_bounded workers (cached uniform) member empty)
    case terminates =>
      obtain ⟨plan, returns⟩ : ∃ plan, prepareShuffledKeys library flags host
          (flags.num.toNat + 1) fileSystem = some (.returned plan) := by
        apply prepareShuffledKeys_total accepted workers
        intro entry member empty
        obtain ⟨known, keys⟩ := mem_firstPass member
        rw [keys] at empty
        exact generateThread_total library known
          (fun uniform => share_bounded workers (cached uniform) known empty)
          (Nat.lt_succ_self _)
      exact ⟨_, by rw [returns]; rfl⟩

/-- The calls without an arithmetic fault that come to an end. -/
theorem faultFree_iff (library : RandomLibrary) (flags : Flags) (host : Host)
    (fileSystem : FileSystem) :
    FaultFree library flags host fileSystem ↔ SafeToPrepare flags host fileSystem := by
  constructor
  · intro free
    by_contra exposed
    simp only [SafeToPrepare, not_or, not_and, Classical.not_imp, Bool.not_eq_false] at exposed
    obtain ⟨accepted, faulty⟩ := exposed
    by_cases workers : flags.workerThreads = 0
    · exact free.division 0 (by simp [prepareShuffledKeys, accepted, workers])
    · obtain ⟨uniform, largest, uncached⟩ := faulty workers
      obtain ⟨fuel, ends⟩ := free.terminates
      rw [prepareShuffledKeys_diverges uniform workers largest uncached] at ends
      cases ends
  · intro safe
    cases safe with
    | inl refused => exact faultFree_refused refused
    | inr prepared => exact faultFree_cached prepared.1 prepared.2

/-- `--worker_threads=0` is not caught before the division, nor a range of all
    64-bit keys before its loop. -/
theorem preparation_faults :
    ¬ FaultFree .still { workerThreads := 0, num := 1 } .cooperative .empty ∧
      ¬ FaultFree .still { num := 18446744073709551615 } .cooperative .empty := by
  constructor
  · intro free
    exact free.division 0 rfl
  · intro free
    obtain ⟨fuel, ends⟩ := free.terminates
    have uncached : ¬ Cached { num := 18446744073709551615 } .cooperative .empty (1 - 1) := by
      intro cached
      obtain ⟨_, bytes, content, _⟩ := cached
      cases content
    have endless := @prepareShuffledKeys_diverges .still { num := 18446744073709551615 }
      .cooperative .empty rfl (by decide) rfl uncached fuel
    rw [endless] at ends
    cases ends

end FdpRocks.Benchmark
