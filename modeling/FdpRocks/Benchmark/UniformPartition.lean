import FdpRocks.Benchmark.PrepareKeysSoundness

/-! # The uniform workload is a partition

With no key-order file to load, the threads' vectors split `1..num_`: every
key is in exactly one of them, once, and the shares have the sizes that the
benchmark announces.
-/

namespace FdpRocks.Benchmark

/-- The vectors of all threads are a division of the keys `1..num_`. -/
structure ExactPartition (flags : Flags) (vectors : List (List UInt64)) : Prop where
  threads : vectors.length = flags.workerThreads.toNat
  shares : ∀ tid (bound : tid < vectors.length), vectors[tid].length
    = flags.num.toNat / flags.workerThreads.toNat
      + if tid = flags.workerThreads.toNat - 1
        then flags.num.toNat % flags.workerThreads.toNat else 0
  keys : (vectors.flatten.map UInt64.toNat).Perm (List.range' 1 flags.num.toNat)

/-- Equal shares, one after the other, make up one range. -/
theorem equalShares_flatten (share threads : Nat) :
    ((List.range threads).map fun tid => keyRange (tid * share + 1) share).flatten
      = keyRange 1 (threads * share) := by
  induction threads with
  | zero => simp [keyRange]
  | succ threads inductionHypothesis =>
    rw [List.range_succ, List.map_append, List.flatten_append, inductionHypothesis]
    simp only [List.map_cons, List.map_nil, List.flatten_cons, List.flatten_nil, List.append_nil]
    rw [Nat.add_comm (threads * share) 1, keyRange_append, Nat.succ_mul]

/-- The range of keys `PrepareShuffledKeys` gives a thread before sorting it. -/
def threadRange (flags : Flags) (tid : UInt32) : List UInt64 :=
  keyRange (tid.toNat * (flags.num.toNat / flags.workerThreads.toNat) + 1)
    (expectedCount flags tid).toNat

theorem threadRanges_flatten {flags : Flags} (workers : flags.workerThreads ≠ 0) :
    ((threadIds flags).map (threadRange flags)).flatten = keyRange 1 flags.num.toNat := by
  obtain ⟨earlier, threads⟩ := Nat.exists_eq_add_of_le' (workerThreads_pos workers)
  have bound := flags.workerThreads.toNat_lt
  have value : ∀ index ≤ earlier, (UInt32.ofNat index).toNat = index := by
    intro index small
    exact UInt32.toNat_ofNat_of_lt' (show index < 2 ^ 32 by omega)
  have division := Nat.div_add_mod flags.num.toNat flags.workerThreads.toNat
  have equalShares : (List.range earlier).map (fun index => threadRange flags (UInt32.ofNat index))
      = (List.range earlier).map fun index =>
          keyRange (index * (flags.num.toNat / flags.workerThreads.toNat) + 1)
            (flags.num.toNat / flags.workerThreads.toNat) := by
    apply List.map_congr_left
    intro index member
    rw [List.mem_range] at member
    rw [threadRange, expectedCount_toNat workers, value index (by omega), if_neg (by omega)]
    rfl
  rw [threadIds, List.map_map, threads, List.range_succ, List.map_append, List.flatten_append]
  simp only [Function.comp_def, List.map_cons, List.map_nil, List.flatten_cons, List.flatten_nil,
    List.append_nil]
  -- The last thread continues where the equal shares end, and takes the remainder.
  rw [equalShares, equalShares_flatten, threadRange, expectedCount_toNat workers,
    value earlier le_rfl, if_pos (by omega), Nat.add_comm (earlier * _) 1, keyRange_append]
  congr 1
  rw [threads, Nat.add_mul, Nat.one_mul] at division
  rw [threads]
  omega

theorem keyRange_toNat {count : Nat} (bounded : count < 2 ^ 64) :
    (keyRange 1 count).map UInt64.toNat = List.range' 1 count := by
  rw [keyRange, List.map_map]
  conv_rhs => rw [← List.map_id (List.range' 1 count)]
  apply List.map_congr_left
  intro key member
  rw [List.mem_range'_1] at member
  exact UInt64.toNat_ofNat_of_lt' (show key < 2 ^ 64 by omega)

theorem sortedShares_partition (library : RandomLibrary) {flags : Flags}
    (workers : flags.workerThreads ≠ 0) :
    ExactPartition flags
      ((threadIds flags).map fun tid => sortKeys library flags tid (threadRange flags tid)) := by
  refine ⟨by simp, ?_, ?_⟩
  · intro tid bound
    rw [List.length_map, threadIds_length] at bound
    have value : (UInt32.ofNat tid).toNat = tid :=
      UInt32.toNat_ofNat_of_lt' (Nat.lt_trans bound flags.workerThreads.toNat_lt)
    simp only [List.getElem_map, threadIds, List.getElem_range]
    rw [(sortKeys_perm library flags _ _).length_eq, threadRange, keyRange_length,
      expectedCount_toNat workers, value]
  · have unsorted : (((threadIds flags).map fun tid =>
        sortKeys library flags tid (threadRange flags tid)).flatten).Perm
          ((threadIds flags).map (threadRange flags)).flatten := by
      apply List.Perm.flatten_congr
      rw [List.forall₂_map_left_iff, List.forall₂_map_right_iff, List.forall₂_same]
      exact fun tid _ => sortKeys_perm library flags tid _
    rw [threadRanges_flatten workers] at unsorted
    have keys := unsorted.map UInt64.toNat
    rwa [keyRange_toNat flags.num.toNat_lt] at keys

/-- When no key-order file can be loaded, a uniform workload is an exact
    partition, whatever the sort order and the shuffles. -/
theorem prepareShuffledKeys_uniform (library : RandomLibrary) (flags : Flags) (host : Host)
    (fileSystem : FileSystem) (bounded : flags.num.toNat < 2 ^ 64 - 1)
    (workers : 1 ≤ flags.workerThreads.toNat)
    (uniform : flags.keyDistribution = "uniform")
    (unloadable : ∀ tid ∈ threadIds flags,
      (loadKeysFromFile flags host fileSystem tid.toInt32 []).ok = false)
    (fuel : Nat) (enough : flags.num.toNat < fuel) :
    ∃ plan, prepareShuffledKeys library flags host fuel fileSystem = some (.returned plan) ∧
      ExactPartition flags plan.shuffledKeys := by
  have someThreads : flags.workerThreads ≠ 0 := by
    intro none
    simp [none] at workers
  have rejected : ∀ tid ∈ threadIds flags, (loadThread flags host fileSystem tid).ok = false := by
    intro tid member
    simp [loadThread, unloadable tid member]
  have within : ∀ tid ∈ threadIds flags, tid.toNat * (flags.num.toNat / flags.workerThreads.toNat)
      + (expectedCount flags tid).toNat < 2 ^ 64 - 1 :=
    fun tid member => Nat.lt_of_le_of_lt (share_le member) bounded
  obtain ⟨plan, returns⟩ : ∃ plan,
      prepareShuffledKeys library flags host fuel fileSystem = some (.returned plan) :=
    prepareShuffledKeys_total (by simp [acceptedDistribution, uniform]) someThreads
    (fun entry member _ => generateThread_total library (mem_firstPass member).1
      (fun _ => within entry.1 (mem_firstPass member).1) enough)
  refine ⟨plan, returns, ?_⟩
  obtain ⟨_, _, ⟨_, loaded, _⟩ | ⟨_, _, vectors, _⟩⟩ := prepareShuffledKeys_cases returns
  · -- Thread 0 has no file, so the function does not take the loaded exit.
    have first : 0 ∈ threadIds flags := mem_threadIds.mpr (workerThreads_pos someThreads)
    exact absurd (loaded 0 first) (by simp [rejected 0 first])
  · have sorted : plan.shuffledKeys
        = (threadIds flags).map fun tid => sortKeys library flags tid (threadRange flags tid) := by
      rw [vectors]
      apply List.map_congr_left
      intro tid member
      have enoughHere : (expectedCount flags tid).toNat < fuel := by
        have := share_le member
        omega
      obtain ⟨generated, generates, keys⟩ := generateUniformKeys_run library member
        (within tid member) enoughHere
      have returned : generateThread library flags fuel tid = some generated := by
        rw [generateThread, if_pos uniform]
        exact generates
      rw [if_pos (loadThread_failed (rejected tid member)), generatedKeys_of_some returned, keys]
      rfl
    rw [sorted]
    exact sortedShares_partition library someThreads

theorem prepareShuffledKeys_uniform_three :
    ∃ plan, prepareShuffledKeys .still { workerThreads := 3, num := 7, keySort := "descending" }
        .cooperative 8 .empty = some (.returned plan) ∧
      ExactPartition { workerThreads := 3, num := 7, keySort := "descending" }
        plan.shuffledKeys :=
  prepareShuffledKeys_uniform .still { workerThreads := 3, num := 7, keySort := "descending" }
    .cooperative .empty (by decide) (by decide) rfl (fun _ _ => rfl) 8 (by decide)

end FdpRocks.Benchmark
