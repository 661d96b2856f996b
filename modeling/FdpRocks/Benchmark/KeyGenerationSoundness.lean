import FdpRocks.Benchmark.KeyGeneration

/-! # The generators produce as many keys as they are asked for

`uniformKeys_run` is the exact meaning of the wrapping range loop;
`generateZipfianKeys_length` and `generateHotspotZipfianKeys_length` count the
random draws.
-/

namespace FdpRocks.Benchmark

open FdpRocks.Library.Loop

/-! ## Uniform keys -/

/-- The keys `start, start + 1, …`, `count` of them. -/
def keyRange (start count : Nat) : List UInt64 :=
  (List.range' start count).map UInt64.ofNat

@[simp] theorem keyRange_length (start count : Nat) : (keyRange start count).length = count := by
  simp [keyRange]

theorem keyRange_succ (start count : Nat) :
    keyRange start (count + 1) = UInt64.ofNat start :: keyRange (start + 1) count := by
  simp [keyRange, List.range'_succ]

theorem keyRange_append (start first second : Nat) :
    keyRange start first ++ keyRange (start + first) second = keyRange start (first + second) := by
  simp [keyRange, ← List.map_append, List.range'_append_1]

/-- Below the largest 64-bit value the loop stops right after `end_key`. -/
theorem uniformKeys_run {endKey : UInt64} (bounded : endKey.toNat < 2 ^ 64 - 1) (count : Nat) :
    ∀ (key : UInt64) (keys : List UInt64) (fuel : Nat), key.toNat + count = endKey.toNat + 1 →
      count < fuel →
      run (rangeTurn endKey) fuel (key, keys) = some (keys ++ keyRange key.toNat count) := by
  induction count with
  | zero =>
    intro key keys fuel reached enough
    obtain ⟨fuel, rfl⟩ := Nat.exists_eq_add_of_lt enough
    have past : ¬ key ≤ endKey := by rw [UInt64.le_iff_toNat_le]; omega
    rw [Nat.zero_add]
    have turn : rangeTurn endKey (key, keys) = .done keys := by simp [rangeTurn, past]
    simpa [keyRange] using run_done turn fuel
  | succ count inductionHypothesis =>
    intro key keys fuel reached enough
    obtain ⟨fuel, rfl⟩ := Nat.exists_eq_add_of_le' (show 1 ≤ fuel by omega)
    have inside : key ≤ endKey := by rw [UInt64.le_iff_toNat_le]; omega
    have next : (key + 1).toNat = key.toNat + 1 := by
      rw [UInt64.toNat_add, UInt64.toNat_one]
      omega
    have turn : rangeTurn endKey (key, keys) = .again (key + 1, keys ++ [key]) := by
      simp [rangeTurn, inside]
    rw [run_again turn, inductionHypothesis (key + 1) (keys ++ [key]) fuel (by omega) (by omega),
      next, keyRange_succ]
    simp

/-- Up to the largest 64-bit value the loop condition never fails. -/
theorem uniformKeys_diverges {endKey : UInt64} (largest : endKey.toNat = 2 ^ 64 - 1) (fuel : Nat)
    (state : UInt64 × List UInt64) : run (rangeTurn endKey) fuel state = none := by
  apply run_endless (rangeTurn endKey) (fun _ => True) _ trivial
  intro state _
  obtain ⟨key, keys⟩ := state
  have inside : key ≤ endKey := by
    rw [UInt64.le_iff_toNat_le, largest]
    have := key.toNat_lt
    omega
  exact ⟨_, if_pos inside, trivial⟩

theorem sortKeys_perm (library : RandomLibrary) (flags : Flags) (tid : UInt32)
    (keys : List UInt64) : (sortKeys library flags tid keys).Perm keys := by
  unfold sortKeys
  split
  · exact List.Perm.refl keys
  · split
    · exact List.reverse_perm keys
    · exact library.shuffle_perm _ keys

/-! ## Zipfian keys -/

@[simp] theorem drawKeys_length {Engine : Type} (next : Engine → UInt64 × Engine) (count : Nat)
    (engine : Engine) : (drawKeys next count engine).length = count := by
  induction count generalizing engine with
  | zero => rfl
  | succ count inductionHypothesis => simp [drawKeys, inductionHypothesis]

theorem generateZipfianKeys_length (library : RandomLibrary) (flags : Flags) (tid : Int32)
    (keyCount : UInt64) :
    (generateZipfianKeys library flags tid keyCount).length = keyCount.toNat := by
  simp [generateZipfianKeys]

/-! ## Hotspot keys -/

/-- The number of keys in the buckets that `joinBuckets` collects. -/
def bucketTotal (bucket : Nat → List UInt64) : Nat :=
  ∑ hotspotId ∈ Finset.range (numHotspots.toNat + 1), (bucket hotspotId).length

theorem bucketTotal_eq_sum (bucket : Nat → List UInt64) :
    bucketTotal bucket = ((List.range (numHotspots.toNat + 1)).map
      fun hotspotId => (bucket hotspotId).length).sum := by
  unfold bucketTotal
  generalize numHotspots.toNat + 1 = count
  rfl

theorem joinBuckets_length (library : RandomLibrary) (bucket : Nat → List UInt64)
    (ids : List Nat) (shuffleGen : library.Engine) :
    (joinBuckets library bucket ids shuffleGen).length
      = (ids.map fun hotspotId => (bucket hotspotId).length).sum := by
  induction ids generalizing shuffleGen with
  | nil => rfl
  | cons hotspotId rest inductionHypothesis =>
    unfold joinBuckets
    split
    next empty => simp [inductionHypothesis, empty]
    next filled =>
      have same := (library.shuffle_perm shuffleGen (bucket hotspotId)).length_eq
      simp [inductionHypothesis, same]

theorem push_total {Engine : Type} (state : HotspotState Engine) {hotspotId : UInt64}
    (bound : hotspotId ≤ numHotspots) (draw : UInt64 × Engine) :
    bucketTotal (state.push hotspotId draw).bucket = bucketTotal state.bucket + 1 := by
  have index : hotspotId.toNat ∈ Finset.range (numHotspots.toNat + 1) := by
    have := UInt64.le_iff_toNat_le.mp bound
    rw [Finset.mem_range]
    omega
  have grows : ∀ id, ((state.push hotspotId draw).bucket id).length
      = (state.bucket id).length + if id = hotspotId.toNat then 1 else 0 := by
    intro id
    by_cases same : id = hotspotId.toNat
    · subst same; simp [HotspotState.push]
    · simp [HotspotState.push, same]
  unfold bucketTotal
  simp only [grows, Finset.sum_add_distrib, Finset.sum_ite_eq', index, if_true]

theorem hotspotDraw_total (library : RandomLibrary) (weights : List ℚ) (keyIdx : UInt64)
    (state : HotspotState library.Engine) :
    bucketTotal (hotspotDraw library weights keyIdx state).bucket
      = bucketTotal state.bucket + 1 := by
  simp only [hotspotDraw]
  split
  next overflow => exact push_total state (UInt64.le_refl _) _
  next within => exact push_total state (UInt64.le_of_lt (UInt64.not_le.mp within)) _

theorem hotspotDraws_total (library : RandomLibrary) (weights : List ℚ) (remaining : Nat)
    (keyIdx : UInt64) (state : HotspotState library.Engine) :
    bucketTotal (hotspotDraws library weights remaining keyIdx state).bucket
      = bucketTotal state.bucket + remaining := by
  induction remaining generalizing keyIdx state with
  | zero => simp [hotspotDraws]
  | succ remaining inductionHypothesis =>
    rw [hotspotDraws, inductionHypothesis, hotspotDraw_total]
    omega

/-- Each index of the thread's range contributes one key, as long as the end
    of the range does not wrap. -/
theorem generateHotspotZipfianKeys_length (library : RandomLibrary) (flags : Flags)
    (tid : UInt32) (keyCount : UInt64)
    (fits : (tid.toUInt64 * (flags.num / flags.workerThreads.toUInt64)).toNat + keyCount.toNat
      < 2 ^ 64) :
    (generateHotspotZipfianKeys library flags tid keyCount).length = keyCount.toNat := by
  unfold generateHotspotZipfianKeys
  rw [joinBuckets_length, UInt64.toNat_add, Nat.mod_eq_of_lt fits, Nat.add_sub_cancel_left]
  have counted := hotspotDraws_total library (normalize (rankWeights hotspotSize.toNat))
    keyCount.toNat (tid.toUInt64 * (flags.num / flags.workerThreads.toUInt64))
    ⟨fun _ => [], library.mt19937 (fixedSeed + tid.toUInt64).toUInt32⟩
  have empty : bucketTotal (fun _ => []) = 0 := by simp [bucketTotal]
  rw [empty, Nat.zero_add, bucketTotal_eq_sum] at counted
  exact counted

end FdpRocks.Benchmark
