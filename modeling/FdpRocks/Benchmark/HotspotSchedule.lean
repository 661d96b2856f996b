import FdpRocks.Benchmark.UniformPartition

/-! # When each hotspot is written

`GenerateHotspotZipfianKeys` fills one bucket for each hotspot and appends
them.  Indices rise from bucket to bucket, so a key's position still tells the
index it was drawn for.

* `hotspotDraws_filled` — what the buckets hold.
* `joinBuckets_positions` — the buckets in a row against the indices.
* `hotspot_schedule` — the keys of every thread by their global index.
-/

namespace FdpRocks.Benchmark

/-! ## Buckets -/

/-- The bucket that an index falls into; the last one is the overflow. -/
def bucketOf (index : ℕ) : ℕ := min (index / keysPerHotspot.toNat) numHotspots.toNat

/-- A key of this hotspot, or in the overflow any key. -/
def InBucket (hotspotId : ℕ) (key : UInt64) : Prop :=
  if hotspotId < numHotspots.toNat then
    hotspotId * hotspotSize.toNat ≤ key.toNat ∧ key.toNat < (hotspotId + 1) * hotspotSize.toNat
  else key.toNat < hotspotKeySpaceSize.toNat

/-- Every bucket holds a key of its own for each of its indices. -/
def Filled (bucket : ℕ → List UInt64) (indices : List ℕ) : Prop :=
  ∀ hotspotId, (bucket hotspotId).length = (indices.map bucketOf).count hotspotId ∧
    ∀ key ∈ bucket hotspotId, InBucket hotspotId key

variable {library : RandomLibrary}

theorem Filled.push {state : HotspotState library.Engine} {indices : List ℕ}
    (filled : Filled state.bucket indices) {hotspotId : UInt64} {index : ℕ}
    (own : bucketOf index = hotspotId.toNat) {draw : UInt64 × library.Engine}
    (inside : InBucket hotspotId.toNat draw.1) :
    Filled (state.push hotspotId draw).bucket (indices ++ [index]) := by
  intro other
  obtain ⟨length, keys⟩ := filled other
  rw [List.map_append, List.map_singleton, List.count_append, List.count_singleton, own, ← length]
  by_cases same : other = hotspotId.toNat
  · subst same
    rw [HotspotState.push]
    dsimp only
    rw [Function.update_self]
    refine ⟨by simp, ?_⟩
    intro key member
    cases List.mem_append.mp member with
    | inl before => exact keys key before
    | inr last => exact List.mem_singleton.mp last ▸ inside
  · rw [HotspotState.push]
    dsimp only
    rw [Function.update_of_ne same]
    exact ⟨by simp [Ne.symm same], keys⟩

theorem hotspotDraw_filled {weights : List ℚ} (size : weights.length = hotspotSize.toNat)
    {state : HotspotState library.Engine} {indices : List ℕ} (filled : Filled state.bucket indices)
    (keyIdx : UInt64) :
    Filled (hotspotDraw library weights keyIdx state).bucket (indices ++ [keyIdx.toNat]) := by
  have quotient : (keyIdx / keysPerHotspot).toNat = keyIdx.toNat / keysPerHotspot.toNat :=
    UInt64.toNat_div _ _
  unfold hotspotDraw
  dsimp only
  split
  -- Beyond the sixtieth hotspot the key comes from the whole key space.
  next overflow =>
    rw [UInt64.le_iff_toNat_le, quotient] at overflow
    refine filled.push (by rw [bucketOf]; omega) ?_
    rw [InBucket, if_neg (Nat.lt_irrefl _)]
    have drawn := (library.uniformInt_le 0 (hotspotKeySpaceSize - 1) state.engine (by decide)).2
    rw [UInt64.le_iff_toNat_le] at drawn
    exact Nat.lt_of_le_of_lt drawn (by decide)
  next within =>
    rw [UInt64.le_iff_toNat_le, quotient, not_le] at within
    refine filled.push (by rw [bucketOf, quotient]; omega) ?_
    have some : weights ≠ [] := by
      rintro rfl
      cases size
    have offset := library.discrete_lt weights state.engine some
    rw [size] at offset
    rw [quotient, InBucket, if_pos within, UInt64.toNat_add, UInt64.toNat_mul, quotient]
    -- Sixty hotspots of a million keys are far from `2 ^ 64`.
    have hotspots : numHotspots.toNat = 60 := rfl
    have million : hotspotSize.toNat = 1000000 := rfl
    rw [million] at offset ⊢
    omega

theorem hotspotDraws_filled {weights : List ℚ} (size : weights.length = hotspotSize.toNat)
    (remaining : ℕ) {keyIdx : UInt64} (fits : keyIdx.toNat + remaining < 2 ^ 64)
    {state : HotspotState library.Engine} {indices : List ℕ}
    (filled : Filled state.bucket indices) :
    Filled (hotspotDraws library weights remaining keyIdx state).bucket
      (indices ++ List.range' keyIdx.toNat remaining) := by
  -- Every draw appends the index it was made for, so the list of indices grows on the right.
  induction remaining generalizing keyIdx state indices with
  | zero => simpa [hotspotDraws] using filled
  | succ remaining inductionHypothesis =>
    have next : (keyIdx + 1).toNat = keyIdx.toNat + 1 := by
      rw [UInt64.toNat_add, UInt64.toNat_one, Nat.mod_eq_of_lt (by omega)]
    have later : (keyIdx + 1).toNat + remaining < 2 ^ 64 := by omega
    have drawn := inductionHypothesis later (hotspotDraw_filled size filled keyIdx)
    rw [next, List.append_assoc, List.singleton_append, ← List.range'_succ] at drawn
    exact drawn

/-! ## Buckets in a row -/

theorem forall₂_replicate {Left Right : Type} {relation : Left → Right → Prop} {left : Left}
    {items : List Right} (all : ∀ item ∈ items, relation left item) :
    List.Forall₂ relation (List.replicate items.length left) items := by
  induction items with
  | nil => exact .nil
  | cons item items inductionHypothesis =>
    exact .cons (all item List.mem_cons_self)
      (inductionHypothesis fun other member => all other (List.mem_cons_of_mem _ member))

/-- Shuffling inside the buckets leaves every position in its bucket. -/
theorem joinBuckets_positions {bucket : ℕ → List UInt64}
    (keys : ∀ hotspotId, ∀ key ∈ bucket hotspotId, InBucket hotspotId key) (ids : List ℕ)
    (shuffleGen : library.Engine) :
    List.Forall₂ InBucket (ids.flatMap fun hotspotId =>
        List.replicate (bucket hotspotId).length hotspotId)
      (joinBuckets library bucket ids shuffleGen) := by
  induction ids generalizing shuffleGen with
  | nil => exact .nil
  | cons hotspotId rest inductionHypothesis =>
    rw [List.flatMap_cons]
    unfold joinBuckets
    split
    -- An empty bucket leaves the generator as it is.
    next empty =>
      rw [empty]
      exact inductionHypothesis shuffleGen
    next =>
      have shuffled := library.shuffle_perm shuffleGen (bucket hotspotId)
      refine List.rel_append ?_ (inductionHypothesis _)
      rw [← shuffled.length_eq]
      exact forall₂_replicate fun key member => keys hotspotId key (shuffled.subset member)

section Sorted

variable (times : ℕ → ℕ) (bound : ℕ)

theorem count_flatMap_replicate (item : ℕ) :
    ((List.range bound).flatMap fun value => List.replicate (times value) value).count item
      = if item < bound then times item else 0 := by
  induction bound with
  | zero => rfl
  | succ bound inductionHypothesis =>
    rw [List.range_succ, List.flatMap_append, List.count_append, inductionHypothesis,
      List.flatMap_singleton, List.count_replicate]
    by_cases last : bound = item
    · subst last
      simp
    · have apart : item < bound + 1 ↔ item < bound := by omega
      simp [last, apart]

theorem pairwise_flatMap_replicate :
    ((List.range bound).flatMap fun value => List.replicate (times value) value).Pairwise
      (· ≤ ·) := by
  refine List.pairwise_flatMap.mpr ⟨fun value _ => by simp, ?_⟩
  apply List.pairwise_lt_range.imp
  intro first second less left leftMember right rightMember
  rw [List.eq_of_mem_replicate leftMember, List.eq_of_mem_replicate rightMember]
  exact less.le

variable {bound} in
/-- A nondecreasing sequence is its values in order, each as often as it occurs. -/
theorem sorted_eq_flatMap {sequence : List ℕ} (sorted : sequence.Pairwise (· ≤ ·))
    (below : ∀ value ∈ sequence, value < bound) :
    sequence = (List.range bound).flatMap fun value =>
      List.replicate (sequence.count value) value := by
  refine List.Perm.eq_of_pairwise' sorted (pairwise_flatMap_replicate _ _) ?_
  rw [List.perm_iff_count]
  intro item
  rw [count_flatMap_replicate]
  split
  next => rfl
  next outside => exact List.count_eq_zero.mpr fun member => outside (below item member)

end Sorted

theorem bucketOf_mono {first second : ℕ} (le : first ≤ second) : bucketOf first ≤ bucketOf second :=
  min_le_min_right _ (Nat.div_le_div_right le)

theorem bucketOf_lt (index : ℕ) : bucketOf index < numHotspots.toNat + 1 :=
  Nat.lt_succ_of_le (min_le_right _ _)

/-! ## The whole schedule -/

/-- Every key of a thread lies in the bucket of its index. -/
theorem generateHotspotZipfianKeys_positions (library : RandomLibrary) {flags : Flags}
    {tid : UInt32} (member : tid ∈ threadIds flags) :
    List.Forall₂ (fun index key => InBucket (bucketOf index) key)
      (List.range' (tid.toNat * (flags.num.toNat / flags.workerThreads.toNat))
        (expectedCount flags tid).toNat)
      (generateHotspotZipfianKeys library flags tid (expectedCount flags tid)) := by
  have share := share_le member
  have bound := flags.num.toNat_lt
  have first : (tid.toUInt64 * (flags.num / flags.workerThreads.toUInt64)).toNat
      = tid.toNat * (flags.num.toNat / flags.workerThreads.toNat) := by
    rw [UInt64.toNat_mul, UInt64.toNat_div, UInt32.toNat_toUInt64, UInt32.toNat_toUInt64,
      Nat.mod_eq_of_lt (by omega)]
  unfold generateHotspotZipfianKeys
  dsimp only
  rw [UInt64.toNat_add, Nat.mod_eq_of_lt (by omega), Nat.add_sub_cancel_left]
  have size : (normalize (rankWeights hotspotSize.toNat)).length = hotspotSize.toNat := by
    simp [normalize, rankWeights]
  generalize normalize (rankWeights hotspotSize.toNat) = weights at size ⊢
  let state : HotspotState library.Engine :=
    ⟨fun _ => [], library.mt19937 (fixedSeed + tid.toUInt64).toUInt32⟩
  have start : Filled state.bucket [] := fun _ => ⟨rfl, fun _ here => absurd here List.not_mem_nil⟩
  have filled := hotspotDraws_filled size (expectedCount flags tid).toNat
    (by rw [first]; omega) start
  rw [List.nil_append, first] at filled
  -- The buckets in a row are the sorted bucket numbers, and those are the bucket
  -- numbers of the rising indices.
  have positions := joinBuckets_positions (fun hotspotId => (filled hotspotId).2)
    (List.range (numHotspots.toNat + 1))
    (library.mt19937 (fixedSeed + tid.toUInt64 + 0x1000).toUInt32)
  simp only [(filled _).1] at positions
  rw [← sorted_eq_flatMap, List.forall₂_map_left_iff] at positions
  · exact positions
  · rw [List.pairwise_map]
    exact (List.pairwise_lt_range' 1 Nat.one_pos).imp fun less => bucketOf_mono less.le
  · intro value here
    obtain ⟨index, _, rfl⟩ := List.mem_map.mp here
    exact bucketOf_lt index

/-- The indices of the threads, one after the other, are all indices. -/
theorem threadIndices_flatten {flags : Flags} (workers : flags.workerThreads ≠ 0) :
    ((threadIds flags).flatMap fun tid =>
        List.range' (tid.toNat * (flags.num.toNat / flags.workerThreads.toNat))
          (expectedCount flags tid).toNat)
      = List.range flags.num.toNat := by
  have index : ∀ start count : ℕ, start + count < 2 ^ 64 →
      (keyRange (start + 1) count).map (fun key => key.toNat - 1) = List.range' start count := by
    intro start count small
    rw [keyRange, List.map_map, List.range'_eq_map_range, List.range'_eq_map_range, List.map_map]
    apply List.map_congr_left
    intro offset member
    have below := List.mem_range.mp member
    show (UInt64.ofNat (start + 1 + offset)).toNat - 1 = start + offset
    rw [UInt64.toNat_ofNat_of_lt' (show start + 1 + offset < 2 ^ 64 by omega)]
    omega
  -- The key ranges of the uniform partition are these indices plus one.
  have ranges := congrArg (List.map fun key => key.toNat - 1) (threadRanges_flatten workers)
  rw [index 0 _ (by rw [Nat.zero_add]; exact flags.num.toNat_lt), List.map_flatten, List.map_map,
    ← List.flatMap_def, ← List.range_eq_range'] at ranges
  rw [← ranges]
  apply List.flatMap_congr
  intro tid member
  have share := share_le member
  have bound := flags.num.toNat_lt
  exact (index _ _ (by omega)).symm

/-- The key at position `p` of a thread belongs to the hotspot of its global index
    `g`, and the global indices of all threads are `0..num_ - 1`. -/
theorem hotspot_schedule (library : RandomLibrary) (flags : Flags)
    (workers : 1 ≤ flags.workerThreads.toNat) :
    (∀ tid ∈ threadIds flags,
      (generateHotspotZipfianKeys library flags tid (expectedCount flags tid)).length
        = (expectedCount flags tid).toNat ∧
      ∀ p g key, g = tid.toNat * (flags.num.toNat / flags.workerThreads.toNat) + p →
        (generateHotspotZipfianKeys library flags tid (expectedCount flags tid))[p]? = some key →
        (g / 4000000 < 60 → g / 4000000 * 1000000 ≤ key.toNat ∧
          key.toNat < (g / 4000000 + 1) * 1000000) ∧
        (60 ≤ g / 4000000 → key.toNat < 60000000)) ∧
    ((threadIds flags).flatMap fun tid => (List.range (expectedCount flags tid).toNat).map fun p =>
        tid.toNat * (flags.num.toNat / flags.workerThreads.toNat) + p)
      = List.range flags.num.toNat := by
  have someThreads : flags.workerThreads ≠ 0 := by
    intro none
    simp [none] at workers
  constructor
  · intro tid member
    have positions := generateHotspotZipfianKeys_positions library member
    generalize generateHotspotZipfianKeys library flags tid (expectedCount flags tid) = keys
      at positions ⊢
    have length := positions.length_eq
    rw [List.length_range'] at length
    refine ⟨length.symm, ?_⟩
    rintro p g key rfl found
    obtain ⟨inside, rfl⟩ := List.getElem?_eq_some_iff.mp found
    have own := positions.get (i := p) (by rw [List.length_range', length]; exact inside) inside
    simp only [List.get_eq_getElem, List.getElem_range', Nat.one_mul] at own
    unfold InBucket bucketOf at own
    rw [show keysPerHotspot.toNat = 4000000 from rfl, show numHotspots.toNat = 60 from rfl,
      show hotspotSize.toNat = 1000000 from rfl,
      show hotspotKeySpaceSize.toNat = 60000000 from rfl] at own
    constructor
    · intro within
      rw [min_eq_left within.le, if_pos within] at own
      exact own
    · intro overflow
      rw [min_eq_right overflow, if_neg (lt_irrefl _)] at own
      exact own
  · rw [← threadIndices_flatten someThreads]
    simp only [List.range'_eq_map_range]

/-- Two threads and three keys, all in the first hotspot. -/
theorem hotspot_schedule_two :
    ∃ key, (generateHotspotZipfianKeys .still { workerThreads := 2, num := 3 } 1 2)[0]? = some key ∧
      key.toNat < 1000000 := by
  obtain ⟨length, schedule⟩ :=
    (hotspot_schedule .still { workerThreads := 2, num := 3 } (by decide)).1 1 (by decide)
  have some : 0 < (generateHotspotZipfianKeys .still { workerThreads := 2, num := 3 } 1 2).length :=
    lt_of_lt_of_eq (by decide) length.symm
  have found := List.getElem?_eq_getElem some
  exact ⟨_, found, ((schedule 0 1 _ (by decide) found).1 (by decide)).2⟩

end FdpRocks.Benchmark
