import FdpRocks.Benchmark.RandomKeyTraceSoundness

/-! # The strided workload

Keys are to be read stride by stride: first those at the multiples of the
interval, then those one place further, and so on.  The loops count the keys of
a stride with a division that drops the remainder.

* `StridedWorkload` — what the workload of a trace is to be.
* `NoneSkipped` — no key is passed over for a key of a later stride.
-/

namespace FdpRocks.Benchmark

open FdpRocks.Library.Vectors

namespace RandomKeyTrace

/-! ## Stride order -/

/-- A place of an earlier stride, or an earlier place of the same one. -/
def StrideBefore (interval first second : ℕ) : Prop :=
  first % interval < second % interval ∨
    first % interval = second % interval ∧ first < second

instance (interval first second : ℕ) : Decidable (StrideBefore interval first second) :=
  inferInstanceAs (Decidable (_ ∨ _ ∧ _))

theorem StrideBefore.irrefl {interval place : ℕ} : ¬ StrideBefore interval place place := by
  simp [StrideBefore]

section Places

variable {perStride interval index : ℕ}

theorem stride_lt (inside : index < interval * perStride) : index / perStride < interval :=
  Nat.div_lt_of_lt_mul (Nat.mul_comm _ _ ▸ inside)

theorem stridePlace_mod (inside : index < interval * perStride) :
    stridePlace perStride interval index % interval = index / perStride := by
  rw [stridePlace, Nat.add_mul_mod_self_right, Nat.mod_eq_of_lt (stride_lt inside)]

theorem stridePlace_div (inside : index < interval * perStride) :
    stridePlace perStride interval index / interval = index % perStride := by
  have positive : 0 < interval := Nat.zero_lt_of_lt (stride_lt inside)
  rw [stridePlace, Nat.add_mul_div_right _ _ positive, Nat.div_eq_of_lt (stride_lt inside),
    Nat.zero_add]

/-- The entries of a workload follow the strides. -/
theorem strideBefore_iff {other : ℕ} (inside : index < interval * perStride)
    (otherInside : other < interval * perStride) :
    StrideBefore interval (stridePlace perStride interval index)
      (stridePlace perStride interval other) ↔ index < other := by
  rw [StrideBefore, stridePlace_mod inside, stridePlace_mod otherInside,
    @lt_iff_row perStride index other]
  apply or_congr_right
  apply and_congr_right
  intro same
  rw [@lt_iff_row interval, stridePlace_mod inside, stridePlace_mod otherInside,
    stridePlace_div inside, stridePlace_div otherInside, same]
  simp

theorem stridePlace_lt {count : ℕ} (inside : index < interval * (count / interval)) :
    stridePlace (count / interval) interval index < count := by
  have positive : 0 < count / interval := by
    by_contra none
    rw [Nat.eq_zero_of_not_pos none] at inside
    omega
  exact stride_within (stride_lt inside) (Nat.mod_lt _ positive)

end Places

/-! ## What the workload is to be -/

/-- Each entry is a key, no key comes twice, and the strides follow each other. -/
structure StridedWorkload (keys : List UInt64) (readDatasetLength interval : ℕ)
    (readKeys : List UInt64) : Prop where
  length : readKeys.length = readDatasetLength
  known : ∀ entry ∈ readKeys, entry ∈ keys
  distinct : readKeys.Nodup
  ordered : readKeys.Pairwise fun first second =>
    StrideBefore interval (keys.idxOf first) (keys.idxOf second)

/-- All keys of a stride come before those of the next. -/
def NoneSkipped (keys : List UInt64) (interval : ℕ) (readKeys : List UInt64) : Prop :=
  ∀ key ∈ keys, ∀ entry ∈ readKeys,
    StrideBefore interval (keys.idxOf key) (keys.idxOf entry) → key ∈ readKeys

variable {keys : List UInt64} {readDatasetLength interval : ℕ}

/-- An entry of the workload. -/
def strideEntry (keys : List UInt64) (interval index : ℕ) : UInt64 :=
  keys.getD (stridePlace (keys.length / interval) interval index) 0

theorem strideEntry_getElem {index : ℕ} (inside : index < interval * (keys.length / interval)) :
    strideEntry keys interval index
      = keys.get ⟨stridePlace (keys.length / interval) interval index, stridePlace_lt inside⟩ := by
  simp [strideEntry, stridePlace_lt inside]

theorem strideEntry_eq {index : ℕ} (inside : index < interval * (keys.length / interval)) :
    (fresh keys).strideKey interval index = some (strideEntry keys interval index) := by
  rw [strideEntry_getElem inside]
  exact List.getElem?_eq_getElem (stridePlace_lt inside)

theorem strideEntry_mem {index : ℕ} (inside : index < interval * (keys.length / interval)) :
    strideEntry keys interval index ∈ keys := by
  rw [strideEntry_getElem inside]
  exact List.getElem_mem _

theorem idxOf_strideEntry (nodup : keys.Nodup) {index : ℕ}
    (inside : index < interval * (keys.length / interval)) :
    keys.idxOf (strideEntry keys interval index)
      = stridePlace (keys.length / interval) interval index := by
  rw [strideEntry_getElem inside]
  exact nodup.idxOf_getElem _ _

/-- The workload that the loops write where there are keys enough for it. -/
def stridedKeys (keys : List UInt64) (readDatasetLength interval : ℕ) : List UInt64 :=
  (List.range readDatasetLength).map (strideEntry keys interval)

theorem stridedKeys_strided (nodup : keys.Nodup)
    (enough : readDatasetLength ≤ interval * (keys.length / interval)) :
    StridedWorkload keys readDatasetLength interval (stridedKeys keys readDatasetLength interval) := by
  have ordered : (stridedKeys keys readDatasetLength interval).Pairwise fun first second =>
      StrideBefore interval (keys.idxOf first) (keys.idxOf second) := by
    rw [stridedKeys, List.pairwise_map]
    refine List.pairwise_lt_range.imp_of_mem fun first second before => ?_
    have firstInside := Nat.lt_of_lt_of_le (List.mem_range.mp first) enough
    have secondInside := Nat.lt_of_lt_of_le (List.mem_range.mp second) enough
    rw [idxOf_strideEntry nodup firstInside, idxOf_strideEntry nodup secondInside,
      strideBefore_iff firstInside secondInside]
    exact before
  refine ⟨by simp [stridedKeys], ?_, ?_, ordered⟩
  · intro entry member
    obtain ⟨index, early, rfl⟩ := List.mem_map.mp member
    exact strideEntry_mem (Nat.lt_of_lt_of_le (List.mem_range.mp early) enough)
  · refine ordered.imp fun before same => ?_
    rw [same] at before
    exact StrideBefore.irrefl before

/-- Where no stride has a remainder before the workload ends, no key is passed over. -/
theorem stridedKeys_noneSkipped (nodup : keys.Nodup)
    (enough : readDatasetLength ≤ interval * (keys.length / interval))
    (whole : interval ∣ keys.length ∨ readDatasetLength ≤ keys.length / interval) :
    NoneSkipped keys interval (stridedKeys keys readDatasetLength interval) := by
  intro key member entry later before
  obtain ⟨index, early, rfl⟩ := List.mem_map.mp later
  have early := List.mem_range.mp early
  have inside := Nat.lt_of_lt_of_le early enough
  have stride : 0 < interval := Nat.zero_lt_of_lt (stride_lt inside)
  rw [idxOf_strideEntry nodup inside] at before
  have place : keys.idxOf key < keys.length := List.idxOf_lt_length_of_mem member
  -- The key has a place in its stride that the loops get to.
  have reached : keys.idxOf key / interval < keys.length / interval := by
    cases whole with
    | inl divides =>
      obtain ⟨perStride, product⟩ := divides
      rw [product, Nat.mul_div_cancel_left _ stride]
      exact Nat.div_lt_of_lt_mul (product ▸ place)
    | inr first =>
      have zero : index / (keys.length / interval) = 0 :=
        Nat.div_eq_of_lt (Nat.lt_of_lt_of_le early first)
      rw [StrideBefore, stridePlace_mod inside, zero] at before
      obtain ⟨_, earlier⟩ := before.resolve_left (Nat.not_lt_zero _)
      have bound := @Nat.div_le_div_right _ _ interval earlier.le
      rw [stridePlace_div inside, Nat.mod_eq_of_lt (Nat.lt_of_lt_of_le early first)] at bound
      omega
  have residue : keys.idxOf key % interval < interval := Nat.mod_lt _ stride
  have entryInside := place_lt residue reached
  have same : stridePlace (keys.length / interval) interval
      (keys.idxOf key % interval * (keys.length / interval) + keys.idxOf key / interval)
      = keys.idxOf key := by
    rw [stridePlace_entry reached, Nat.mod_add_div']
  rw [← same, strideBefore_iff entryInside inside] at before
  refine List.mem_map.mpr ⟨_, List.mem_range.mpr (before.trans early), ?_⟩
  simp [strideEntry, same, place, List.getElem_idxOf]

/-- The first stride drops its last key when it has a remainder. -/
theorem stridedKeys_skips (nodup : keys.Nodup) (positive : 1 ≤ interval)
    (most : interval ≤ keys.length) (remainder : ¬ interval ∣ keys.length)
    (second : keys.length / interval < readDatasetLength)
    (enough : readDatasetLength ≤ interval * (keys.length / interval)) :
    ¬ NoneSkipped keys interval (stridedKeys keys readDatasetLength interval) := by
  intro noneSkipped
  have perStride : 0 < keys.length / interval := Nat.div_pos most positive
  have inside := Nat.lt_of_lt_of_le second enough
  have several : 1 < interval := by
    cases Nat.lt_or_eq_of_le positive with
    | inl several => exact several
    | inr one => exact absurd (one ▸ Nat.one_dvd _) remainder
  have dropped : keys.length / interval * interval < keys.length := by
    have rest : keys.length % interval ≠ 0 := fun zero => remainder (Nat.dvd_of_mod_eq_zero zero)
    have whole := Nat.mod_add_div' keys.length interval
    omega
  have entry : strideEntry keys interval (keys.length / interval)
      ∈ stridedKeys keys readDatasetLength interval :=
    List.mem_map_of_mem (List.mem_range.mpr second)
  have index := nodup.idxOf_getElem _ dropped
  have passed := noneSkipped _ (List.getElem_mem dropped) _ entry (by
    rw [index, idxOf_strideEntry nodup inside, StrideBefore, stridePlace_mod inside,
      Nat.mul_mod_left, Nat.div_self perStride]
    exact Or.inl Nat.zero_lt_one)
  obtain ⟨other, early, same⟩ := List.mem_map.mp passed
  have otherInside := Nat.lt_of_lt_of_le (List.mem_range.mp early) enough
  -- Every entry lies before the dropped key of its stride.
  have places := idxOf_strideEntry nodup otherInside
  rw [same, index] at places
  have quotient := congrArg (· / interval) places
  simp only [stridePlace_div otherInside, Nat.mul_div_cancel _ positive] at quotient
  have less := Nat.mod_lt other perStride
  omega

/-- What the function writes: the strided keys, and zeros when they run out. -/
theorem interval_readKeys (keys : List UInt64) (readDatasetLength interval : ℕ) :
    ∃ result, (fresh keys).createReadWorkloadWithInterval readDatasetLength interval = some result ∧
      (readDatasetLength ≤ interval * (keys.length / interval) →
        result.readKeys = stridedKeys keys readDatasetLength interval) ∧
      (interval * (keys.length / interval) < readDatasetLength → 0 ∈ result.readKeys) := by
  obtain ⟨result, returns, _, filled⟩ :=
    @interval_spec (fresh keys) readDatasetLength interval rfl
  have items := filled.items
  simp only [show (fresh keys).readKeys = [] from rfl, resize_nil] at items
  refine ⟨result, returns, fun enough => ?_, fun short => ?_⟩
  · apply List.ext_getElem?
    intro index
    have bound : min readDatasetLength (interval * (keys.length / interval)) = readDatasetLength :=
      min_eq_left enough
    rw [items]
    show (if index < min readDatasetLength (interval * (keys.length / interval)) then _ else _) = _
    rw [bound]
    by_cases early : index < readDatasetLength
    · rw [if_pos early, strideEntry_eq (Nat.lt_of_lt_of_le early enough)]
      simp [stridedKeys, early]
    · simp [stridedKeys, early]
  · have last := items (interval * (keys.length / interval))
    -- Nothing was written there: a fresh vector holds zeros.
    have beyond : ¬ interval * (keys.length / interval)
        < min readDatasetLength (interval * ((fresh keys).count / interval)) :=
      Nat.not_lt.mpr (min_le_right _ _)
    rw [if_neg beyond, List.getElem?_replicate, if_pos short] at last
    exact List.mem_of_getElem? last

/-- The workload is right unless it is longer than all whole strides together; and no key
    is passed over unless it goes on after a first stride that has a remainder. -/
theorem interval_strided_iff (keys : List UInt64) (readDatasetLength interval : ℕ)
    (nodup : keys.Nodup) (nonzero : 0 ∉ keys) (positive : 1 ≤ interval)
    (most : interval ≤ keys.length) (room : readDatasetLength ≤ keys.length) :
    ∃ result, (fresh keys).createReadWorkloadWithInterval readDatasetLength interval = some result ∧
      (StridedWorkload keys readDatasetLength interval result.readKeys ↔
        readDatasetLength ≤ interval * (keys.length / interval)) ∧
      (StridedWorkload keys readDatasetLength interval result.readKeys ∧
          NoneSkipped keys interval result.readKeys ↔
        interval ∣ keys.length ∨ readDatasetLength ≤ keys.length / interval) := by
  obtain ⟨result, returns, writes, zeros⟩ := interval_readKeys keys readDatasetLength interval
  have strided : StridedWorkload keys readDatasetLength interval result.readKeys ↔
      readDatasetLength ≤ interval * (keys.length / interval) := by
    constructor
    · intro strided
      by_contra short
      exact nonzero (strided.known 0 (zeros (Nat.lt_of_not_le short)))
    · intro enough
      rw [writes enough]
      exact stridedKeys_strided nodup enough
  refine ⟨result, returns, strided, ?_⟩
  rw [strided]
  constructor
  · intro complete
    obtain ⟨enough, noneSkipped⟩ := complete
    by_contra outside
    simp only [not_or, Nat.not_le] at outside
    rw [writes enough] at noneSkipped
    exact stridedKeys_skips nodup positive most outside.1 outside.2 enough noneSkipped
  · intro whole
    have enough : readDatasetLength ≤ interval * (keys.length / interval) := by
      cases whole with
      | inl divides => exact (Nat.mul_div_cancel' divides).symm ▸ room
      | inr first => exact first.trans (Nat.le_mul_of_pos_left _ positive)
    rw [writes enough]
    exact ⟨enough, stridedKeys_noneSkipped nodup enough whole⟩

/-- Four keys in strides of two. -/
theorem interval_strided_four :
    (List.Nodup [(11 : UInt64), 12, 13, 14] ∧ 0 ∉ [(11 : UInt64), 12, 13, 14]) ∧
      ∃ result, (fresh [11, 12, 13, 14]).createReadWorkloadWithInterval 4 2 = some result ∧
        StridedWorkload [11, 12, 13, 14] 4 2 result.readKeys := by
  have nodup : List.Nodup [(11 : UInt64), 12, 13, 14] := by decide
  have nonzero : 0 ∉ [(11 : UInt64), 12, 13, 14] := by decide
  obtain ⟨result, returns, strided, _⟩ := interval_strided_iff [11, 12, 13, 14] 4 2 nodup nonzero
    (by decide) (by decide) (by decide)
  exact ⟨⟨nodup, nonzero⟩, result, returns, strided.mpr (by decide)⟩

/-- Five keys in strides of two: the fifth is passed over and the last entry stays zero. -/
theorem interval_leaves_zero :
    ((fresh [11, 12, 13, 14, 15]).createReadWorkloadWithInterval 5 2).map readKeys
        = some [11, 13, 12, 14, 0] ∧
      ¬ StridedWorkload [11, 12, 13, 14, 15] 5 2 [11, 13, 12, 14, 0] ∧
      ¬ NoneSkipped [11, 12, 13, 14, 15] 2 [11, 13, 12, 14, 0] := by
  refine ⟨by decide, fun strided => ?_, fun noneSkipped => ?_⟩
  · have known := strided.known 0 (by decide)
    revert known
    decide
  · have passed := noneSkipped 15 (by decide) 12 (by decide) (by decide)
    revert passed
    decide

end RandomKeyTrace

end FdpRocks.Benchmark
