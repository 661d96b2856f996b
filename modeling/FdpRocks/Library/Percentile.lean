import Mathlib

/-! # Percentiles

A quantile of some values, by linear interpolation between their sorted list.

* `quantile_perm` — the order of the values does not matter.
* `quantile_mono` — a larger fraction has no smaller quantile.
* `count_le_quantile`, `count_ge_quantile` — how many values are on each side of it.
-/

namespace FdpRocks.Library

variable {K : Type} [Field K] [LinearOrder K]

/-! ## Between the terms of a sequence -/

section Between

variable [FloorSemiring K] {sequence : ℕ → K}

/-- The value at a position between two indices. -/
def between (sequence : ℕ → K) (position : K) : K :=
  let index := ⌊position⌋₊
  sequence index + (position - index) * (sequence (index + 1) - sequence index)

variable [IsStrictOrderedRing K]

theorem floor_le_between (rising : Monotone sequence) {position : K} (nonneg : 0 ≤ position) :
    sequence ⌊position⌋₊ ≤ between sequence position := by
  have weight : 0 ≤ position - ⌊position⌋₊ := sub_nonneg.mpr (Nat.floor_le nonneg)
  have rise : 0 ≤ sequence (⌊position⌋₊ + 1) - sequence ⌊position⌋₊ :=
    sub_nonneg.mpr (rising (Nat.le_succ _))
  unfold between
  exact le_add_of_nonneg_right (mul_nonneg weight rise)

theorem between_le_next (rising : Monotone sequence) (position : K) :
    between sequence position ≤ sequence (⌊position⌋₊ + 1) := by
  have weight : position - ⌊position⌋₊ ≤ 1 := by
    rw [sub_le_iff_le_add']
    exact (Nat.lt_floor_add_one position).le
  have rise : 0 ≤ sequence (⌊position⌋₊ + 1) - sequence ⌊position⌋₊ :=
    sub_nonneg.mpr (rising (Nat.le_succ _))
  calc between sequence position
    _ ≤ sequence ⌊position⌋₊ + 1 * (sequence (⌊position⌋₊ + 1) - sequence ⌊position⌋₊) :=
      add_le_add_right (mul_le_mul_of_nonneg_right weight rise) _
    _ = sequence (⌊position⌋₊ + 1) := by ring

theorem between_le_ceil (rising : Monotone sequence) {position : K} (nonneg : 0 ≤ position) :
    between sequence position ≤ sequence ⌈position⌉₊ := by
  rcases (Nat.floor_le nonneg).eq_or_lt with whole | inside
  · have ceil : ⌈position⌉₊ = ⌊position⌋₊ := by
      conv_lhs => rw [← whole]
      exact Nat.ceil_natCast _
    have same : between sequence position = sequence ⌊position⌋₊ := by
      simp [between, sub_eq_zero.mpr whole.symm]
    rw [same, ceil]
  · have next : ⌊position⌋₊ + 1 ≤ ⌈position⌉₊ := Nat.lt_ceil.mpr inside
    exact (between_le_next rising position).trans (rising next)

theorem between_mono (rising : Monotone sequence) {position later : K} (nonneg : 0 ≤ position)
    (before : position ≤ later) : between sequence position ≤ between sequence later := by
  rcases (Nat.floor_mono before).eq_or_lt with same | apart
  · have rise : 0 ≤ sequence (⌊later⌋₊ + 1) - sequence ⌊later⌋₊ :=
      sub_nonneg.mpr (rising (Nat.le_succ _))
    unfold between
    dsimp only
    rw [same]
    exact add_le_add_right (mul_le_mul_of_nonneg_right (sub_le_sub_right before _) rise) _
  · calc between sequence position
      _ ≤ sequence (⌊position⌋₊ + 1) := between_le_next rising position
      _ ≤ sequence ⌊later⌋₊ := rising apart
      _ ≤ between sequence later := floor_le_between rising (nonneg.trans before)

end Between

/-! ## Sorted values -/

/-- The values in order; the last one goes on for ever. -/
def ranked (values : List K) (index : ℕ) : K :=
  (values.insertionSort (· ≤ ·)).getD (min index (values.length - 1)) 0

/-- Of no values, it is zero. -/
def quantile [FloorSemiring K] (values : List K) (fraction : K) : K :=
  between (ranked values) (fraction * (values.length - 1))

example : quantile [7, 1, 4, 2] (1 / 4 : ℚ) = 7 / 4 := by decide +kernel

section Ranked

variable {values others : List K}

theorem ranked_eq {index : ℕ} (inside : index < (values.insertionSort (· ≤ ·)).length) :
    ranked values index = (values.insertionSort (· ≤ ·))[index] := by
  have length := List.length_insertionSort (· ≤ ·) values
  have least : min index (values.length - 1) = index := by omega
  rw [ranked, least, List.getD_eq_getElem _ _ inside]

theorem ranked_rising (values : List K) : Monotone (ranked values) := by
  intro index later before
  cases values with
  | nil => simp [ranked]
  | cons head tail =>
    have order := List.pairwise_insertionSort (· ≤ ·) (head :: tail)
    have length := List.length_insertionSort (· ≤ ·) (head :: tail)
    have inside : ∀ index, min index ((head :: tail).length - 1)
        < ((head :: tail).insertionSort (· ≤ ·)).length := by
      intro index
      rw [length, List.length_cons]
      omega
    unfold ranked
    rw [List.getD_eq_getElem _ _ (inside index), List.getD_eq_getElem _ _ (inside later)]
    have indices : min index ((head :: tail).length - 1) ≤ min later ((head :: tail).length - 1) :=
      min_le_min_right _ before
    rcases indices.eq_or_lt with same | less
    · simp only [same, le_refl]
    · exact List.pairwise_iff_getElem.mp order _ _ _ _ less

theorem ranked_perm (perm : values.Perm others) : ranked values = ranked others := by
  have sorted : values.insertionSort (· ≤ ·) = others.insertionSort (· ≤ ·) := by
    apply List.Perm.eq_of_pairwise
    · intro left right _ _ below above
      exact le_antisymm below above
    · exact List.pairwise_insertionSort _ _
    · exact List.pairwise_insertionSort _ _
    · exact (List.perm_insertionSort _ _).trans (perm.trans (List.perm_insertionSort _ _).symm)
  funext index
  rw [ranked, ranked, sorted, perm.length_eq]

theorem ranked_mem {index : ℕ} (inside : index < values.length) : ranked values index ∈ values := by
  have sortedInside : index < (values.insertionSort (· ≤ ·)).length := by
    rwa [List.length_insertionSort]
  rw [ranked_eq sortedInside, ← List.mem_insertionSort (· ≤ ·)]
  exact List.getElem_mem sortedInside

/-- The first values in order are all counted. -/
theorem le_countP_take {test : K → Bool} {count : ℕ} (inside : count ≤ values.length)
    (passes : ∀ index < count, test (ranked values index) = true) : count ≤ values.countP test := by
  have length := List.length_insertionSort (· ≤ ·) values
  have all : ∀ value ∈ (values.insertionSort (· ≤ ·)).take count, test value = true := by
    intro value member
    obtain ⟨index, bound, rfl⟩ := List.mem_iff_getElem.mp member
    rw [List.length_take] at bound
    have taken := passes index (by omega)
    rw [ranked_eq (by omega)] at taken
    rwa [List.getElem_take]
  have counted : _ ≤ (values.insertionSort (· ≤ ·)).countP test :=
    (List.take_sublist count (values.insertionSort (· ≤ ·))).countP_le
  rw [List.countP_eq_length.mpr all, List.length_take, length, min_eq_left inside,
    (List.perm_insertionSort _ values).countP_eq] at counted
  exact counted

/-- The last values in order are all counted. -/
theorem le_countP_drop {test : K → Bool} {start : ℕ}
    (passes : ∀ index < values.length, start ≤ index → test (ranked values index) = true) :
    values.length - start ≤ values.countP test := by
  have length := List.length_insertionSort (· ≤ ·) values
  have all : ∀ value ∈ (values.insertionSort (· ≤ ·)).drop start, test value = true := by
    intro value member
    obtain ⟨index, bound, rfl⟩ := List.mem_iff_getElem.mp member
    rw [List.length_drop] at bound
    have dropped := passes (start + index) (by omega) (Nat.le_add_right _ _)
    rw [ranked_eq (by omega)] at dropped
    rwa [List.getElem_drop]
  have counted : _ ≤ (values.insertionSort (· ≤ ·)).countP test :=
    (List.drop_sublist start (values.insertionSort (· ≤ ·))).countP_le
  rw [List.countP_eq_length.mpr all, List.length_drop, length,
    (List.perm_insertionSort _ values).countP_eq] at counted
  exact counted

end Ranked

/-! ## Quantiles -/

section Quantile

variable [FloorSemiring K] {values others : List K} {fraction : K}

theorem quantile_perm (perm : values.Perm others) (fraction : K) :
    quantile values fraction = quantile others fraction := by
  rw [quantile, quantile, ranked_perm perm, perm.length_eq]

variable [IsStrictOrderedRing K]

theorem position_nonneg (some : values ≠ []) (nonneg : 0 ≤ fraction) :
    0 ≤ fraction * ((values.length : K) - 1) := by
  have count : 1 ≤ values.length := List.length_pos_of_ne_nil some
  have cast : (1 : K) ≤ values.length := by exact_mod_cast count
  exact mul_nonneg nonneg (sub_nonneg.mpr cast)

theorem quantile_mono (some : values ≠ []) (nonneg : 0 ≤ fraction) {larger : K} (less : fraction ≤ larger) :
    quantile values fraction ≤ quantile values larger := by
  apply between_mono (ranked_rising values) (position_nonneg some nonneg)
  have count : 1 ≤ values.length := List.length_pos_of_ne_nil some
  have cast : (1 : K) ≤ values.length := by exact_mod_cast count
  exact mul_le_mul_of_nonneg_right less (sub_nonneg.mpr cast)

theorem position_le (some : values ≠ []) (atMost : fraction ≤ 1) :
    fraction * ((values.length : K) - 1) ≤ (values.length - 1 : ℕ) := by
  have count : 1 ≤ values.length := List.length_pos_of_ne_nil some
  have cast : (1 : K) ≤ values.length := by exact_mod_cast count
  rw [Nat.cast_sub count, Nat.cast_one]
  exact mul_le_of_le_one_left (sub_nonneg.mpr cast) atMost

/-- More than its share of the values is not above the quantile. -/
theorem count_le_quantile (some : values ≠ []) (nonneg : 0 ≤ fraction) (atMost : fraction ≤ 1) :
    fraction * ((values.length : K) - 1) < values.countP (· ≤ quantile values fraction) := by
  have atLeast := position_nonneg some nonneg
  have inside : ⌊fraction * ((values.length : K) - 1)⌋₊ ≤ values.length - 1 :=
    Nat.floor_le_of_le (position_le some atMost)
  have count : 1 ≤ values.length := List.length_pos_of_ne_nil some
  have counted : ⌊fraction * ((values.length : K) - 1)⌋₊ + 1
      ≤ values.countP (· ≤ quantile values fraction) := by
    apply le_countP_take (by omega)
    intro index below
    rw [decide_eq_true_eq]
    exact (ranked_rising values (Nat.lt_succ_iff.mp below)).trans
      (floor_le_between (ranked_rising values) atLeast)
  calc fraction * ((values.length : K) - 1)
    _ < ⌊fraction * ((values.length : K) - 1)⌋₊ + 1 := Nat.lt_floor_add_one _
    _ ≤ _ := by exact_mod_cast counted

/-- And more than the rest of them is not below it. -/
theorem count_ge_quantile (some : values ≠ []) (nonneg : 0 ≤ fraction) (atMost : fraction ≤ 1) :
    (1 - fraction) * ((values.length : K) - 1) < values.countP (quantile values fraction ≤ ·) := by
  have atLeast := position_nonneg some nonneg
  have inside : ⌈fraction * ((values.length : K) - 1)⌉₊ ≤ values.length - 1 :=
    Nat.ceil_le.mpr (position_le some atMost)
  have count : 1 ≤ values.length := List.length_pos_of_ne_nil some
  have counted : values.length - ⌈fraction * ((values.length : K) - 1)⌉₊
      ≤ values.countP (quantile values fraction ≤ ·) := by
    apply le_countP_drop
    intro index _ above
    rw [decide_eq_true_eq]
    exact (between_le_ceil (ranked_rising values) atLeast).trans (ranked_rising values above)
  have cast : (values.length : K) - ⌈fraction * ((values.length : K) - 1)⌉₊
      ≤ values.countP (quantile values fraction ≤ ·) := by
    rw [← Nat.cast_sub (by omega)]
    exact_mod_cast counted
  have below := Nat.ceil_lt_add_one atLeast
  calc (1 - fraction) * ((values.length : K) - 1)
    _ = values.length - (fraction * ((values.length : K) - 1) + 1) := by ring
    _ < values.length - ⌈fraction * ((values.length : K) - 1)⌉₊ := by linarith
    _ ≤ _ := cast

/-- It is not below all of the values, so it has the sign that they share. -/
theorem quantile_nonneg (some : values ≠ []) (nonneg : 0 ≤ fraction) (atMost : fraction ≤ 1)
    (each : ∀ value ∈ values, 0 ≤ value) : 0 ≤ quantile values fraction := by
  have inside : ⌊fraction * ((values.length : K) - 1)⌋₊ ≤ values.length - 1 :=
    Nat.floor_le_of_le (position_le some atMost)
  have count : 1 ≤ values.length := List.length_pos_of_ne_nil some
  exact (each _ (ranked_mem (by omega))).trans
    (floor_le_between (ranked_rising values) (position_nonneg some nonneg))

end Quantile

end FdpRocks.Library
