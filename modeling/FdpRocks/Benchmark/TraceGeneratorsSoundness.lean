import FdpRocks.Benchmark.TraceGenerators

/-! # The bounds of the trace generators

`TraceUniform` keeps its bounds for every draw.  `TraceNormal` scales to their
difference and does not add the minimum; `TraceZipfian` takes a remainder by
the maximum at the end.  `generators_inBounds_iff` says which draws, and which
bounds, all three are right for.
-/

namespace FdpRocks.Benchmark

open FdpRocks.Library FdpRocks.Library.Loop FdpRocks.Library.Sampling

/-! ## `TraceUniform` -/

section Bounds

variable {minimum maximum : UInt64}

theorem add_inBounds (ordered : minimum ≤ maximum) {off : UInt64} (small : off ≤ maximum - minimum) :
    minimum ≤ minimum + off ∧ minimum + off ≤ maximum ∧
      (minimum + off).toNat = minimum.toNat + off.toNat := by
  have bound := maximum.toNat_lt
  rw [UInt64.le_iff_toNat_le, UInt64.toNat_sub_of_le _ _ ordered] at small
  rw [UInt64.le_iff_toNat_le] at ordered
  have sum : (minimum + off).toNat = minimum.toNat + off.toNat := by
    rw [UInt64.toNat_add]
    exact Nat.mod_eq_of_lt (by omega)
  rw [UInt64.le_iff_toNat_le, UInt64.le_iff_toNat_le, sum]
  omega

theorem traceUniform_inBounds (ordered : minimum ≤ maximum) {u : ℝ} (low : 0 ≤ u) (high : u ≤ 1) :
    InBounds minimum maximum ((traceUniform minimum maximum).next u) := by
  obtain ⟨nonneg, bounded⟩ :=
    scaled_between low high (Nat.cast_nonneg (maximum - minimum).toNat)
  obtain ⟨off, converted, _, small⟩ := truncate_of_le nonneg bounded
  obtain ⟨above, below, _⟩ := add_inBounds ordered small
  exact ⟨minimum + off, by simp [TraceUniform.next, traceUniform, converted], above, below⟩

/-! ## `TraceNormal` -/

theorem nextTurn_again {offset : ℝ} {draws : ℕ → ℝ} {draw : ℕ}
    (rejected : ¬ (0 ≤ draws draw + offset ∧ draws draw + offset ≤ 6)) :
    (traceNormal minimum maximum offset).nextTurn draws draw = .again (draw + 1) := by
  apply if_pos
  by_contra inside
  simp only [not_or, not_lt, gt_iff_lt] at inside
  exact rejected inside

theorem nextTurn_done {offset : ℝ} {draws : ℕ → ℝ} {draw : ℕ}
    (accepted : 0 ≤ draws draw + offset ∧ draws draw + offset ≤ 6) :
    (traceNormal minimum maximum offset).nextTurn draws draw =
      .done (truncate ((draws draw + offset) * ((maximum - minimum).toNat / 6))) := by
  apply if_neg
  simp only [not_or, not_lt, gt_iff_lt]
  exact accepted

/-- A draw that was accepted is scaled to the difference of the bounds. -/
theorem truncate_rnd_inBounds_iff (ordered : minimum ≤ maximum) {rnd : ℝ} (nonneg : 0 ≤ rnd)
    (small : rnd ≤ 6) :
    InBounds minimum maximum (truncate (rnd * ((maximum - minimum).toNat / 6))) ↔
      minimum.toNat * 6 ≤ rnd * (maximum - minimum).toNat := by
  have share : rnd * ((maximum - minimum).toNat / 6) = rnd / 6 * (maximum - minimum).toNat := by ring
  obtain ⟨above, below⟩ := scaled_between (div_nonneg nonneg (by norm_num))
    ((div_le_one (by norm_num)).mpr small) (Nat.cast_nonneg (maximum - minimum).toNat)
  rw [← share] at above below
  obtain ⟨word, converted, floor, bounded⟩ := truncate_of_le above below
  have top : word ≤ maximum := by
    rw [UInt64.le_iff_toNat_le, UInt64.toNat_sub_of_le _ _ ordered] at bounded
    rw [UInt64.le_iff_toNat_le]
    omega
  have reached : minimum ≤ word ↔ minimum.toNat * 6 ≤ rnd * (maximum - minimum).toNat := by
    rw [UInt64.le_iff_toNat_le, floor, Nat.le_floor_iff above, mul_div_assoc', le_div_iff₀ (by norm_num)]
  rw [← reached, converted]
  constructor
  · intro inside
    obtain ⟨value, same, least, _⟩ := inside
    exact Option.some.inj same ▸ least
  · intro least
    exact ⟨word, rfl, least, top⟩

theorem not_accepted_iff {rnd : ℝ} : ¬ (0 ≤ rnd ∧ rnd ≤ 6) ↔ rnd < 0 ∨ rnd > 6 := by
  rw [not_and_or, not_le, not_le]

theorem traceNormal_inBounds_iff (ordered : minimum ≤ maximum) (offset : ℝ) (draws : ℕ → ℝ) :
    (∃ fuel result, (traceNormal minimum maximum offset).next draws fuel = some result ∧
        InBounds minimum maximum result) ↔ NormalFits minimum maximum offset draws := by
  have search := run_search (fun _ rejected => @nextTurn_again minimum maximum offset draws _ rejected)
    (fun _ accepted => nextTurn_done accepted)
  constructor
  · intro served
    obtain ⟨fuel, result, returns, inside⟩ := served
    obtain ⟨draw, accepted, first, same⟩ := (search result).mp ⟨fuel, returns⟩
    rw [← same, truncate_rnd_inBounds_iff ordered accepted.1 accepted.2] at inside
    exact ⟨_, ⟨draw, rfl, accepted, fun earlier before => not_accepted_iff.mp (first earlier before)⟩,
      inside⟩
  · intro fits
    obtain ⟨rnd, ⟨draw, same, accepted, first⟩, enough⟩ := fits
    subst same
    obtain ⟨fuel, returns⟩ := (search _).mpr
      ⟨draw, accepted, fun earlier before => not_accepted_iff.mpr (first earlier before), rfl⟩
    exact ⟨fuel, _, returns, (truncate_rnd_inBounds_iff ordered accepted.1 accepted.2).mpr enough⟩

/-! ## `Zeta` -/

section Zeta

variable {theta : ℝ}

theorem zetaRange_eq_sum (start count : ℕ) (theta : ℝ) :
    zetaRange start count theta =
      ∑ i ∈ Finset.range count, 1 / ((start + i + 1 : ℕ) : ℝ) ^ theta := by
  rw [zetaRange]
  induction count with
  | zero => simp
  | succ count inductionHypothesis =>
    rw [List.range_succ, List.foldl_append, inductionHypothesis, Finset.sum_range_succ]
    simp

theorem zetaRange_term_pos (index : ℕ) (theta : ℝ) : 0 < 1 / ((index + 1 : ℕ) : ℝ) ^ theta := by
  have positive : (0 : ℝ) < (index + 1 : ℕ) := by exact_mod_cast Nat.succ_pos index
  exact one_div_pos.mpr (Real.rpow_pos_of_pos positive theta)

theorem zetaRange_nonneg (start count : ℕ) (theta : ℝ) : 0 ≤ zetaRange start count theta := by
  rw [zetaRange_eq_sum]
  exact Finset.sum_nonneg fun i _ => (zetaRange_term_pos (start + i) theta).le

/-- Below the first step of the table, all terms are summed. -/
theorem zeta_of_lt {n : ℕ} (small : n < zetalistStep) (theta : ℝ) :
    zeta n theta = ∑ i ∈ Finset.range n, 1 / ((i + 1 : ℕ) : ℝ) ^ theta := by
  have zlid : n / zetalistStep = 0 := Nat.div_eq_of_lt small
  have table : zetalistDouble 0 = 0 := by simp [zetalistDouble, zetalistU64, Double.ofBits]
  simp [zeta, zlid, table, zetaRange_eq_sum]

/-- The entries of the table are doubles with one exponent. -/
theorem le_zetalistDouble {zlid : ℕ} (positive : 1 ≤ zlid) (bounded : zlid ≤ zetalistCount) :
    32 ≤ zetalistDouble zlid := by
  have entries : ∀ zlid ≤ 16, 1 ≤ zlid → (zetalistU64.getD zlid 0).toNat / 2 ^ 52 = 1028 := by decide
  have entry := Double.le_ofBits (entries zlid bounded positive) (by norm_num) (by norm_num)
  have power : (32 : ℚ) = 2 ^ (((1028 : ℕ) : ℤ) - 1023) := by norm_num
  rw [power]
  exact entry

theorem le_zeta_of_le {n : ℕ} (large : zetalistStep ≤ n) (theta : ℝ) : 32 ≤ zeta n theta := by
  have positive : 1 ≤ n / zetalistStep := (Nat.one_le_div_iff (by decide)).mpr large
  have entry : ∀ zlid, 1 ≤ zlid → zlid ≤ zetalistCount → (32 : ℝ) ≤ zetalistDouble zlid := by
    intro zlid low high
    exact_mod_cast le_zetalistDouble low high
  have sum := zetaRange_nonneg
  simp only [zeta]
  by_cases beyond : n / zetalistStep > zetalistCount
  · rw [if_pos beyond]
    have := entry zetalistCount (by decide) le_rfl
    have := sum (zetalistCount * zetalistStep) (n - zetalistCount * zetalistStep) theta
    linarith
  · rw [if_neg beyond]
    have := entry (n / zetalistStep) positive (Nat.le_of_not_gt beyond)
    have := sum (n / zetalistStep * zetalistStep) (n - n / zetalistStep * zetalistStep) theta
    linarith

theorem zeta_one (theta : ℝ) : zeta 1 theta = 1 := by
  rw [zeta_of_lt (by decide)]
  simp

theorem zeta_two (theta : ℝ) : zeta 2 theta = 1 + 0.5 ^ theta := by
  have half : (0.5 : ℝ) ^ theta = 1 / 2 ^ theta := by
    rw [show (0.5 : ℝ) = 1 / 2 by norm_num, Real.div_rpow zero_le_one zero_le_two, Real.one_rpow]
  rw [zeta_of_lt (by decide), half, Finset.sum_range_succ, Finset.sum_range_one]
  norm_num

theorem half_rpow_lt_one (positive : 0 < theta) : (0.5 : ℝ) ^ theta < 1 :=
  Real.rpow_lt_one (by norm_num) (by norm_num) positive

theorem half_rpow_pos (theta : ℝ) : 0 < (0.5 : ℝ) ^ theta := Real.rpow_pos_of_pos (by norm_num) theta

/-- More than two items have a larger sum than the first two. -/
theorem zeta_two_lt {n : ℕ} (more : 2 < n) (positive : 0 < theta) : zeta 2 theta < zeta n theta := by
  by_cases small : n < zetalistStep
  · rw [zeta_of_lt small, zeta_of_lt (by decide)]
    apply Finset.sum_lt_sum_of_subset (Finset.range_subset_range.mpr more.le)
      (Finset.mem_range.mpr more) (Finset.notMem_range_self) (zetaRange_term_pos 2 theta)
    intro i _ _
    exact (zetaRange_term_pos i theta).le
  · have large := le_zeta_of_le (Nat.le_of_not_lt small) theta
    have half := half_rpow_lt_one positive
    rw [zeta_two]
    linarith

theorem one_le_zeta {n : ℕ} (nonempty : 0 < n) (positive : 0 < theta) : 1 ≤ zeta n theta := by
  have half := half_rpow_pos theta
  have two := zeta_two theta
  cases Nat.lt_or_ge 2 n with
  | inl more =>
    have larger := zeta_two_lt more positive
    linarith
  | inr few =>
    interval_cases n
    · exact (zeta_one theta).ge
    · linarith

end Zeta

/-! ## Ranks -/

section Ranks

variable {theta u : ℝ}

theorem rankDrawn_of_two_le {rank : ℕ} (high : 2 ≤ rank) (items : ℕ) (theta u : ℝ) :
    RankDrawn items theta u rank ↔ 1 + 0.5 ^ theta ≤ u * zeta items theta ∧
      rank ≤ items * rankLine items theta u ^ (1 / (1 - theta)) ∧
      items * rankLine items theta u ^ (1 / (1 - theta)) < rank + 1 := by
  obtain ⟨rank, rfl⟩ := Nat.exists_eq_add_of_le' high
  exact Iff.rfl

theorem RankDrawn.unique {items rank other : ℕ} (drawn : RankDrawn items theta u rank)
    (otherDrawn : RankDrawn items theta u other) : rank = other := by
  have half := half_rpow_pos theta
  match rank, other with
  | 0, 0 => rfl
  | 0, 1 => exact absurd drawn (not_lt.mpr otherDrawn.1)
  | 0, other + 2 =>
    have below : u * zeta items theta < 1 := drawn
    linarith [otherDrawn.1]
  | 1, 0 => exact absurd otherDrawn (not_lt.mpr drawn.1)
  | 1, 1 => rfl
  | 1, other + 2 => linarith [drawn.2, otherDrawn.1]
  | rank + 2, 0 =>
    have below : u * zeta items theta < 1 := otherDrawn
    linarith [drawn.1]
  | rank + 2, 1 => linarith [drawn.1, otherDrawn.2]
  | rank + 2, other + 2 =>
    have first : ((rank + 2 : ℕ) : ℝ) < ((other + 2 : ℕ) : ℝ) + 1 :=
      lt_of_le_of_lt drawn.2.1 otherDrawn.2.2
    have second : ((other + 2 : ℕ) : ℝ) < ((rank + 2 : ℕ) : ℝ) + 1 :=
      lt_of_le_of_lt otherDrawn.2.1 drawn.2.2
    norm_cast at first second
    omega

/-- Above the first two ranks there are more than two items, or two at the
    upper end of the draw. -/
theorem two_lt_items {items : ℕ} (nonempty : 0 < items) (high : u ≤ 1)
    (above : 1 + 0.5 ^ theta ≤ u * zeta items theta) : 2 < items ∨ items = 2 ∧ u = 1 := by
  have half := half_rpow_pos theta
  by_contra neither
  obtain ⟨few, other⟩ := not_or.mp neither
  interval_cases items
  · rw [zeta_one] at above
    linarith
  · rw [zeta_two] at above
    have top : 1 ≤ u := le_of_mul_le_mul_right (by linarith) (by linarith : 0 < 1 + (0.5 : ℝ) ^ theta)
    exact other ⟨rfl, le_antisymm high top⟩

theorem slope_defined {items : ℕ} (more : 2 < items) (positive : 0 < theta) :
    zeta 2 theta / zeta items theta < 1 := by
  have sum := one_le_zeta (Nat.zero_lt_of_lt more) positive
  exact (div_lt_one (by linarith)).mpr (zeta_two_lt more positive)

/-- Above the first two ranks, the whole part of a power of the line is between
    two and the number of items. -/
theorem rankLine_between {items : ℕ} (more : 2 < items) (positive : 0 < theta)
    (below : theta < 1) (high : u ≤ 1) (above : 1 + 0.5 ^ theta ≤ u * zeta items theta) :
    0 ≤ rankLine items theta u ∧
      2 ≤ items * rankLine items theta u ^ (1 / (1 - theta)) ∧
      items * rankLine items theta u ^ (1 / (1 - theta)) ≤ items := by
  have many : (2 : ℝ) ≤ items := by exact_mod_cast more.le
  have sum := one_le_zeta (Nat.zero_lt_of_lt more) positive
  have early : zeta 2 theta / zeta items theta ≤ u := by
    rw [div_le_iff₀ (by linarith), zeta_two]
    exact above
  have share : (0 : ℝ) < 2 / items := by positivity
  have low : (2 / items : ℝ) ^ (1 - theta) ≤ 1 :=
    Real.rpow_le_one share.le ((div_le_one (by linarith)).mpr many) (by linarith)
  obtain ⟨least, most⟩ := interpolated_between (slope_defined more positive) low early high
  have root : (2 / items : ℝ) ^ (1 / (1 / (1 - theta))) ≤ rankLine items theta u := by
    rw [one_div_one_div]
    exact least
  have exponent : 0 < 1 / (1 - theta) := one_div_pos.mpr (by linarith)
  exact ⟨(Real.rpow_nonneg share.le _).trans least,
    scaled_rpow_between zero_lt_two many exponent root most⟩

end Ranks

/-! ## `TraceZipfian` -/

section Zipfian

variable {theta u : ℝ}

theorem items_toNat (ordered : minimum ≤ maximum)
    (sums : maximum.toNat - minimum.toNat + 1 < 2 ^ 64) :
    (maximum - minimum + 1).toNat = maximum.toNat - minimum.toNat + 1 := by
  rw [UInt64.toNat_add, UInt64.toNat_sub_of_le _ _ ordered]
  exact Nat.mod_eq_of_lt sums

theorem nextRaw_of_two (two : (maximum - minimum + 1).toNat = 2) (top : u = 1) :
    (traceZipfian minimum maximum theta).nextRaw u = none := by
  have half := half_rpow_pos theta
  have sum := zeta_two theta
  have flat : 1 - zeta 2 theta / zeta 2 theta = 0 := by
    rw [div_self (by linarith), sub_self]
  have first : ¬ 1 * zeta 2 theta < 1 := by linarith
  have second : ¬ 1 * zeta 2 theta < 1 + 0.5 ^ theta := by linarith
  simp only [TraceZipfian.nextRaw, traceZipfian, two, top, first, second, flat, quotient, if_false,
    if_true]
  rfl

/-- A draw has one rank, and the bounds of the generator are where ranks start. -/
theorem nextRaw_of_rank (positive : 0 < theta) (below : theta < 1) (high : u ≤ 1)
    (nonempty : 0 < (maximum - minimum + 1).toNat)
    (apart : ¬ ((maximum - minimum + 1).toNat = 2 ∧ u = 1)) :
    ∃ rank, RankDrawn (maximum - minimum + 1).toNat theta u rank ∧
      (traceZipfian minimum maximum theta).nextRaw u = some (minimum + UInt64.ofNat rank) := by
  by_cases first : u * zeta (maximum - minimum + 1).toNat theta < 1
  · exact ⟨0, first, if_pos first⟩
  by_cases second : u * zeta (maximum - minimum + 1).toNat theta < 1 + 0.5 ^ theta
  · refine ⟨1, ⟨le_of_not_gt first, second⟩, ?_⟩
    simp [TraceZipfian.nextRaw, traceZipfian, first, second, -UInt64.toNat_add]
  · have above := le_of_not_gt second
    have more := (two_lt_items nonempty high above).resolve_right apart
    have slope := (sub_pos.mpr (slope_defined more positive)).ne'
    obtain ⟨line, least, most⟩ := rankLine_between more positive below high above
    obtain ⟨word, converted, floor, _⟩ := truncate_of_le (zero_le_two.trans least) most
    have rank : 2 ≤ word.toNat := by
      rw [floor]
      exact Nat.le_floor (by exact_mod_cast least)
    refine ⟨word.toNat, (rankDrawn_of_two_le rank _ theta u).mpr ⟨above, ?_, ?_⟩, ?_⟩
    · rw [floor]
      exact Nat.floor_le (zero_le_two.trans least)
    · rw [floor]
      exact Nat.lt_floor_add_one _
    · have other : 1 - theta ≠ 0 := by linarith
      simp only [rankLine] at line converted
      simp [TraceZipfian.nextRaw, traceZipfian, first, second, quotient, slope, other, power,
        not_lt.mpr line, converted, -UInt64.toNat_add, -one_div]

/-- The last remainder makes the maximum a zero, and is not defined for a maximum of zero. -/
theorem wordRemainder_inBounds_iff {value : UInt64} (least : minimum ≤ value)
    (most : value ≤ maximum) :
    InBounds minimum maximum (wordRemainder value maximum) ↔
      maximum ≠ 0 ∧ (minimum ≠ 0 → value ≠ maximum) := by
  by_cases zero : maximum = 0
  · simp [InBounds, wordRemainder, zero]
  have defined : wordRemainder value maximum = some (value % maximum) := if_neg zero
  rw [defined]
  by_cases top : value = maximum
  · simp [InBounds, zero, top]
  · have small : value.toNat < maximum.toNat := by
      rw [UInt64.le_iff_toNat_le] at most
      exact Nat.lt_of_le_of_ne most (fun same => top (UInt64.toNat_inj.mp same))
    have same : value % maximum = value := by
      rw [← UInt64.toNat_inj, UInt64.toNat_mod, Nat.mod_eq_of_lt small]
    simp [InBounds, zero, same, least, most, top]

theorem fits_of_rank {rank : ℕ} (drawn : RankDrawn (maximum - minimum + 1).toNat theta u rank) :
    (∀ other, RankDrawn (maximum - minimum + 1).toNat theta u other →
        fnvHash64 (minimum + UInt64.ofNat other) % (maximum - minimum + 1) ≠ maximum - minimum) ↔
      fnvHash64 (minimum + UInt64.ofNat rank) % (maximum - minimum + 1) ≠ maximum - minimum := by
  constructor
  · intro all
    exact all rank drawn
  · intro here other otherDrawn
    exact drawn.unique otherDrawn ▸ here

theorem scattered_inBounds_iff (ordered : minimum ≤ maximum) {off : UInt64}
    (small : off ≤ maximum - minimum) :
    InBounds minimum maximum (wordRemainder (minimum + off) maximum) ↔
      maximum ≠ 0 ∧ (minimum ≠ 0 → off ≠ maximum - minimum) := by
  obtain ⟨least, most, sum⟩ := add_inBounds ordered small
  have top : minimum + off = maximum ↔ off = maximum - minimum := by
    rw [← UInt64.toNat_inj, sum, ← UInt64.toNat_inj, UInt64.toNat_sub_of_le _ _ ordered]
    rw [UInt64.le_iff_toNat_le] at ordered
    omega
  rw [wordRemainder_inBounds_iff least most, ne_eq (minimum + off), top]

theorem hash_mod_le (ordered : minimum ≤ maximum)
    (sums : maximum.toNat - minimum.toNat + 1 < 2 ^ 64) (word : UInt64) :
    word % (maximum - minimum + 1) ≤ maximum - minimum := by
  have items := items_toNat ordered sums
  have less := @Nat.mod_lt word.toNat (maximum - minimum + 1).toNat (by omega)
  rw [UInt64.le_iff_toNat_le, UInt64.toNat_mod, UInt64.toNat_sub_of_le _ _ ordered]
  omega

theorem next_of_rank {rank : ℕ} (nonempty : 0 < (maximum - minimum + 1).toNat)
    (raw : (traceZipfian minimum maximum theta).nextRaw u = some (minimum + UInt64.ofNat rank)) :
    (traceZipfian minimum maximum theta).next u = wordRemainder
      (minimum + fnvHash64 (minimum + UInt64.ofNat rank) % (maximum - minimum + 1)) maximum := by
  have nonzero : maximum - minimum + 1 ≠ 0 := by
    intro zero
    simp [zero] at nonempty
  have hashed : wordRemainder (fnvHash64 (minimum + UInt64.ofNat rank)) (maximum - minimum + 1) =
      some (fnvHash64 (minimum + UInt64.ofNat rank) % (maximum - minimum + 1)) := if_neg nonzero
  rw [TraceZipfian.next, raw]
  exact congrArg (fun value => value.bind fun word => wordRemainder (minimum + word) maximum) hashed

theorem traceZipfian_inBounds_iff (ordered : minimum ≤ maximum)
    (sums : maximum.toNat - minimum.toNat + 1 < 2 ^ 64) (positive : 0 < theta) (below : theta < 1)
    (high : u ≤ 1) :
    InBounds minimum maximum ((traceZipfian minimum maximum theta).next u) ↔
      ZipfianFits minimum maximum theta u := by
  have items := items_toNat ordered sums
  have nonempty : 0 < (maximum - minimum + 1).toNat := by omega
  have two : maximum - minimum = 1 ↔ (maximum - minimum + 1).toNat = 2 := by
    rw [items, ← UInt64.toNat_inj, UInt64.toNat_sub_of_le _ _ ordered]
    simp
  by_cases apart : (maximum - minimum + 1).toNat = 2 ∧ u = 1
  · have undefined : (traceZipfian minimum maximum theta).next u = none := by
      rw [TraceZipfian.next, nextRaw_of_two apart.1 apart.2]
      rfl
    rw [undefined]
    simp [InBounds, ZipfianFits, two.mpr apart.1, apart.2]
  · obtain ⟨rank, drawn, raw⟩ := nextRaw_of_rank positive below high nonempty apart
    rw [next_of_rank nonempty raw, scattered_inBounds_iff ordered (hash_mod_le ordered sums _),
      ZipfianFits, two, fits_of_rank drawn]
    simp only [apart, not_false_eq_true, true_and]

end Zipfian

/-! ## All three -/

section Generators

variable (minimum maximum) (offset theta : ℝ)

/-- A call of each generator that returns a value within the bounds. -/
def AllInBounds (u : ℝ) (draws : ℕ → ℝ) : Prop :=
  InBounds minimum maximum ((traceUniform minimum maximum).next u) ∧
    (∃ fuel result, (traceNormal minimum maximum offset).next draws fuel = some result ∧
      InBounds minimum maximum result) ∧
    InBounds minimum maximum ((traceZipfian minimum maximum theta).next u)

variable {minimum maximum offset theta}

theorem allInBounds_iff (ordered : minimum ≤ maximum)
    (sums : maximum.toNat - minimum.toNat + 1 < 2 ^ 64) (positive : 0 < theta) (below : theta < 1)
    {u : ℝ} (low : 0 ≤ u) (high : u ≤ 1) (draws : ℕ → ℝ) :
    AllInBounds minimum maximum offset theta u draws ↔
      NormalFits minimum maximum offset draws ∧ ZipfianFits minimum maximum theta u := by
  rw [AllInBounds, traceNormal_inBounds_iff ordered,
    traceZipfian_inBounds_iff ordered sums positive below high,
    and_iff_right (traceUniform_inBounds ordered low high)]

/-- Without a lower bound, what `TraceNormal` does not add is zero. -/
theorem normalFits_of_zero {draws : ℕ → ℝ} {rnd : ℝ} (accepted : FirstAccepted draws offset rnd) :
    NormalFits 0 maximum offset draws := by
  obtain ⟨_, _, inside, _⟩ := id accepted
  exact ⟨rnd, accepted, by simpa using mul_nonneg inside.1 (Nat.cast_nonneg maximum.toNat)⟩

theorem two_le_iff : 2 ≤ maximum ↔ maximum ≠ 0 ∧ maximum ≠ 1 := by
  rw [UInt64.le_iff_toNat_le, ne_eq, ne_eq, ← UInt64.toNat_inj, ← UInt64.toNat_inj]
  simp
  omega

theorem zipfianFits_zero_iff {u : ℝ} :
    ZipfianFits 0 maximum theta u ↔ maximum ≠ 0 ∧ ¬ (maximum = 1 ∧ u = 1) := by
  simp [ZipfianFits]

/-- The lowest draw of `TraceNormal` is a zero, whatever the minimum. -/
theorem eq_zero_of_normalFits (fits : NormalFits minimum maximum offset (fun _ => -offset)) :
    minimum = 0 := by
  obtain ⟨rnd, ⟨_, same, _, _⟩, enough⟩ := fits
  have zero : rnd = 0 := by linarith
  rw [zero, zero_mul] at enough
  have least : minimum.toNat * 6 ≤ 0 := by exact_mod_cast enough
  rw [← UInt64.toNat_inj]
  simp
  omega

end Generators

/-- All three generators keep their bounds for the draws that fit, and for all
    draws that end the loop of `TraceNormal` when there is no lower bound and
    the upper one is at least two. -/
theorem generators_inBounds_iff (minimum maximum : UInt64) (offset theta : ℝ)
    (ordered : minimum ≤ maximum) (sums : maximum.toNat - minimum.toNat + 1 < 2 ^ 64)
    (positive : 0 < theta) (below : theta < 1) :
    (∀ u draws, 0 ≤ u → u ≤ 1 → (AllInBounds minimum maximum offset theta u draws ↔
      NormalFits minimum maximum offset draws ∧ ZipfianFits minimum maximum theta u)) ∧
    ((∀ u draws, 0 ≤ u → u ≤ 1 → (∃ rnd, FirstAccepted draws offset rnd) →
        AllInBounds minimum maximum offset theta u draws) ↔ minimum = 0 ∧ 2 ≤ maximum) := by
  have each : ∀ u draws, 0 ≤ u → u ≤ 1 → (AllInBounds minimum maximum offset theta u draws ↔
      NormalFits minimum maximum offset draws ∧ ZipfianFits minimum maximum theta u) :=
    fun u draws low high => allInBounds_iff ordered sums positive below low high draws
  refine ⟨each, ?_, ?_⟩
  · intro all
    have accepted : ∃ rnd, FirstAccepted (fun _ => -offset) offset rnd :=
      ⟨0, 0, by simp, by norm_num, fun _ early => absurd early (Nat.not_lt_zero _)⟩
    obtain ⟨normal, zipfian⟩ := (each 1 _ zero_le_one le_rfl).mp (all 1 _ zero_le_one le_rfl accepted)
    have zero := eq_zero_of_normalFits normal
    subst zero
    obtain ⟨nonzero, notOne⟩ := zipfianFits_zero_iff.mp zipfian
    exact ⟨rfl, two_le_iff.mpr ⟨nonzero, fun one => notOne ⟨one, rfl⟩⟩⟩
  · intro condition
    obtain ⟨rfl, two⟩ := condition
    intro u draws low high accepted
    obtain ⟨rnd, accepted⟩ := accepted
    obtain ⟨nonzero, notOne⟩ := two_le_iff.mp two
    exact (each u draws low high).mpr ⟨normalFits_of_zero accepted,
      zipfianFits_zero_iff.mpr ⟨nonzero, fun one => notOne one.1⟩⟩

end Bounds

/-- A draw of each generator between zero and two, with the other defaults. -/
theorem generators_inBounds_iff_two : AllInBounds 0 2 21 0.85 1 (fun _ => -20) :=
  (generators_inBounds_iff 0 2 21 0.85 (by decide) (by decide) (by norm_num) (by norm_num)).2.mpr
    ⟨rfl, by decide⟩ 1 (fun _ => -20) zero_le_one le_rfl
    ⟨1, 0, by norm_num, by norm_num, fun _ early => absurd early (Nat.not_lt_zero _)⟩

/-- With its default arguments `TraceNormal` returns a zero below its minimum,
    or does not end; `TraceZipfian` divides by zero for the bounds `0 0`, turns
    the only number of `5 5` to zero, and has no slope for two items. -/
theorem generators_not_inBounds :
    (¬ ∃ fuel result, (traceNormal 1 281474976710655 21).next (fun _ => -21) fuel = some result ∧
      InBounds 1 281474976710655 result) ∧
    (¬ ∃ fuel result, (traceNormal 1 281474976710655 21).next (fun _ => 0) fuel = some result ∧
      InBounds 1 281474976710655 result) ∧
    ¬ InBounds 0 0 ((traceZipfian 0 0 0.85).next 0) ∧
    ¬ InBounds 5 5 ((traceZipfian 5 5 0.85).next 0) ∧
    ¬ InBounds 0 1 ((traceZipfian 0 1 0.85).next 1) := by
  refine ⟨?_, ?_, ?_, ?_, ?_⟩
  · rw [traceNormal_inBounds_iff (by decide)]
    intro fits
    obtain ⟨rnd, ⟨_, same, _, _⟩, enough⟩ := fits
    norm_num at same
    simp [← same] at enough
    norm_num at enough
  · rw [traceNormal_inBounds_iff (by decide)]
    intro fits
    obtain ⟨rnd, ⟨_, same, inside, _⟩, _⟩ := fits
    norm_num [← same] at inside
  · rw [traceZipfian_inBounds_iff (by decide) (by decide) (by norm_num) (by norm_num) zero_le_one]
    intro fits
    exact fits.1 rfl
  · rw [traceZipfian_inBounds_iff (by decide) (by decide) (by norm_num) (by norm_num) zero_le_one]
    intro fits
    exact fits.2.2 (by decide) 0 (by simp [RankDrawn]) (by decide)
  · rw [traceZipfian_inBounds_iff (by decide) (by decide) (by norm_num) (by norm_num) le_rfl]
    intro fits
    exact fits.2.1 ⟨by decide, rfl⟩

end FdpRocks.Benchmark
