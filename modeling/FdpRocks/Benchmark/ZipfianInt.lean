import FdpRocks.Benchmark.RandomKeyTrace
import FdpRocks.Benchmark.TraceGeneratorsSoundness

/-! # `zipfian_int_distribution`

The distribution behind the read workloads, with doubles as exact real numbers
and `_IntType` as `int`.  `generate_canonical` is given from outside; it is less
than one.

* `draw_of_rank` — a draw has one rank, counted from the lower bound.
* `zipfian_ranks` — ranks rise with the draw, fill the range and are those of
  `TraceZipfian`.
-/

namespace FdpRocks.Benchmark

open FdpRocks.Library.Sampling

/-- `param_type`; assertions are left out of the build. -/
structure ZipfianParam where
  a : ℤ
  b : ℤ
  theta : ℝ
  zeta : ℝ
  zeta2theta : ℝ

/-- The private `zeta` of the parameters. -/
noncomputable def zetaSum (n : ℕ) (theta : ℝ) : ℝ :=
  (List.range n).foldl (fun ans i => ans + (1 / ((i + 1 : ℕ) : ℝ)) ^ theta) 0

/-- An `int` becomes an `unsigned long` as the argument of `zeta`. -/
noncomputable def zipfianParam (a b : ℤ) (theta : ℝ) : ZipfianParam where
  a := a
  b := b
  theta := theta
  zeta := zetaSum ((b - a + 1) % 2 ^ 64).toNat theta
  zeta2theta := zetaSum 2 theta

/-- An `int`; undefined when the number is not one. -/
def asInt (number : ℤ) : Option ℤ := if -2 ^ 31 ≤ number ∧ number < 2 ^ 31 then some number else none

/-- A double becomes an `int`. -/
noncomputable def wholeInt (number : ℝ) : Option ℤ := asInt (if 0 ≤ number then ⌊number⌋ else ⌈number⌉)

/-- `operator()`.  There alpha and eta are computed before the draw; the first two
    branches do not use them, and a division of doubles by zero stops nothing. -/
noncomputable def ZipfianParam.draw (param : ZipfianParam) (u : ℝ) : Option ℤ := do
  let count ← asInt (param.b - param.a + 1)
  let items : ℝ := count
  let uz := u * param.zeta
  if uz < 1 then some param.a
  else if uz < 1 + 0.5 ^ param.theta then some (param.a + 1)
  else
    let alpha ← quotient 1 (1 - param.theta)
    let eta ← quotient (1 - (2.0 / items) ^ (1 - param.theta)) (1 - param.zeta2theta / param.zeta)
    wholeInt (param.a + items * (← power (eta * u - eta + 1) alpha))

/-! ## Sums -/

theorem zetaSum_eq {n : ℕ} (small : n < zetalistStep) (theta : ℝ) : zetaSum n theta = zeta n theta := by
  have sum : zetaSum n theta = ∑ i ∈ Finset.range n, 1 / ((i + 1 : ℕ) : ℝ) ^ theta := by
    unfold zetaSum
    clear small
    induction n with
    | zero => simp
    | succ n inductionHypothesis =>
      have term : (1 / ((n + 1 : ℕ) : ℝ)) ^ theta = 1 / ((n + 1 : ℕ) : ℝ) ^ theta := by
        rw [Real.div_rpow zero_le_one (Nat.cast_nonneg _), Real.one_rpow]
      rw [List.range_succ, List.foldl_append, inductionHypothesis, Finset.sum_range_succ]
      simp only [List.foldl_cons, List.foldl_nil, term]
  rw [sum, zeta_of_lt small]

/-! ## Ranks -/

section Ranks

variable {a b : ℤ} {theta u v : ℝ} {items : ℕ}

theorem wholeInt_of_nonneg {number : ℝ} (nonneg : 0 ≤ number) (small : number < 2 ^ 31) :
    wholeInt number = some ⌊number⌋ := by
  have low : 0 ≤ ⌊number⌋ := Int.floor_nonneg.mpr nonneg
  have high : ⌊number⌋ < 2 ^ 31 := by
    rw [Int.floor_lt]
    exact_mod_cast small
  rw [wholeInt, if_pos nonneg]
  exact if_pos ⟨by omega, high⟩

/-- Below one, the line stays below one. -/
theorem rankLine_lt_one (more : 2 < items) (positive : 0 < theta) (below : theta < 1) (less : u < 1) :
    rankLine items theta u < 1 := by
  have many : (2 : ℝ) < items := by exact_mod_cast more
  have share : (2 / items : ℝ) ^ (1 - theta) < 1 :=
    Real.rpow_lt_one (by positivity) ((div_lt_one (by linarith)).mpr many) (by linarith)
  have slope : 0 < (1 - (2 / items : ℝ) ^ (1 - theta)) / (1 - zeta 2 theta / zeta items theta) :=
    div_pos (by linarith) (sub_pos.mpr (slope_defined more positive))
  have down := mul_neg_of_pos_of_neg slope (sub_neg.mpr less)
  unfold rankLine
  linarith

theorem scaledLine_lt (more : 2 < items) (positive : 0 < theta) (below : theta < 1) (less : u < 1)
    (above : 1 + 0.5 ^ theta ≤ u * zeta items theta) :
    items * rankLine items theta u ^ (1 / (1 - theta)) < items := by
  obtain ⟨line, _, _⟩ := rankLine_between more positive below less.le above
  have many : (0 : ℝ) < items := by exact_mod_cast Nat.zero_lt_of_lt more
  have root : rankLine items theta u ^ (1 / (1 - theta)) < 1 :=
    Real.rpow_lt_one line (rankLine_lt_one more positive below less)
      (one_div_pos.mpr (by linarith))
  exact mul_lt_of_lt_one_right many root

/-- A rank is less than the number of items. -/
theorem RankDrawn.lt_items {rank : ℕ} (drawn : RankDrawn items theta u rank) (nonempty : 0 < items)
    (positive : 0 < theta) (below : theta < 1) (less : u < 1) : rank < items := by
  have half := half_rpow_pos theta
  match rank with
  | 0 => exact nonempty
  | 1 =>
    obtain ⟨reached, _⟩ := drawn
    by_contra few
    obtain rfl : items = 1 := by omega
    rw [zeta_one] at reached
    linarith
  | rank + 2 =>
    obtain ⟨above, least, _⟩ := drawn
    have more := (two_lt_items nonempty less.le above).resolve_right fun top => less.ne top.2
    exact_mod_cast least.trans_lt (scaledLine_lt more positive below less above)

/-- A larger draw has no smaller rank. -/
theorem RankDrawn.mono {rank later : ℕ} (drawn : RankDrawn items theta u rank)
    (laterDrawn : RankDrawn items theta v later) (nonempty : 0 < items) (positive : 0 < theta)
    (below : theta < 1) (ordered : u ≤ v) (less : v < 1) : rank ≤ later := by
  have half := half_rpow_pos theta
  have sum := one_le_zeta nonempty positive
  have products : u * zeta items theta ≤ v * zeta items theta :=
    mul_le_mul_of_nonneg_right ordered (by linarith)
  match rank, later with
  | 0, _ => exact Nat.zero_le _
  | 1, 0 =>
    have low : v * zeta items theta < 1 := laterDrawn
    linarith [drawn.1]
  | rank + 2, 0 =>
    have low : v * zeta items theta < 1 := laterDrawn
    linarith [drawn.1]
  | 1, 1 => exact le_rfl
  | rank + 2, 1 => linarith [drawn.1, laterDrawn.2]
  | 1, later + 2 => omega
  | rank + 2, later + 2 =>
    have more := (two_lt_items nonempty (ordered.trans less.le) drawn.1).resolve_right
      fun top => (ordered.trans_lt less).ne top.2
    obtain ⟨line, _, _⟩ := rankLine_between more positive below (ordered.trans less.le) drawn.1
    have many : (2 : ℝ) ≤ items := by exact_mod_cast more.le
    have share : (2 / items : ℝ) ^ (1 - theta) ≤ 1 :=
      Real.rpow_le_one (by positivity) ((div_le_one (by linarith)).mpr many) (by linarith)
    have slope : 0 ≤ (1 - (2 / items : ℝ) ^ (1 - theta)) / (1 - zeta 2 theta / zeta items theta) :=
      div_nonneg (by linarith) (sub_pos.mpr (slope_defined more positive)).le
    have lines : rankLine items theta u ≤ rankLine items theta v := by
      unfold rankLine
      gcongr
    have roots : rankLine items theta u ^ (1 / (1 - theta)) ≤ rankLine items theta v ^ (1 / (1 - theta)) :=
      Real.rpow_le_rpow line lines (one_div_pos.mpr (by linarith)).le
    have scaled : items * rankLine items theta u ^ (1 / (1 - theta))
        ≤ items * rankLine items theta v ^ (1 / (1 - theta)) := by gcongr
    have real : ((rank + 2 : ℕ) : ℝ) < ((later + 2 : ℕ) : ℝ) + 1 :=
      drawn.2.1.trans_lt (scaled.trans_lt laterDrawn.2.2)
    norm_cast at real
    omega

/-- The line takes every value from the first two ranks up to one. -/
theorem exists_rankLine (more : 2 < items) (positive : 0 < theta) (below : theta < 1) {value : ℝ}
    (least : (2 / items : ℝ) ^ (1 - theta) ≤ value) (small : value < 1) :
    ∃ u, zeta 2 theta / zeta items theta ≤ u ∧ u < 1 ∧ rankLine items theta u = value := by
  have many : (2 : ℝ) < items := by exact_mod_cast more
  have share : (2 / items : ℝ) ^ (1 - theta) < 1 :=
    Real.rpow_lt_one (by positivity) ((div_lt_one (by linarith)).mpr many) (by linarith)
  have room := sub_pos.mpr (slope_defined more positive)
  have slope : 0 < (1 - (2 / items : ℝ) ^ (1 - theta)) / (1 - zeta 2 theta / zeta items theta) :=
    div_pos (by linarith) room
  have part : (1 - value) / ((1 - (2 / items : ℝ) ^ (1 - theta)) / (1 - zeta 2 theta / zeta items theta))
      ≤ 1 - zeta 2 theta / zeta items theta := by
    rw [div_le_iff₀ slope, mul_div_cancel₀ _ room.ne']
    linarith
  refine ⟨1 - (1 - value) / ((1 - (2 / items : ℝ) ^ (1 - theta))
    / (1 - zeta 2 theta / zeta items theta)), by linarith, ?_, ?_⟩
  · have positivePart := div_pos (sub_pos.mpr small) slope
    linarith
  · unfold rankLine
    have cancel := mul_div_cancel₀ (1 - value) slope.ne'
    linarith

/-- Where a rank starts. -/
theorem exists_rankDrawn {rank : ℕ} (within : rank < items) (positive : 0 < theta)
    (below : theta < 1) : ∃ u, 0 ≤ u ∧ u < 1 ∧ RankDrawn items theta u rank := by
  have half := half_rpow_pos theta
  have sum := one_le_zeta (Nat.zero_lt_of_lt within) positive
  match rank with
  | 0 =>
    refine ⟨0, le_rfl, one_pos, ?_⟩
    show 0 * zeta items theta < 1
    rw [zero_mul]
    exact one_pos
  | 1 =>
    have second : 1 + (0.5 : ℝ) ^ theta ≤ zeta items theta := by
      rw [← zeta_two]
      rcases Nat.lt_or_ge 2 items with more | few
      · exact (zeta_two_lt more positive).le
      · rw [show items = 2 by omega]
    have large : 0 < zeta items theta := by linarith
    have whole : 1 / zeta items theta * zeta items theta = 1 := one_div_mul_cancel large.ne'
    refine ⟨1 / zeta items theta, (one_div_pos.mpr large).le, ?_, whole.ge, ?_⟩
    · rw [div_lt_one large]
      linarith
    · rw [whole]
      linarith
  | rank + 2 =>
    have more : 2 < items := by omega
    have many : (2 : ℝ) < items := by exact_mod_cast more
    have large : 0 < zeta items theta := by linarith
    have fraction : (0 : ℝ) ≤ ((rank + 2 : ℕ) : ℝ) / items := by positivity
    have inside : ((rank + 2 : ℕ) : ℝ) < items := by exact_mod_cast within
    have root : (((rank + 2 : ℕ) : ℝ) / items) ^ (1 - theta) < 1 :=
      Real.rpow_lt_one fraction ((div_lt_one (by linarith)).mpr inside) (by linarith)
    have atLeast : (2 / items : ℝ) ^ (1 - theta) ≤ (((rank + 2 : ℕ) : ℝ) / items) ^ (1 - theta) := by
      apply Real.rpow_le_rpow (by positivity) _ (by linarith)
      gcongr
      push_cast
      linarith [(Nat.cast_nonneg rank : (0 : ℝ) ≤ rank)]
    obtain ⟨u, early, less, line⟩ := exists_rankLine more positive below atLeast root
    have nonneg : 0 ≤ zeta 2 theta / zeta items theta := by
      rw [zeta_two]
      positivity
    have value : items * rankLine items theta u ^ (1 / (1 - theta)) = ((rank + 2 : ℕ) : ℝ) := by
      rw [line, ← Real.rpow_mul fraction, mul_one_div_cancel (by linarith), Real.rpow_one,
        mul_div_cancel₀ _ (by linarith)]
    refine ⟨u, nonneg.trans early, less, ?_, value.ge, ?_⟩
    · rw [← zeta_two]
      exact (div_le_iff₀ large).mp early
    · rw [value]
      exact lt_add_one _

end Ranks

/-! ## Draws -/

section Draws

variable {a b : ℤ} {theta u v : ℝ}

/-- The number of values. -/
def valueCount (a b : ℤ) : ℕ := (b - a + 1).toNat

theorem valueCount_pos (ordered : a ≤ b) : 0 < valueCount a b := by
  unfold valueCount
  omega

theorem valueCount_cast (ordered : a ≤ b) : ((b - a + 1 : ℤ) : ℝ) = valueCount a b := by
  have same : b - a + 1 = ((valueCount a b : ℕ) : ℤ) := by
    unfold valueCount
    omega
  rw [same]
  exact Int.cast_natCast _

theorem zipfianParam_zeta (nonneg : 0 ≤ a) (ordered : a ≤ b) (int : b < 2 ^ 31) :
    (zipfianParam a b theta).zeta = zeta (valueCount a b) theta := by
  have word : ((b - a + 1) % 2 ^ 64).toNat = valueCount a b := by
    unfold valueCount
    rw [Int.emod_eq_of_lt (by omega) (by omega)]
  have small : valueCount a b < zetalistStep := by
    unfold valueCount zetalistStep
    omega
  rw [← zetaSum_eq small, ← word]
  rfl

/-- Above the first two ranks. -/
theorem upperDraw_eq (nonneg : 0 ≤ a) (ordered : a ≤ b) (int : b < 2 ^ 31) (positive : 0 < theta)
    (below : theta < 1) (less : u < 1) (above : 1 + 0.5 ^ theta ≤ u * zeta (valueCount a b) theta) :
    (do
      let alpha ← quotient 1 (1 - theta)
      let eta ← quotient (1 - (2 / (valueCount a b : ℝ)) ^ (1 - theta))
        (1 - zeta 2 theta / zeta (valueCount a b) theta)
      wholeInt (a + valueCount a b * (← power (eta * u - eta + 1) alpha)) : Option ℤ)
      = some (a + (⌊(valueCount a b : ℝ) * rankLine (valueCount a b) theta u ^ (1 / (1 - theta))⌋₊ : ℕ)) := by
  have nonempty := valueCount_pos ordered
  have more := (two_lt_items nonempty less.le above).resolve_right fun top => less.ne top.2
  have slope := (sub_pos.mpr (slope_defined more positive)).ne'
  obtain ⟨line, least, _⟩ := rankLine_between more positive below less.le above
  have inside := scaledLine_lt more positive below less above
  have low : (0 : ℝ) ≤ a := by exact_mod_cast nonneg
  have top : (a : ℝ) + valueCount a b ≤ 2 ^ 31 := by
    have bound : (b : ℝ) + 1 ≤ 2 ^ 31 := by exact_mod_cast int
    rw [← valueCount_cast ordered]
    push_cast
    linarith
  have exponent : quotient 1 (1 - theta) = some (1 / (1 - theta)) := if_neg (by linarith)
  have eta : quotient (1 - (2 / (valueCount a b : ℝ)) ^ (1 - theta))
      (1 - zeta 2 theta / zeta (valueCount a b) theta)
      = some ((1 - (2 / (valueCount a b : ℝ)) ^ (1 - theta))
        / (1 - zeta 2 theta / zeta (valueCount a b) theta)) := if_neg slope
  have shape : (1 - (2 / (valueCount a b : ℝ)) ^ (1 - theta))
        / (1 - zeta 2 theta / zeta (valueCount a b) theta) * u
      - (1 - (2 / (valueCount a b : ℝ)) ^ (1 - theta))
        / (1 - zeta 2 theta / zeta (valueCount a b) theta) + 1
      = rankLine (valueCount a b) theta u := by
    unfold rankLine
    ring
  have root : power (rankLine (valueCount a b) theta u) (1 / (1 - theta))
      = some (rankLine (valueCount a b) theta u ^ (1 / (1 - theta))) := if_neg line.not_gt
  simp only [exponent, eta, Option.bind_eq_bind, Option.bind_some, shape, root]
  rw [wholeInt_of_nonneg (by linarith) (by linarith), Int.floor_intCast_add,
    Int.natCast_floor_eq_floor (by linarith)]

theorem draw_of_rank (nonneg : 0 ≤ a) (ordered : a ≤ b) (int : b < 2 ^ 31) (fits : b - a + 1 < 2 ^ 31)
    (positive : 0 < theta) (below : theta < 1) (less : u < 1) :
    ∃ rank, RankDrawn (valueCount a b) theta u rank ∧
      (zipfianParam a b theta).draw u = some (a + (rank : ℤ)) := by
  have sum : (zipfianParam a b theta).zeta = zeta (valueCount a b) theta :=
    zipfianParam_zeta nonneg ordered int
  have two : (zipfianParam a b theta).zeta2theta = zeta 2 theta := zetaSum_eq (by decide) theta
  have nonempty := valueCount_pos ordered
  have low : -2 ^ 31 ≤ b - a + 1 := by omega
  have count : asInt ((zipfianParam a b theta).b - (zipfianParam a b theta).a + 1)
      = some (b - a + 1) := if_pos ⟨low, fits⟩
  unfold ZipfianParam.draw
  rw [count, Option.bind_eq_bind, Option.bind_some]
  have double : (2.0 : ℝ) = 2 := by norm_num
  dsimp only
  rw [sum, two, valueCount_cast ordered, double]
  show ∃ rank, _ ∧ (if u * zeta (valueCount a b) theta < 1 then some a
    else if u * zeta (valueCount a b) theta < 1 + 0.5 ^ theta then some (a + 1) else _) = _
  by_cases first : u * zeta (valueCount a b) theta < 1
  · exact ⟨0, first, by rw [if_pos first, Nat.cast_zero, add_zero]⟩
  by_cases second : u * zeta (valueCount a b) theta < 1 + 0.5 ^ theta
  · refine ⟨1, ⟨le_of_not_gt first, second⟩, ?_⟩
    rw [if_neg first, if_pos second, Nat.cast_one]
  · have above := le_of_not_gt second
    have more := (two_lt_items nonempty less.le above).resolve_right fun top => less.ne top.2
    obtain ⟨_, least, _⟩ := rankLine_between more positive below less.le above
    have high : 2 ≤ ⌊(valueCount a b : ℝ) * rankLine (valueCount a b) theta u ^ (1 / (1 - theta))⌋₊ :=
      Nat.le_floor (by exact_mod_cast least)
    refine ⟨⌊(valueCount a b : ℝ) * rankLine (valueCount a b) theta u ^ (1 / (1 - theta))⌋₊, ?_, ?_⟩
    · rw [rankDrawn_of_two_le high]
      exact ⟨above, Nat.floor_le (by linarith), Nat.lt_floor_add_one _⟩
    · rw [if_neg first, if_neg second]
      exact upperDraw_eq nonneg ordered int positive below less above

/-- The distribution draws every value of its range and no other, a larger number
    never a smaller value, and the rank that `TraceZipfian` draws.  The ranks of a
    read workload are what its generators rely on. -/
theorem zipfian_ranks (nonneg : 0 ≤ a) (ordered : a ≤ b) (int : b < 2 ^ 31) (fits : b - a + 1 < 2 ^ 31)
    (positive : 0 < theta) (below : theta < 1) :
    ∃ rank : ℝ → ℕ,
      (∀ u < 1, (zipfianParam a b theta).draw u = some (a + (rank u : ℤ)) ∧ a + (rank u : ℤ) ≤ b) ∧
      (∀ u v, u ≤ v → v < 1 → rank u ≤ rank v) ∧
      (∀ value, a ≤ value → value ≤ b →
        ∃ u, 0 ≤ u ∧ u < 1 ∧ (zipfianParam a b theta).draw u = some value) ∧
      (∀ minimum maximum : UInt64, minimum ≤ maximum →
        (maximum.toNat - minimum.toNat : ℤ) = b - a →
        ∀ u < 1, (traceZipfian minimum maximum theta).nextRaw u
          = some (minimum + UInt64.ofNat (rank u))) ∧
      ∀ (draws : Draws) (bound used : ℕ), a = 1 → b = zipfianMax bound →
        (∀ draw < used, ∃ u < 1, (zipfianParam a b theta).draw u = some (draws.samples draw : ℤ)) →
        draws.Declared bound used := by
  have nonempty := valueCount_pos ordered
  have drawn : ∀ u : ℝ, ∃ rank, u < 1 → RankDrawn (valueCount a b) theta u rank ∧
      (zipfianParam a b theta).draw u = some (a + (rank : ℤ)) := by
    intro u
    by_cases less : u < 1
    · obtain ⟨rank, known⟩ := draw_of_rank nonneg ordered int fits positive below less
      exact ⟨rank, fun _ => known⟩
    · exact ⟨0, fun other => absurd other less⟩
  choose rank known using drawn
  have within : ∀ u < 1, a + (rank u : ℤ) ≤ b := by
    intro u less
    have small := (known u less).1.lt_items nonempty positive below less
    unfold valueCount at small
    omega
  refine ⟨rank, fun u less => ⟨(known u less).2, within u less⟩, fun u v before less => ?_, ?_, ?_, ?_⟩
  · exact (known u (before.trans_lt less)).1.mono (known v less).1 nonempty positive below before less
  · intro value least most
    have within : (value - a).toNat < valueCount a b := by
      unfold valueCount
      omega
    obtain ⟨u, low, less, drawn⟩ := exists_rankDrawn within positive below
    refine ⟨u, low, less, ?_⟩
    rw [(known u less).2, (known u less).1.unique drawn, Int.toNat_of_nonneg (by omega)]
    congr 1
    omega
  · intro minimum maximum least span u less
    have bounded := maximum.toNat_lt
    have count : (maximum - minimum + 1).toNat = valueCount a b := by
      unfold valueCount
      rw [items_toNat least (by omega)]
      rw [UInt64.le_iff_toNat_le] at least
      omega
    obtain ⟨other, otherDrawn, raw⟩ := nextRaw_of_rank positive below less.le
      (count.symm ▸ nonempty) (fun top => less.ne top.2)
    rw [raw, (known u less).1.unique (count ▸ otherDrawn)]
  · rintro draws bound used rfl rfl shown draw early
    obtain ⟨u, less, same⟩ := shown draw early
    rw [(known u less).2, Option.some.injEq] at same
    have small := within u less
    omega

/-- The default skew of the class, over a hundred values. -/
theorem zipfian_ranks_hundred :
    ∃ u, 0 ≤ u ∧ u < 1 ∧ (zipfianParam 1 100 0.99).draw u = some 100 := by
  obtain ⟨_, _, _, every, _⟩ := @zipfian_ranks 1 100 0.99 (by decide) (by decide) (by decide)
    (by decide) (by norm_num) (by norm_num)
  exact every 100 (by decide) le_rfl

end Draws

end FdpRocks.Benchmark
