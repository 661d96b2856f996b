import FdpRocks.Scripts.ModeSeries

/-! # Resampled curves

* `resample_curve` — a curve stays among the values of its points and ends with
  the last one.
* `deviceCurve_eq` — the points of the device's curve, by the samples themselves.
* `rowsOf_curves` — the table has one row for each target.
-/

namespace FdpRocks.Scripts

open FdpRocks.Library FdpRocks.Library.PythonText

/-! ## Points in order -/

section Order

variable {points earlier : List (ℚ × ℚ)} {point last : ℚ × ℚ}

theorem orderedInsert_append (before : point.1 ≤ last.1) (knots : List (ℚ × ℚ)) :
    (knots ++ [last]).orderedInsert (fun point other => point.1 ≤ other.1) point
      = knots.orderedInsert (fun point other => point.1 ≤ other.1) point ++ [last] := by
  induction knots with
  | nil => exact List.orderedInsert_cons_of_le _ [] before
  | cons knot knots inductionHypothesis =>
    rw [List.cons_append, List.orderedInsert_cons, List.orderedInsert_cons, inductionHypothesis]
    split <;> rfl

/-- A stable sort leaves the last of the greatest where it is. -/
theorem stableOrder_append (greatest : ∀ other ∈ earlier, other.1 ≤ last.1) :
    stableOrder (earlier ++ [last]) = stableOrder earlier ++ [last] := by
  induction earlier with
  | nil => rfl
  | cons first earlier inductionHypothesis =>
    obtain ⟨here, rest⟩ := List.forall_mem_cons.mp greatest
    have tail := inductionHypothesis rest
    unfold stableOrder at tail ⊢
    rw [List.cons_append, List.insertionSort_cons, tail, orderedInsert_append here,
      List.insertionSort_cons]

/-- The last knot has the value of the last point. -/
theorem uniqueKnots_last (greatest : ∀ other ∈ earlier, other.1 ≤ last.1) :
    ∃ knot, (uniqueKnots (earlier ++ [last])).getLast? = some knot ∧ knot.1 ≤ last.1 ∧
      knot.2 = last.2 := by
  have clustered := uniqueKnots_clustered (earlier ++ [last])
  rw [stableOrder_append greatest] at clustered
  have member : last ∈ stableOrder earlier ++ [last] := by simp
  obtain ⟨knot, knotMember, inside⟩ := clustered.covered last member
  have someKnots := List.ne_nil_of_mem knotMember
  have final := List.getLast_mem someKnots
  have notAbove : ((uniqueKnots (earlier ++ [last])).getLast someKnots).1 ≤ last.1 := by
    obtain ⟨point, pointMember, same⟩ := clustered.origin _ final
    rw [← same]
    cases List.mem_append.mp pointMember with
    | inl old => exact greatest point ((stableOrder_perm earlier).mem_iff.mp old)
    | inr new => rw [List.mem_singleton.mp new]
  have notBelow : knot.1 ≤ ((uniqueKnots (earlier ++ [last])).getLast someKnots).1 :=
    List.Pairwise.rel_getLast_of_rel_getLast_getLast (clustered.strict.imp le_of_lt) knotMember le_rfl
  -- nothing is a tolerance beyond the cluster of the last point
  have isLast : (uniqueKnots (earlier ++ [last])).getLast someKnots = knot := by
    rcases clustered.largest knotMember final inside notAbove with same | before
    · exact same
    · have positive := tolerance_pos
      linarith
  have value := clustered.value knot knotMember
  rw [lastValue_append, if_pos inside] at value
  refine ⟨knot, ?_, inside.1, (Option.some.inj value).symm⟩
  rw [List.getLast?_eq_some_getLast someKnots, isLast]

end Order

/-! ## Curves -/

/-- What is known of a curve by its points. -/
structure Curve (points : List (ℚ × ℚ)) (curve : ℚ → ℚ) : Prop where
  bounded : ∀ lower upper : ℚ, (∀ point ∈ points, lower ≤ point.2 ∧ point.2 ≤ upper) →
    ∀ target, lower ≤ curve target ∧ curve target ≤ upper
  ends : ∀ earlier last, points = earlier ++ [last] → (∀ other ∈ earlier, other.1 ≤ last.1) →
    ∀ target, last.1 ≤ target → curve target = last.2

theorem resample_curve {npInterp : ℚ → ℚ → List (ℚ × ℚ) → ℚ → ℚ} (linear : PiecewiseLinear npInterp)
    {x y : List ℚ} (nonempty : x.zip y ≠ []) :
    ∃ curve : ℚ → ℚ, (∀ targets, resample npInterp x y targets = pure (targets.map curve)) ∧
      Curve (x.zip y) curve := by
  have someKnots := uniqueKnots_ne_nil nonempty
  have clustered := uniqueKnots_clustered (x.zip y)
  have ascending : Ascending (uniqueKnots (x.zip y)) := clustered.strict.imp le_of_lt
  have headMember := List.head_mem someKnots
  have lastMember := List.getLast_mem someKnots
  refine ⟨npInterp ((uniqueKnots (x.zip y)).head someKnots).2
    ((uniqueKnots (x.zip y)).getLast someKnots).2 (uniqueKnots (x.zip y)), ?_, ?_, ?_⟩
  · intro targets
    have values : interpolate npInterp (x.zip y) targets
        = some (targets.map (npInterp ((uniqueKnots (x.zip y)).head someKnots).2
          ((uniqueKnots (x.zip y)).getLast someKnots).2 (uniqueKnots (x.zip y)))) := by
      simp [interpolate, List.head?_eq_some_head someKnots, List.getLast?_eq_some_getLast someKnots]
    rw [resample, values]
  · intro lower upper bounds target
    -- bounds of the points are bounds of the knots
    have knotBounds : ∀ knot ∈ uniqueKnots (x.zip y), lower ≤ knot.2 ∧ knot.2 ≤ upper := by
      intro knot member
      obtain ⟨point, pointMember, same⟩ := clustered.value_mem member
      exact same ▸ bounds point ((stableOrder_perm _).mem_iff.1 pointMember)
    exact ⟨linear.ge_of_knots someKnots ascending (knotBounds _ headMember).1
        (knotBounds _ lastMember).1 (fun knot member => (knotBounds knot member).1) target,
      linear.le_of_knots someKnots ascending (knotBounds _ headMember).2
        (knotBounds _ lastMember).2 (fun knot member => (knotBounds knot member).2) target⟩
  · intro earlier last split greatest target beyond
    obtain ⟨knot, isLast, notAbove, value⟩ := uniqueKnots_last greatest
    rw [← split] at isLast
    have final : (uniqueKnots (x.zip y)).getLast someKnots = knot :=
      List.getLast_of_getLast?_eq_some isLast
    have below : ∀ other ∈ uniqueKnots (x.zip y), other.1 ≤ knot.1 := by
      intro other member
      rw [← final]
      exact ascending.rel_getLast_of_rel_getLast_getLast member le_rfl
    rw [final, ← value]
    rcases (notAbove.trans beyond).eq_or_lt with same | before
    · rw [← same]
      exact linear.at_knot clustered.strict (List.mem_of_getLast? isLast)
    · exact linear.after someKnots fun other member => (below other member).trans_lt before

/-- Values that a curve stays among, and ends with. -/
def Measured (values : List ℚ) (total : ℚ) (curve : ℚ → ℚ) : Prop :=
  (∀ lower upper : ℚ, (∀ value ∈ values, lower ≤ value ∧ value ≤ upper) →
    ∀ target, lower ≤ curve target ∧ curve target ≤ upper) ∧
  values.getLast? = some (curve total)

theorem Curve.measured {x y : List ℚ} {curve : ℚ → ℚ} {total : ℚ} (through : Curve (x.zip y) curve)
    (each : x.length = y.length) (nonempty : y ≠ []) (rising : x.Pairwise (· ≤ ·))
    (within : ∀ position ∈ x, position ≤ total) : Measured y total curve := by
  have positions : (x.zip y).map Prod.fst = x := List.map_fst_zip each.le
  have values : (x.zip y).map Prod.snd = y := List.map_snd_zip each.ge
  constructor
  · intro lower upper bounds
    refine through.bounded lower upper fun point member => bounds point.2 ?_
    rw [← values]
    exact List.mem_map_of_mem member
  · rcases List.eq_nil_or_concat (x.zip y) with none | ⟨earlier, last, split⟩
    · rw [none] at values
      exact absurd values.symm nonempty
    · rw [List.concat_eq_append] at split
      have ordered := rising
      rw [← positions, split, List.map_append, List.pairwise_append] at ordered
      have lastWithin : last.1 ≤ total := by
        apply within
        rw [← positions, split]
        simp
      have greatest : ∀ other ∈ earlier, other.1 ≤ last.1 := fun other member =>
        ordered.2.2 _ (List.mem_map_of_mem member) _ List.mem_cons_self
      rw [through.ends earlier last split greatest total lastWithin, ← values, split]
      simp

/-! ## The device -/

section Device

variable {npInterp : ℚ → ℚ → List (ℚ × ℚ) → ℚ → ℚ} {progress : List (ℚ × ℕ)} {last : ℚ × ℕ}

/-- With the first progress point there are keys. -/
theorem keysAt_pos_iff (linear : PiecewiseLinear npInterp) (progressing : Progressing progress last)
    {point : ℚ × ℕ} (isFirst : progress.head? = some point) (someKeys : 0 < point.2)
    (sample : DeviceSample) :
    keysAt npInterp progress last sample > 0 ↔ point.1 ≤ sample.timestamp := by
  constructor
  · exact progressing.started linear isFirst
  · intro started
    have firstMember := List.mem_of_head? isFirst
    have positive : ∀ knot ∈ exactKnots progress, 0 < knot.2 := by
      intro knot member
      obtain ⟨other, otherMember, rfl⟩ := List.mem_map.mp member
      obtain ⟨rest, rfl⟩ := List.head?_eq_some_iff.mp isFirst
      have least : point.2 ≤ other.2 := by
        rcases List.mem_cons.mp otherMember with rfl | later
        · exact le_rfl
        · exact (List.pairwise_cons.mp progressing.keysRise).1 other later
      exact Nat.cast_pos.mpr (someKeys.trans_le least)
    have knotMember : ((point.1 : ℚ), (point.2 : ℚ)) ∈ exactKnots progress :=
      List.mem_map_of_mem firstMember
    rcases started.eq_or_lt with same | before
    · obtain ⟨hit, hitMember, _, value⟩ := @linear.knot 0 (last.2 : ℚ) sample.timestamp _
        progressing.rising.ascending ⟨_, knotMember, same⟩
      rw [keysAt, value]
      exact positive hit hitMember
    · have atLeast : (point.2 : ℚ) ≤ keysAt npInterp progress last sample :=
        linear.knot_le progressing.rising knotMember before
      exact (positive _ knotMember).trans_le atLeast

/-- The samples that count: enough was written since the first one, and some of it
    by the benchmark. -/
def countedSamples (start : ℚ) (first : DeviceSample) (samples : List DeviceSample) :
    List DeviceSample :=
  samples.filter fun sample =>
    decide (first.hostWritten sample > 1024 * 1024) && decide (start ≤ sample.timestamp)

/-- The amplification of the device at one sample. -/
def DeviceSample.ratio (first sample : DeviceSample) : ℚ :=
  first.mediaWritten sample / first.hostWritten sample

theorem deviceCurve_eq (linear : PiecewiseLinear npInterp) (progressing : Progressing progress last)
    {point : ℚ × ℕ} (isFirst : progress.head? = some point) (someKeys : 0 < point.2)
    {samples : List DeviceSample} {first : DeviceSample} (isFirstSample : samples.head? = some first) :
    dlwaCurve npInterp progress samples
      = pure (0 :: (countedSamples point.1 first samples).map fun sample =>
          keysAt npInterp progress last sample / 1000000,
        1 :: (countedSamples point.1 first samples).map first.ratio) := by
  have counted : validSamples npInterp progress last first samples
      = countedSamples point.1 first samples := by
    apply List.filter_congr
    intro sample _
    simp only [keysAt_pos_iff linear progressing isFirst someKeys]
  have series := @dlwaSeries_eq npInterp _ progress samples first last progressing.isLast isFirstSample
    exact_unrounded
  have exact : ∀ value : DeviceSample → ℚ,
      (countedSamples point.1 first samples).mapM (fun sample => some (value sample))
        = some ((countedSamples point.1 first samples).map value) :=
    fun value => mapM_of_forall fun _ _ => rfl
  rw [counted, exact, exact] at series
  rw [dlwaCurve, series]
  rfl

/-- The points of the device's curve come from left to right, up to the last keys. -/
theorem deviceCurve_rising (linear : PiecewiseLinear npInterp) (progressing : Progressing progress last)
    {samples : List DeviceSample}
    (byTime : samples.Pairwise fun sample later => sample.timestamp ≤ later.timestamp)
    (start : ℚ) (first : DeviceSample) :
    (0 :: (countedSamples start first samples).map fun sample =>
        keysAt npInterp progress last sample / 1000000).Pairwise (· ≤ ·) ∧
    ∀ x ∈ 0 :: (countedSamples start first samples).map fun sample =>
      keysAt npInterp progress last sample / 1000000, x ≤ last.2 / 1000000 := by
  have nonneg : ∀ sample, 0 ≤ keysAt npInterp progress last sample := fun sample =>
    linear.ge_of_knots progressing.nonempty progressing.rising.ascending le_rfl
      progressing.rising.ends progressing.rising.above _
  constructor
  · refine List.pairwise_cons.mpr ⟨?_, ?_⟩
    · intro x member
      obtain ⟨sample, _, rfl⟩ := List.mem_map.mp member
      exact div_nonneg (nonneg sample) (by norm_num)
    · rw [List.pairwise_map]
      refine (byTime.filter _).imp fun ordered => ?_
      exact div_le_div_of_nonneg_right (progressing.keysAt_monotone linear ordered) (by norm_num)
  · intro x member
    rcases List.mem_cons.mp member with rfl | later
    · exact div_nonneg (Nat.cast_nonneg _) (by norm_num)
    · obtain ⟨sample, _, rfl⟩ := List.mem_map.mp later
      exact div_le_div_of_nonneg_right (progressing.keysAt_le linear sample) (by norm_num)

end Device

/-! ## Rows -/

theorem targetsOf_eq (total : ℕ) {step : ℕ} (positive : 0 < step) :
    targetsOf total step
      = pure ((List.range (total / step + 1)).map fun index : ℕ => (index * step : ℚ) / 1000000) := by
  have divisor : (0 : ℚ) < step := Nat.cast_pos.mpr positive
  have some : (step : ℤ) ≠ 0 := by exact_mod_cast positive.ne'
  have count : ⌈(((total : ℤ) + 1 : ℤ) : ℚ) / ((step : ℤ) : ℚ)⌉.toNat = total / step + 1 := by
    have low : (total / step * step : ℕ) ≤ total := Nat.div_mul_le_self total step
    have high : total + 1 ≤ (total / step + 1) * step := by
      rw [Nat.mul_comm]
      exact Nat.lt_mul_div_succ total positive
    have ceil : ⌈(((total : ℤ) + 1 : ℤ) : ℚ) / ((step : ℤ) : ℚ)⌉ = ((total / step + 1 : ℕ) : ℤ) := by
      generalize total / step = rows at low high ⊢
      rw [Int.ceil_eq_iff]
      push_cast
      rw [lt_div_iff₀ divisor, div_le_iff₀ divisor]
      constructor
      · have cast : (rows : ℚ) * step ≤ total := by exact_mod_cast low
        linarith
      · exact_mod_cast high
    rw [ceil, Int.toNat_natCast]
  rw [targetsOf, if_neg some, count]
  push_cast
  rfl

theorem rowsOf_curves (targets : List ℚ) (modelAlwa baselineAlwa modelDlwa baselineDlwa : ℚ → ℚ) :
    rowsOf targets (targets.map modelAlwa) (targets.map baselineAlwa) (targets.map modelDlwa)
        (targets.map baselineDlwa)
      = targets.map fun target => ⟨target, modelAlwa target, baselineAlwa target, modelDlwa target,
          baselineDlwa target⟩ := by
  induction targets with
  | nil => rfl
  | cons target targets inductionHypothesis => exact congrArg (_ :: ·) inductionHypothesis

/-- A column of the table stays among the measured values, and a column that goes
    up to the last key ends with the last of them. -/
structure Column (toEnd : Prop) (values column : List ℚ) : Prop where
  bounded : ∀ lower upper : ℚ, (∀ value ∈ values, lower ≤ value ∧ value ≤ upper) →
    ∀ cell ∈ column, lower ≤ cell ∧ cell ≤ upper
  last : toEnd → column.getLast? = values.getLast?

theorem Measured.column {values : List ℚ} {total step : ℕ} {curve : ℚ → ℚ}
    (measured : Measured values ((total : ℚ) / 1000000) curve) :
    Column (step ∣ total) values
      (((List.range (total / step + 1)).map fun index : ℕ => (index * step : ℚ) / 1000000).map curve) where
  bounded lower upper bounds cell member := by
    obtain ⟨target, _, rfl⟩ := List.mem_map.mp member
    exact measured.1 lower upper bounds target
  last divides := by
    have final : ((total / step : ℕ) : ℚ) * step = total := by
      exact_mod_cast Nat.div_mul_cancel divides
    rw [List.range_succ, List.map_append, List.map_append, measured.2]
    simp [final]

end FdpRocks.Scripts
