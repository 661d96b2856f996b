import FdpRocks.Library.Double
import FdpRocks.Scripts.Curves

/-! # Curves are well defined

The knots of a curve are the first points of clusters that are a tolerance
apart, each with the last value of its cluster.

* `Clustered` — the growing list of knots against the points so far.
* `uniqueKnots_clustered` — the knots of any points.
* `interpolate_wellDefined` — resampling through them.
* `dlwaSeries_wellDefined` — the curve of the device's write amplification.
-/

namespace FdpRocks.Scripts

open FdpRocks.Library FdpRocks.Library.PythonText

/-! ## Clusters -/

theorem tolerance_pos : 0 < tolerance := by norm_num [tolerance]

def InCluster (knot point : ℚ × ℚ) : Prop := knot.1 ≤ point.1 ∧ point.1 < knot.1 + tolerance

instance (knot point : ℚ × ℚ) : Decidable (InCluster knot point) :=
  inferInstanceAs (Decidable (_ ∧ _))

/-- The value of the last of the points around a knot. -/
def lastValue (points : List (ℚ × ℚ)) (knot : ℚ × ℚ) : Option ℚ :=
  ((points.filter fun point => InCluster knot point).getLast?).map Prod.snd

structure Clustered (points knots : List (ℚ × ℚ)) : Prop where
  gaps : knots.Pairwise fun knot later => knot.1 + tolerance ≤ later.1
  origin : ∀ knot ∈ knots, ∃ point ∈ points, point.1 = knot.1
  covered : ∀ point ∈ points, ∃ knot ∈ knots, InCluster knot point
  value : ∀ knot ∈ knots, lastValue points knot = some knot.2

theorem lastValue_append {points : List (ℚ × ℚ)} {knot point : ℚ × ℚ} :
    lastValue (points ++ [point]) knot =
      if InCluster knot point then some point.2 else lastValue points knot := by
  by_cases inside : InCluster knot point <;> simp [lastValue, inside]

namespace Clustered

variable {points knots : List (ℚ × ℚ)} {point : ℚ × ℚ}

theorem empty : Clustered [] [] where
  gaps := .nil
  origin := by simp
  covered := by simp
  value := by simp

/-- A point beyond all clusters starts one of its own. -/
theorem append (clustered : Clustered points knots)
    (beyond : ∀ knot ∈ knots, knot.1 + tolerance ≤ point.1) :
    Clustered (points ++ [point]) (knots ++ [point]) where
  gaps := List.pairwise_append.2 ⟨clustered.gaps, List.pairwise_singleton _ _, by simpa using beyond⟩
  origin knot member := by
    rcases List.mem_append.1 member with old | new
    · obtain ⟨first, firstMember, same⟩ := clustered.origin knot old
      exact ⟨first, List.mem_append_left _ firstMember, same⟩
    · obtain rfl := List.mem_singleton.1 new
      exact ⟨knot, by simp, rfl⟩
  covered other member := by
    rcases List.mem_append.1 member with old | new
    · obtain ⟨knot, knotMember, inside⟩ := clustered.covered other old
      exact ⟨knot, List.mem_append_left _ knotMember, inside⟩
    · obtain rfl := List.mem_singleton.1 new
      exact ⟨other, by simp, le_rfl, lt_add_of_pos_right _ tolerance_pos⟩
  value knot member := by
    rw [lastValue_append]
    rcases List.mem_append.1 member with old | new
    · rw [if_neg fun inside : InCluster knot point => inside.2.not_ge (beyond knot old)]
      exact clustered.value knot old
    · obtain rfl := List.mem_singleton.1 new
      exact if_pos ⟨le_rfl, lt_add_of_pos_right _ tolerance_pos⟩

/-- A point of the last cluster gives it its value. -/
theorem overwrite {last : ℚ × ℚ} (clustered : Clustered points (knots ++ [last]))
    (inside : InCluster last point) :
    Clustered (points ++ [point]) (knots ++ [(last.1, point.2)]) := by
  obtain ⟨gapsBefore, _, gapsLast⟩ := List.pairwise_append.1 clustered.gaps
  have lastGap : ∀ knot ∈ knots, knot.1 + tolerance ≤ last.1 := by simpa using gapsLast
  -- the last knot keeps its position, so only its value has to be looked at
  exact {
    gaps := List.pairwise_append.2 ⟨gapsBefore, List.pairwise_singleton _ _, by simpa using lastGap⟩
    origin := fun knot member => by
      have ⟨first, firstMember, same⟩ : ∃ first ∈ points, first.1 = knot.1 := by
        rcases List.mem_append.1 member with old | new
        · exact clustered.origin knot (List.mem_append_left _ old)
        · obtain rfl := List.mem_singleton.1 new
          exact clustered.origin last (by simp)
      exact ⟨first, List.mem_append_left _ firstMember, same⟩
    covered := fun other member => by
      rcases List.mem_append.1 member with old | new
      · obtain ⟨knot, knotMember, insideKnot⟩ := clustered.covered other old
        rcases List.mem_append.1 knotMember with before | isLast
        · exact ⟨knot, List.mem_append_left _ before, insideKnot⟩
        · obtain rfl := List.mem_singleton.1 isLast
          exact ⟨_, List.mem_append_right _ List.mem_cons_self, insideKnot⟩
      · obtain rfl := List.mem_singleton.1 new
        exact ⟨_, List.mem_append_right _ List.mem_cons_self, inside⟩
    value := fun knot member => by
      rw [lastValue_append]
      rcases List.mem_append.1 member with old | new
      · have before := (lastGap knot old).trans inside.1
        rw [if_neg fun insideKnot : InCluster knot point => insideKnot.2.not_ge before]
        exact clustered.value knot (List.mem_append_left _ old)
      · obtain rfl := List.mem_singleton.1 new
        exact if_pos inside }

theorem addPoint (clustered : Clustered points knots)
    (greatest : ∀ other ∈ points, other.1 ≤ point.1) :
    Clustered (points ++ [point]) (addPoint knots point) := by
  rcases List.eq_nil_or_concat knots with rfl | ⟨before, last, rfl⟩
  · exact clustered.append (by simp)
  · rw [List.concat_eq_append] at clustered ⊢
    have lastBefore : last.1 ≤ point.1 := by
      obtain ⟨first, member, same⟩ := clustered.origin last (by simp)
      exact same ▸ greatest first member
    simp only [Scripts.addPoint, List.getLast?_append, List.getLast?_singleton, Option.some_or,
      List.dropLast_concat]
    by_cases near : |point.1 - last.1| < tolerance
    case pos =>
      rw [if_pos near]
      rw [abs_of_nonneg (sub_nonneg.2 lastBefore)] at near
      exact clustered.overwrite ⟨lastBefore, sub_lt_iff_lt_add'.1 near⟩
    case neg =>
      rw [if_neg near]
      rw [abs_of_nonneg (sub_nonneg.2 lastBefore), not_lt] at near
      refine clustered.append fun knot member => ?_
      -- all knots lie at the last one or a tolerance below it
      obtain ⟨_, _, gapsLast⟩ := List.pairwise_append.1 clustered.gaps
      rcases List.mem_append.1 member with old | isLast
      · have gap := gapsLast knot old last List.mem_cons_self
        have positive := tolerance_pos
        linarith
      · obtain rfl := List.mem_singleton.1 isLast
        linarith

/-- A knot below a point of a cluster is no larger than the knot of the cluster. -/
theorem largest (clustered : Clustered points knots) {knot other : ℚ × ℚ} (member : knot ∈ knots)
    (otherMember : other ∈ knots) (inside : InCluster knot point) (below : other.1 ≤ point.1) :
    other = knot ∨ other.1 + tolerance ≤ knot.1 := by
  rcases pairwise_trichotomy clustered.gaps otherMember member with same | before | after
  · exact .inl same
  · exact .inr before
  · exact absurd inside.2 (after.trans below).not_gt

/-- Exactly one cluster holds a point, that of the largest knot not above it. -/
theorem unique (clustered : Clustered points knots) (member : point ∈ points) :
    ∃ knot ∈ knots, InCluster knot point ∧ (∀ other ∈ knots, InCluster other point → other = knot) ∧
      ∀ other ∈ knots, other.1 ≤ point.1 → other.1 ≤ knot.1 := by
  obtain ⟨knot, knotMember, inside⟩ := clustered.covered point member
  refine ⟨knot, knotMember, inside, fun other otherMember otherInside => ?_,
    fun other otherMember below => ?_⟩
  · rcases clustered.largest knotMember otherMember inside otherInside.1 with same | before
    · exact same
    · exact absurd otherInside.2 (before.trans inside.1).not_gt
  · rcases clustered.largest knotMember otherMember inside below with rfl | before
    · exact le_rfl
    · exact (le_add_of_nonneg_right tolerance_pos.le).trans before

theorem strict (clustered : Clustered points knots) :
    knots.Pairwise fun knot later => knot.1 < later.1 :=
  clustered.gaps.imp fun gap => (lt_add_of_pos_right _ tolerance_pos).trans_le gap

/-- Values of knots are values of points. -/
theorem value_mem (clustered : Clustered points knots) {knot : ℚ × ℚ} (member : knot ∈ knots) :
    ∃ point ∈ points, point.2 = knot.2 := by
  obtain ⟨point, isLast, same⟩ := Option.map_eq_some_iff.1 (clustered.value knot member)
  exact ⟨point, List.mem_of_mem_filter (List.mem_of_getLast? isLast), same⟩

end Clustered

/-! ## The knots of a curve -/

instance knotTotal : Std.Total fun point other : ℚ × ℚ => point.1 ≤ other.1 :=
  ⟨fun point other => le_total point.1 other.1⟩

instance knotTrans : IsTrans (ℚ × ℚ) fun point other => point.1 ≤ other.1 :=
  ⟨fun _ _ _ => le_trans⟩

theorem stableOrder_perm (points : List (ℚ × ℚ)) : (stableOrder points).Perm points :=
  List.perm_insertionSort _ _

theorem stableOrder_ascending (points : List (ℚ × ℚ)) : Ascending (stableOrder points) :=
  List.pairwise_insertionSort _ _

/-- Points that are not out of order keep their order. -/
theorem stableOrder_stable {points : List (ℚ × ℚ)} {point other : ℚ × ℚ}
    (inOrder : [point, other].Sublist points) (ordered : point.1 ≤ other.1) :
    [point, other].Sublist (stableOrder points) :=
  List.pair_sublist_insertionSort ordered inOrder

theorem foldl_clustered {points : List (ℚ × ℚ)} (ascending : Ascending points) :
    Clustered points (points.foldl addPoint []) := by
  induction points using List.reverseRecOn with
  | nil => exact Clustered.empty
  | append_singleton points point inductionHypothesis =>
    obtain ⟨before, _, greatest⟩ := List.pairwise_append.1 ascending
    rw [List.foldl_append]
    exact (inductionHypothesis before).addPoint fun other member => greatest other member point List.mem_cons_self

theorem uniqueKnots_clustered (points : List (ℚ × ℚ)) :
    Clustered (stableOrder points) (uniqueKnots points) :=
  foldl_clustered (stableOrder_ascending points)

/-- Distinct points have one order only. -/
theorem stableOrder_eq_of_perm {points permuted : List (ℚ × ℚ)} (permutes : permuted.Perm points)
    (distinct : (points.map Prod.fst).Nodup) : stableOrder permuted = stableOrder points := by
  have sameMembers : (stableOrder permuted).Perm (stableOrder points) :=
    (stableOrder_perm permuted).trans (permutes.trans (stableOrder_perm points).symm)
  refine @List.Perm.eq_of_pairwise _ (fun point other : ℚ × ℚ => point.1 ≤ other.1) _ _ ?_
    (stableOrder_ascending permuted) (stableOrder_ascending points) sameMembers
  -- equal positions belong to one point
  intro point other member otherMember below above
  have inPoints := ((stableOrder_perm permuted).trans permutes).mem_iff.1 member
  have otherInPoints := (stableOrder_perm points).mem_iff.1 otherMember
  exact List.inj_on_of_nodup_map distinct inPoints otherInPoints (le_antisymm below above)

theorem uniqueKnots_ne_nil {points : List (ℚ × ℚ)} (nonempty : points ≠ []) :
    uniqueKnots points ≠ [] := by
  obtain ⟨point, member⟩ := List.exists_mem_of_ne_nil points nonempty
  obtain ⟨knot, knotMember, _⟩ := (uniqueKnots_clustered points).covered point
    ((stableOrder_perm points).mem_iff.2 member)
  exact List.ne_nil_of_mem knotMember

/-! ## Resampling -/

section Resampling

variable {npInterp : ℚ → ℚ → List (ℚ × ℚ) → ℚ → ℚ}

/-- There are a first and a last knot. -/
theorem interpolate_eq {points : List (ℚ × ℚ)} (nonempty : points ≠ []) :
    ∃ first ∈ uniqueKnots points, ∃ last ∈ uniqueKnots points, ∀ targets : List ℚ,
      interpolate npInterp points targets =
        some (targets.map (npInterp first.2 last.2 (uniqueKnots points))) := by
  have someKnots := uniqueKnots_ne_nil nonempty
  refine ⟨_, List.head_mem someKnots, _, List.getLast_mem someKnots, fun targets => ?_⟩
  simp [interpolate, List.head?_eq_some_head someKnots, List.getLast?_eq_some_getLast someKnots]

/-- The curve of any points can be resampled: its knots are a tolerance apart and
    stand for all points, the values stay among those of the points, knots are
    hit, and the order of distinct points is of no account. -/
theorem interpolate_wellDefined (linear : PiecewiseLinear npInterp) {points : List (ℚ × ℚ)}
    (nonempty : points ≠ []) :
    ((uniqueKnots points).Pairwise fun knot later =>
      knot.1 < later.1 ∧ knot.1 + tolerance ≤ later.1) ∧
    (∀ point ∈ points, ∃ knot ∈ uniqueKnots points, InCluster knot point ∧
      (∀ other ∈ uniqueKnots points, InCluster other point → other = knot) ∧
      ∀ other ∈ uniqueKnots points, other.1 ≤ point.1 → other.1 ≤ knot.1) ∧
    (∀ knot ∈ uniqueKnots points, lastValue (stableOrder points) knot = some knot.2) ∧
    (∃ curve : ℚ → ℚ,
      (∀ targets : List ℚ, interpolate npInterp points targets = some (targets.map curve)) ∧
      (∀ lower upper : ℚ, (∀ point ∈ points, lower ≤ point.2 ∧ point.2 ≤ upper) →
        ∀ target : ℚ, lower ≤ curve target ∧ curve target ≤ upper) ∧
      ∀ knot ∈ uniqueKnots points, curve knot.1 = knot.2) ∧
    ∀ permuted : List (ℚ × ℚ), permuted.Perm points → (points.map Prod.fst).Nodup →
      ∀ targets : List ℚ,
        interpolate npInterp permuted targets = interpolate npInterp points targets := by
  have clustered := uniqueKnots_clustered points
  have someKnots := uniqueKnots_ne_nil nonempty
  have ascending : Ascending (uniqueKnots points) := clustered.strict.imp le_of_lt
  refine ⟨clustered.strict.and clustered.gaps,
    fun point member => clustered.unique ((stableOrder_perm points).mem_iff.2 member),
    clustered.value, ?_, fun permuted permutes distinct targets => ?_⟩
  · obtain ⟨first, firstMember, last, lastMember, result⟩ :=
      @interpolate_eq npInterp points nonempty
    refine ⟨_, result, fun lower upper bounds target => ?_,
      fun knot member => linear.at_knot clustered.strict member⟩
    -- bounds of the points are bounds of the knots
    have knotBounds : ∀ knot ∈ uniqueKnots points, lower ≤ knot.2 ∧ knot.2 ≤ upper := by
      intro knot member
      obtain ⟨point, pointMember, same⟩ := clustered.value_mem member
      exact same ▸ bounds point ((stableOrder_perm points).mem_iff.1 pointMember)
    exact ⟨linear.ge_of_knots someKnots ascending (knotBounds first firstMember).1
        (knotBounds last lastMember).1 (fun knot member => (knotBounds knot member).1) target,
      linear.le_of_knots someKnots ascending (knotBounds first firstMember).2
        (knotBounds last lastMember).2 (fun knot member => (knotBounds knot member).2) target⟩
  · rw [interpolate, interpolate, uniqueKnots, uniqueKnots, stableOrder_eq_of_perm permutes distinct]

/-- Two points that close make one knot, with the value of the later one. -/
theorem interpolate_wellDefined_close :
    uniqueKnots [(2, 5), (1, 3), (1 + 1 / 2000000000, 4)] = [(1, 4), (2, 5)] ∧
    ∃ curve : ℚ → ℚ,
      (∀ targets : List ℚ, interpolate interp [(2, 5), (1, 3), (1 + 1 / 2000000000, 4)] targets =
        some (targets.map curve)) ∧
      (∀ lower upper : ℚ, (∀ point ∈ [((2 : ℚ), (5 : ℚ)), (1, 3), (1 + 1 / 2000000000, 4)],
          lower ≤ point.2 ∧ point.2 ≤ upper) →
        ∀ target : ℚ, lower ≤ curve target ∧ curve target ≤ upper) ∧
      ∀ knot ∈ uniqueKnots [(2, 5), (1, 3), (1 + 1 / 2000000000, 4)], curve knot.1 = knot.2 :=
  ⟨by decide +kernel,
    (interpolate_wellDefined interp_piecewiseLinear (List.cons_ne_nil _ _)).2.2.2.1⟩

end Resampling

/-! ## The device's write amplification -/

section Series

/-! ### Exact counters -/

namespace DeviceSample

/-- What the host has written since the first sample. -/
def hostWritten (first sample : DeviceSample) : ℚ := sample.hbmw - first.hbmw

/-- What the medium has written since the first sample. -/
def mediaWritten (first sample : DeviceSample) : ℚ := sample.mbmw - first.mbmw

end DeviceSample

def exactKnots (progress : List (ℚ × ℕ)) : List (ℚ × ℚ) :=
  progress.map fun point => (point.1, (point.2 : ℚ))

/-- The number of keys at the time of a sample. -/
def keysAt (npInterp : ℚ → ℚ → List (ℚ × ℚ) → ℚ → ℚ) (progress : List (ℚ × ℕ)) (last : ℚ × ℕ)
    (sample : DeviceSample) : ℚ :=
  npInterp 0 last.2 (exactKnots progress) sample.timestamp

/-- The samples behind the mask. -/
def validSamples (npInterp : ℚ → ℚ → List (ℚ × ℚ) → ℚ → ℚ) (progress : List (ℚ × ℕ)) (last : ℚ × ℕ)
    (first : DeviceSample) (samples : List DeviceSample) : List DeviceSample :=
  samples.filter fun sample =>
    decide (first.hostWritten sample > 1024 * 1024) && decide (keysAt npInterp progress last sample > 0)

/-- The arithmetic has every key count, counter and difference as it is. -/
structure Unrounded (rounding : ℚ → Option ℚ) (progress : List (ℚ × ℕ)) (first : DeviceSample)
    (samples : List DeviceSample) : Prop where
  keys : ∀ point ∈ progress, rounding point.2 = some (point.2 : ℚ)
  host : ∀ sample ∈ samples,
    counterDelta rounding first.hbmw sample.hbmw = some (first.hostWritten sample)
  media : ∀ sample ∈ samples,
    counterDelta rounding first.mbmw sample.mbmw = some (first.mediaWritten sample)

/-- Key counts and counters from zero to the last integer up to which doubles have all. -/
structure Countable (progress : List (ℚ × ℕ)) (samples : List DeviceSample) : Prop where
  keys : ∀ point ∈ progress, point.2 ≤ 2 ^ 53
  host : ∀ sample ∈ samples, 0 ≤ sample.hbmw ∧ sample.hbmw ≤ 2 ^ 53
  media : ∀ sample ∈ samples, 0 ≤ sample.mbmw ∧ sample.mbmw ≤ 2 ^ 53

variable {npInterp : ℚ → ℚ → List (ℚ × ℚ) → ℚ → ℚ} {rounding : ℚ → Option ℚ} {progress : List (ℚ × ℕ)}
  {samples : List DeviceSample} {first : DeviceSample}

theorem exact_unrounded : Unrounded some progress first samples :=
  ⟨fun _ _ => rfl, fun _ _ => rfl, fun _ _ => rfl⟩

theorem nearest_intCast {count : ℤ} (small : |count| ≤ 2 ^ 53) :
    Double.nearest count = some (count : ℚ) :=
  Double.nearest_eq_some.mpr (Double.round_intCast small)

theorem counterDelta_nearest {start counter : ℤ} (startFits : 0 ≤ start ∧ start ≤ 2 ^ 53)
    (fits : 0 ≤ counter ∧ counter ≤ 2 ^ 53) :
    counterDelta Double.nearest start counter = some ((counter : ℚ) - start) := by
  have difference := @nearest_intCast (counter - start) (abs_le.mpr ⟨by omega, by omega⟩)
  rw [Int.cast_sub] at difference
  rw [counterDelta, nearest_intCast (abs_le.mpr ⟨by omega, by omega⟩),
    nearest_intCast (abs_le.mpr ⟨by omega, by omega⟩)]
  exact difference

theorem Countable.unrounded (countable : Countable progress samples) (member : first ∈ samples) :
    Unrounded Double.nearest progress first samples where
  keys point listed := by
    have fits := countable.keys point listed
    exact @nearest_intCast point.2 (abs_le.mpr ⟨by omega, by omega⟩)
  host sample listed := counterDelta_nearest (countable.host first member) (countable.host sample listed)
  media sample listed := counterDelta_nearest (countable.media first member) (countable.media sample listed)

/-! ### The series -/

/-- A progress list as `progress_points` gives it: sorted by time, with key
    counts that do not go back. -/
structure Progressing (progress : List (ℚ × ℕ)) (last : ℚ × ℕ) : Prop where
  isLast : progress.getLast? = some last
  byTime : progress.Pairwise fun point later => point.1 ≤ later.1
  keysRise : progress.Pairwise fun point later => point.2 ≤ later.2

namespace Progressing

variable {last : ℚ × ℕ}

theorem nonempty (progressing : Progressing progress last) : exactKnots progress ≠ [] := by
  have member := List.mem_of_getLast? progressing.isLast
  simpa [exactKnots] using List.ne_nil_of_mem member

theorem rising (progressing : Progressing progress last) :
    PiecewiseLinear.Rising 0 (last.2 : ℚ) (exactKnots progress) where
  ascending := List.pairwise_map.2 progressing.byTime
  values := List.pairwise_map.2 (progressing.keysRise.imp fun rises => Nat.cast_le.2 rises)
  above := by
    intro knot member
    obtain ⟨point, _, rfl⟩ := List.mem_map.1 member
    exact Nat.cast_nonneg _
  below := by
    intro knot member
    obtain ⟨point, pointMember, rfl⟩ := List.mem_map.1 member
    have atMost := progressing.keysRise.rel_getLast_of_rel_getLast_getLast pointMember le_rfl
    rw [List.getLast_of_getLast?_eq_some progressing.isLast] at atMost
    exact Nat.cast_le.2 atMost
  ends := Nat.cast_nonneg _

variable (linear : PiecewiseLinear npInterp) (progressing : Progressing progress last)

include linear progressing

theorem keysAt_monotone {sample later : DeviceSample} (ordered : sample.timestamp ≤ later.timestamp) :
    keysAt npInterp progress last sample ≤ keysAt npInterp progress last later :=
  linear.monotone progressing.nonempty progressing.rising ordered

theorem keysAt_le (sample : DeviceSample) : keysAt npInterp progress last sample ≤ last.2 :=
  linear.le_of_knots progressing.nonempty progressing.rising.ascending progressing.rising.ends le_rfl
    progressing.rising.below _

/-- Before the first progress point there are no keys. -/
theorem started {sample : DeviceSample} {point : ℚ × ℕ} (isFirst : progress.head? = some point)
    (someKeys : keysAt npInterp progress last sample > 0) : point.1 ≤ sample.timestamp := by
  by_contra early
  have before : ∀ knot ∈ exactKnots progress, sample.timestamp < knot.1 := by
    obtain ⟨rest, rfl⟩ := List.head?_eq_some_iff.1 isFirst
    intro knot member
    exact (not_le.1 early).trans_le (Ascending.head_le progressing.rising.ascending member)
  have none : keysAt npInterp progress last sample = 0 := linear.before progressing.nonempty before
  exact someKeys.ne' none

end Progressing

theorem mem_validSamples {last : ℚ × ℕ} {sample : DeviceSample} :
    sample ∈ validSamples npInterp progress last first samples ↔
      sample ∈ samples ∧ first.hostWritten sample > 1024 * 1024 ∧
        keysAt npInterp progress last sample > 0 := by
  simp [validSamples]

theorem hostWritten_pos {last : ℚ × ℕ} {sample : DeviceSample}
    (member : sample ∈ validSamples npInterp progress last first samples) :
    0 < first.hostWritten sample := by
  have large := (mem_validSamples.1 member).2.1
  linarith

/-- Where the counters are exact, only the values of the series are rounded. -/
theorem dlwaSeries_eq {last : ℚ × ℕ} (isLast : progress.getLast? = some last)
    (isFirst : samples.head? = some first) (unrounded : Unrounded rounding progress first samples) :
    dlwaSeries npInterp rounding progress samples = (do
      let x ← (validSamples npInterp progress last first samples).mapM fun sample =>
        rounding (keysAt npInterp progress last sample / 1000000)
      let y ← (validSamples npInterp progress last first samples).mapM fun sample =>
        rounding (first.mediaWritten sample / first.hostWritten sample)
      return (0 :: x, 1 :: y)) := by
  have knots : progressKnots rounding progress = some (exactKnots progress) :=
    mapM_of_forall fun point member => by rw [unrounded.keys point member]; rfl
  have lastKnot : (exactKnots progress).getLast? = some (last.1, (last.2 : ℚ)) := by
    rw [exactKnots, List.getLast?_map, isLast]
    rfl
  have points : samples.mapM (devicePoint npInterp rounding (exactKnots progress) last.2 first)
      = some (samples.map fun sample => ⟨keysAt npInterp progress last sample, first.hostWritten sample,
        first.mediaWritten sample⟩) := by
    apply mapM_of_forall
    intro sample member
    rw [devicePoint, unrounded.host sample member, unrounded.media sample member]
    rfl
  have valid : (samples.map fun sample => (⟨keysAt npInterp progress last sample,
      first.hostWritten sample, first.mediaWritten sample⟩ : DevicePoint)).filter DevicePoint.valid
      = (validSamples npInterp progress last first samples).map fun sample =>
        ⟨keysAt npInterp progress last sample, first.hostWritten sample, first.mediaWritten sample⟩ :=
    List.filter_map
  -- what is picked has written something, so no division is by zero
  have ratios : ∀ sample ∈ validSamples npInterp progress last first samples,
      divide rounding (first.mediaWritten sample) (first.hostWritten sample)
        = rounding (first.mediaWritten sample / first.hostWritten sample) :=
    fun sample member => if_neg (hostWritten_pos member).ne'
  unfold dlwaSeries
  simp only [knots, lastKnot, isFirst, points, valid, Option.bind_eq_bind, Option.bind_some, List.mapM_map]
  congr 1
  funext x
  congr 1
  have same := mapM_congr ratios
  rw [← same]
  rfl

/-- A number of the series is at most so far out that there is a double. -/
theorem Countable.nearest_keys {last : ℚ × ℕ} (linear : PiecewiseLinear npInterp)
    (progressing : Progressing progress last) (countable : Countable progress samples)
    {sample : DeviceSample} (valid : sample ∈ validSamples npInterp progress last first samples) :
    ∃ x, Double.nearest (keysAt npInterp progress last sample / 1000000) = some x := by
  have someKeys := (mem_validSamples.1 valid).2.2
  have atMost := progressing.keysAt_le linear sample
  have fits : (last.2 : ℚ) ≤ 2 ^ 53 := by
    exact_mod_cast countable.keys last (List.mem_of_getLast? progressing.isLast)
  apply Double.exists_nearest
  rw [abs_of_nonneg (div_nonneg someKeys.le (by norm_num))]
  calc keysAt npInterp progress last sample / 1000000
    _ ≤ keysAt npInterp progress last sample := div_le_self someKeys.le (by norm_num)
    _ ≤ 2 ^ 53 := atMost.trans fits
    _ ≤ 2 ^ 1023 := pow_le_pow_right₀ (by norm_num) (by norm_num)

theorem Countable.nearest_ratio {last : ℚ × ℕ} (countable : Countable progress samples)
    (member : first ∈ samples) {sample : DeviceSample}
    (valid : sample ∈ validSamples npInterp progress last first samples) :
    ∃ y, Double.nearest (first.mediaWritten sample / first.hostWritten sample) = some y := by
  obtain ⟨inSamples, large, _⟩ := mem_validSamples.1 valid
  have media : |first.mediaWritten sample| ≤ 2 ^ 53 := by
    have start := countable.media first member
    have here := countable.media sample inSamples
    rw [DeviceSample.mediaWritten, ← Int.cast_sub, ← Int.cast_abs]
    have whole : |sample.mbmw - first.mbmw| ≤ 2 ^ 53 := abs_le.mpr ⟨by omega, by omega⟩
    exact_mod_cast whole
  have host : 1 ≤ |first.hostWritten sample| := by
    rw [abs_of_pos (hostWritten_pos valid)]
    linarith
  apply Double.exists_nearest
  rw [abs_div]
  calc |first.mediaWritten sample| / |first.hostWritten sample|
    _ ≤ |first.mediaWritten sample| := div_le_self (abs_nonneg _) host
    _ ≤ 2 ^ 53 := media
    _ ≤ 2 ^ 1023 := pow_le_pow_right₀ (by norm_num) (by norm_num)

/-- No device sample, no time and no pair of equal times of progress spoils the
    series: it starts at (0, 1), goes to the right up to the last progress point
    and has a quotient above for samples that wrote enough since progress began. -/
theorem dlwaSeries_wellDefined (linear : PiecewiseLinear npInterp) (someProgress : progress ≠ [])
    (byTime : progress.Pairwise fun point later => point.1 ≤ later.1)
    (keysRise : progress.Pairwise fun point later => point.2 ≤ later.2)
    (samplesByTime : samples.Pairwise fun sample later => sample.timestamp ≤ later.timestamp)
    (twoSamples : 2 ≤ samples.length) (countable : Countable progress samples) :
    ∃ first ∈ samples.head?, ∃ xs ys : List ℚ,
      dlwaSeries npInterp Double.nearest progress samples = some (0 :: xs, 1 :: ys) ∧
      xs.length = ys.length ∧
      (0 :: xs).Pairwise (· ≤ ·) ∧
      (∃ bound, Double.nearest ((progress.getLast someProgress).2 / 1000000) = some bound ∧
        ∀ x ∈ 0 :: xs, x ≤ bound) ∧
      (∃ picked : List DeviceSample, picked.Sublist samples ∧
        List.Forall₂ (fun y sample =>
          Double.nearest (first.mediaWritten sample / first.hostWritten sample) = some y) ys picked ∧
        ∀ sample ∈ picked, first.hostWritten sample > 2 ^ 20 ∧
          (progress.head someProgress).1 ≤ sample.timestamp) ∧
      ((∀ sample ∈ samples, first.mediaWritten sample ≥ first.hostWritten sample ∧
          first.hostWritten sample ≥ 0) → ∀ y ∈ 1 :: ys, 1 ≤ y) := by
  have someSamples : samples ≠ [] := List.ne_nil_of_length_pos (by omega)
  have isLast := List.getLast?_eq_some_getLast someProgress
  have isFirst := List.head?_eq_some_head someSamples
  have member := List.head_mem someSamples
  have progressing : Progressing progress (progress.getLast someProgress) :=
    ⟨isLast, byTime, keysRise⟩
  have picked : (validSamples npInterp progress (progress.getLast someProgress)
      (samples.head someSamples) samples).Sublist samples := List.filter_sublist
  -- both lists run over the samples that were picked, and round what is exact
  choose! x roundsX using fun sample => @Countable.nearest_keys npInterp progress samples
    (samples.head someSamples) _ linear progressing countable sample
  choose! y roundsY using fun sample => @Countable.nearest_ratio npInterp progress samples
    (samples.head someSamples) (progress.getLast someProgress) countable member sample
  have xs := @mapM_of_forall _ _ Option _ _ _ x _ roundsX
  have ys := @mapM_of_forall _ _ Option _ _ _ y _ roundsY
  have series := @dlwaSeries_eq npInterp _ _ _ _ _ isLast isFirst (countable.unrounded member)
  rw [xs, ys] at series
  obtain ⟨bound, isBound⟩ := @Double.exists_nearest ((progress.getLast someProgress).2 / 1000000) (by
    have fits : ((progress.getLast someProgress).2 : ℚ) ≤ 2 ^ 53 := by
      exact_mod_cast countable.keys _ (List.getLast_mem someProgress)
    rw [abs_of_nonneg (by positivity)]
    calc ((progress.getLast someProgress).2 : ℚ) / 1000000
      _ ≤ (progress.getLast someProgress).2 := div_le_self (by positivity) (by norm_num)
      _ ≤ 2 ^ 53 := fits
      _ ≤ 2 ^ 1023 := pow_le_pow_right₀ (by norm_num) (by norm_num))
  have nonneg : ∀ sample ∈ validSamples npInterp progress (progress.getLast someProgress)
      (samples.head someSamples) samples,
      0 ≤ keysAt npInterp progress (progress.getLast someProgress) sample / 1000000 :=
    fun sample valid => div_nonneg (mem_validSamples.1 valid).2.2.le (by norm_num)
  refine ⟨samples.head someSamples, isFirst, _, _, series, by simp, ?_, ⟨bound, isBound, ?_⟩,
    ⟨_, picked, ?_, fun sample member => ?_⟩, fun amplifies value member => ?_⟩
  · refine List.pairwise_cons.2 ⟨fun value listed => ?_, List.pairwise_map.2 ?_⟩
    · obtain ⟨sample, valid, rfl⟩ := List.mem_map.1 listed
      exact Double.round_nonneg (nonneg sample valid) (Double.nearest_eq_some.mp (roundsX sample valid))
    · refine (samplesByTime.sublist picked).imp_of_mem fun {sample later} valid laterValid ordered => ?_
      exact Double.round_mono (nonneg sample valid)
        (div_le_div_of_nonneg_right (progressing.keysAt_monotone linear ordered) (by norm_num))
        (Double.nearest_eq_some.mp (roundsX sample valid))
        (Double.nearest_eq_some.mp (roundsX later laterValid))
  · refine List.forall_mem_cons.2 ⟨?_, fun value listed => ?_⟩
    · exact Double.round_nonneg (by positivity) (Double.nearest_eq_some.mp isBound)
    · obtain ⟨sample, valid, rfl⟩ := List.mem_map.1 listed
      exact Double.round_mono (nonneg sample valid)
        (div_le_div_of_nonneg_right (progressing.keysAt_le linear sample) (by norm_num))
        (Double.nearest_eq_some.mp (roundsX sample valid)) (Double.nearest_eq_some.mp isBound)
  · rw [List.forall₂_map_left_iff, List.forall₂_same]
    exact roundsY
  · obtain ⟨_, large, someKeys⟩ := mem_validSamples.1 member
    exact ⟨by norm_num; linarith,
      progressing.started linear (List.head?_eq_some_head someProgress) someKeys⟩
  · rcases List.mem_cons.1 member with rfl | inSeries
    · exact le_rfl
    · obtain ⟨sample, valid, rfl⟩ := List.mem_map.1 inSeries
      have more := (amplifies sample (mem_validSamples.1 valid).1).1
      have one := @Double.round_intCast 1 (by norm_num)
      rw [Int.cast_one] at one
      exact Double.round_mono zero_le_one ((one_le_div (hostWritten_pos valid)).2 more) one
        (Double.nearest_eq_some.mp (roundsY sample valid))

/-- Two points of progress at one time, and a sample between the later one and
    the next point. -/
theorem dlwaSeries_wellDefined_jump :
    dlwaSeries interp Double.nearest [(10, 5), (10, 7), (20, 9)]
        [⟨5, 0, 0⟩, ⟨15, 2000000, 3000000⟩]
      = (Double.nearest (8 / 1000000)).map (fun x => ([0, x], [1, 3 / 2])) ∧
    ∃ first ∈ [(⟨5, 0, 0⟩ : DeviceSample), ⟨15, 2000000, 3000000⟩].head?, ∃ xs ys : List ℚ,
      dlwaSeries interp Double.nearest [(10, 5), (10, 7), (20, 9)]
          [⟨5, 0, 0⟩, ⟨15, 2000000, 3000000⟩] =
        some (0 :: xs, 1 :: ys) ∧ xs.length = ys.length ∧ (0 :: xs).Pairwise (· ≤ ·) := by
  refine ⟨by decide +kernel, ?_⟩
  obtain ⟨first, isFirst, xs, ys, series, sameLength, ascending, _⟩ :=
    @dlwaSeries_wellDefined interp [(10, 5), (10, 7), (20, 9)]
      [⟨5, 0, 0⟩, ⟨15, 2000000, 3000000⟩] interp_piecewiseLinear (by simp) (by norm_num)
      (by simp) (by norm_num) le_rfl ⟨by simp, by simp, by simp⟩
  exact ⟨first, isFirst, xs, ys, series, sameLength, ascending⟩

/-- Two counters that rise by the same number, which is none of the doubles. -/
theorem dlwaSeries_below_one :
    (2 ^ 53 + 5 : ℤ) - 2 ≥ (2 ^ 53 + 3 : ℤ) - 0 ∧ ∃ x, ∃ y < 1,
      dlwaSeries interp Double.nearest [(0, 1)] [⟨0, 0, 2⟩, ⟨1, 2 ^ 53 + 3, 2 ^ 53 + 5⟩]
        = some ([0, x], [1, y]) := by
  refine ⟨by norm_num, 4722366482869645 / 4722366482869645213696, 9007199254740990 / 9007199254740992,
    by norm_num, ?_⟩
  decide +kernel

/-! ### The legacy script -/

instance sampleTotal : Std.Total fun point other : ℚ × ℕ => toLex point ≤ toLex other :=
  ⟨fun point other => le_total (toLex point) (toLex other)⟩

instance sampleTrans : IsTrans (ℚ × ℕ) fun point other => toLex point ≤ toLex other :=
  ⟨fun _ _ _ => le_trans⟩

/-- The legacy series is that of the sorted points, and fails without points or
    a second sample. -/
theorem dlwa_eq (points : List (ℚ × ℕ)) (samples : List DeviceSample) :
    ∃ sorted : List (ℚ × ℕ), sorted.Perm points ∧
      (sorted.Pairwise fun point later => point.1 ≤ later.1) ∧
      dlwa npInterp rounding points samples =
        if points ≠ [] ∧ 2 ≤ samples.length then dlwaSeries npInterp rounding sorted samples else none := by
  refine ⟨_, List.perm_insertionSort (fun point other => toLex point ≤ toLex other) points, ?_, ?_⟩
  · refine (List.pairwise_insertionSort _ points).imp fun ordered => ?_
    exact (Prod.Lex.toLex_le_toLex'.1 ordered).1
  · rw [dlwa, ← ite_not]
    refine if_congr ?_ rfl rfl
    rw [not_or, not_lt]

end Series

end FdpRocks.Scripts
