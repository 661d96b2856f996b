import FdpRocks.Library.Percentile
import FdpRocks.Library.Double
import FdpRocks.Scripts.LifetimesSoundness

/-! # `extract_p25_thresholds.py`

The thresholds that the model runs are given: one percentile of the lifetimes of
each level, printed in one line.  Doubles are exact numbers.

* `percentile_bounds` — how the lifetimes of a level lie about its percentile.
* `extractThresholds_meaning` — what the five numbers of the line are.
-/

namespace FdpRocks.Scripts

open FdpRocks.Library FdpRocks.Library.Numerals FdpRocks.Library.PythonText

/-! ## The script -/

inductive ThresholdFailure where
  | noSamples (level : ℕ)
  | outOfRange

def ThresholdFailure.message : ThresholdFailure → List Char
  | noSamples level => "No lifetime samples for L".toList ++ decimal level
  | outOfRange => "Percentiles must be in the range [0, 100]".toList

/-- `range (1, 6)`. -/
def thresholdLevels : List ℕ := [1, 2, 3, 4, 5]

/-- `np.percentile`, of a percentage in its range. -/
abbrev NpPercentile : Type := List ℚ → ℚ → ℚ

section Script

variable (npPercentile : NpPercentile) (useMoveDestination : Bool) (percent : ℚ) (log : List LogLine)

/-- One turn of the loop over the levels. -/
def levelThreshold (level : ℕ) : Except ThresholdFailure ℚ :=
  let samples := parseLog useMoveDestination log level
  if samples = [] then .error (.noSamples level)
  else if percent < 0 ∨ 100 < percent then .error .outOfRange
  else .ok (npPercentile samples percent)

/-- `result`. -/
def thresholdText (thresholds : List ℚ) : List Char :=
  [','].intercalate (thresholds.map (fixedPoint 2))

/-- `main`, up to the file that it writes. -/
def extractThresholds : Except ThresholdFailure (List Char) := do
  let thresholds ← thresholdLevels.mapM (levelThreshold npPercentile useMoveDestination percent log)
  return thresholdText thresholds ++ ['\n']

end Script

/-! ## What a percentile is -/

/-- The documented method, `linear`, of exact numbers: the index that numpy computes
    of doubles may fall just short of a whole one. -/
def Linear (npPercentile : NpPercentile) : Prop :=
  ∀ samples percent, samples ≠ [] → 0 ≤ percent → percent ≤ 100 →
    npPercentile samples percent = quantile samples (percent / 100)

/-- The lifetimes of a level. -/
def levelLifetimes (useMoveDestination : Bool) (log : List LogLine) (level : ℕ) : Multiset ℚ :=
  (createdFiles log).val.filterMap (lifetimeSample useMoveDestination log level)

theorem mem_thresholdLevels {level : ℕ} : level ∈ thresholdLevels ↔ 1 ≤ level ∧ level ≤ 5 := by
  simp only [thresholdLevels, List.mem_cons, List.not_mem_nil, or_false]
  omega

/-- The levels before one of them are the smaller ones. -/
theorem thresholdLevels_split {level : ℕ} (listed : level ∈ thresholdLevels) :
    ∃ before after, thresholdLevels = before ++ level :: after ∧ ∀ other ∈ before, other < level := by
  have rising : thresholdLevels.Pairwise (· < ·) := by decide
  obtain ⟨before, after, split⟩ := List.append_of_mem listed
  rw [split] at rising
  refine ⟨before, after, split, fun other member => ?_⟩
  exact (List.pairwise_append.mp rising).2.2 other member level List.mem_cons_self

/-! ## One level -/

section Level

variable {npPercentile : NpPercentile} {useMoveDestination : Bool} {percent : ℚ} {log : List LogLine}
  {level : ℕ}

theorem samples_levelLifetimes (listed : level ∈ thresholdLevels) :
    (parseLog useMoveDestination log level : Multiset ℚ) = levelLifetimes useMoveDestination log level := by
  obtain ⟨low, high⟩ := mem_thresholdLevels.mp listed
  exact parseLog_samples useMoveDestination log ⟨by exact_mod_cast low, by exact_mod_cast high⟩

theorem samples_nonneg (listed : level ∈ thresholdLevels) :
    ∀ sample ∈ parseLog useMoveDestination log level, 0 ≤ sample := by
  intro sample member
  rw [← Multiset.mem_coe, samples_levelLifetimes listed, levelLifetimes, Multiset.mem_filterMap] at member
  obtain ⟨_, _, lifetime⟩ := member
  exact lifetimeSample_nonneg _ _ lifetime

theorem samples_eq_nil (listed : level ∈ thresholdLevels) :
    parseLog useMoveDestination log level = [] ↔ levelLifetimes useMoveDestination log level = 0 := by
  rw [← samples_levelLifetimes listed, Multiset.coe_eq_zero]

/-- Among the lifetimes of a level, a percentile has its share on either side. -/
theorem percentile_bounds (linear : Linear npPercentile) (nonneg : 0 ≤ percent) (atMost : percent ≤ 100)
    (listed : level ∈ thresholdLevels) (sampled : parseLog useMoveDestination log level ≠ []) :
    0 ≤ npPercentile (parseLog useMoveDestination log level) percent ∧
    percent / 100 * ((levelLifetimes useMoveDestination log level).card - 1)
      < (levelLifetimes useMoveDestination log level).countP
        (· ≤ npPercentile (parseLog useMoveDestination log level) percent) ∧
    (1 - percent / 100) * ((levelLifetimes useMoveDestination log level).card - 1)
      < (levelLifetimes useMoveDestination log level).countP
        (npPercentile (parseLog useMoveDestination log level) percent ≤ ·) := by
  have low : 0 ≤ percent / 100 := by positivity
  have high : percent / 100 ≤ 1 := by linarith
  rw [← samples_levelLifetimes listed, linear _ _ sampled nonneg atMost, Multiset.coe_card,
    Multiset.coe_countP, Multiset.coe_countP]
  exact ⟨quantile_nonneg sampled low high (samples_nonneg listed), count_le_quantile sampled low high,
    count_ge_quantile sampled low high⟩

theorem percentile_mono (linear : Linear npPercentile) (nonneg : 0 ≤ percent) {larger : ℚ}
    (less : percent ≤ larger) (atMost : larger ≤ 100) (sampled : parseLog useMoveDestination log level ≠ []) :
    npPercentile (parseLog useMoveDestination log level) percent
      ≤ npPercentile (parseLog useMoveDestination log level) larger := by
  rw [linear _ _ sampled nonneg (less.trans atMost), linear _ _ sampled (nonneg.trans less) atMost]
  exact quantile_mono sampled (by positivity) (by linarith)

theorem levelThreshold_ok (nonneg : 0 ≤ percent) (atMost : percent ≤ 100)
    (sampled : parseLog useMoveDestination log level ≠ []) :
    levelThreshold npPercentile useMoveDestination percent log level
      = .ok (npPercentile (parseLog useMoveDestination log level) percent) := by
  unfold levelThreshold
  dsimp only
  rw [if_neg sampled, if_neg (by simp [nonneg, atMost])]

theorem levelThreshold_none (none : parseLog useMoveDestination log level = []) :
    levelThreshold npPercentile useMoveDestination percent log level = .error (.noSamples level) := by
  unfold levelThreshold
  dsimp only
  rw [if_pos none]

/-- Only the lifetimes count, in whatever order the log has them. -/
theorem levelThreshold_lifetimes (linear : Linear npPercentile) {other : List LogLine}
    (listed : level ∈ thresholdLevels)
    (same : levelLifetimes useMoveDestination other level = levelLifetimes useMoveDestination log level) :
    levelThreshold npPercentile useMoveDestination percent other level
      = levelThreshold npPercentile useMoveDestination percent log level := by
  rw [← samples_levelLifetimes listed, ← samples_levelLifetimes listed, Multiset.coe_eq_coe] at same
  unfold levelThreshold
  dsimp only
  by_cases none : parseLog useMoveDestination log level = []
  · rw [none, List.perm_nil] at same
    rw [same, none]
  · have others : parseLog useMoveDestination other level ≠ [] := by
      rintro empty
      rw [empty] at same
      exact none same.symm.eq_nil
    rw [if_neg none, if_neg others]
    by_cases outside : percent < 0 ∨ 100 < percent
    · rw [if_pos outside, if_pos outside]
    · rw [not_or, not_lt, not_lt] at outside
      rw [linear _ _ none outside.1 outside.2, linear _ _ others outside.1 outside.2,
        quantile_perm same]

end Level

/-! ## The line -/

section Line

variable (unicode : Unicode)

theorem float_fixedPoint {value : ℚ} (nonneg : 0 ≤ value) :
    ∃ number, unicode.float (fixedPoint 2 value) = some number ∧ |number - value| ≤ 1 / 200 := by
  have rounded : 0 ≤ roundHalfEven (value * 10 ^ 2) := roundHalfEven_nonneg (by positivity)
  have near := Double.roundHalfEven_near (value * 10 ^ 2)
  refine ⟨(roundHalfEven (value * 10 ^ 2)).toNat / 10 ^ 2, ?_, ?_⟩
  · rw [fixedPoint_nonneg nonneg, unicode.float_pointed]
  · have cast : (((roundHalfEven (value * 10 ^ 2)).toNat : ℕ) : ℚ)
        = (roundHalfEven (value * 10 ^ 2) : ℚ) := by
      exact_mod_cast Int.toNat_of_nonneg rounded
    rw [cast]
    rw [abs_le] at near ⊢
    constructor
    · linarith [near.1]
    · linarith [near.2]

theorem thresholdText_fields {values : List ℚ} (filled : values ≠ []) (nonneg : ∀ value ∈ values, 0 ≤ value) :
    List.Forall₂ (fun text value => ∃ number, unicode.float text = some number ∧ |number - value| ≤ 1 / 200)
      ((thresholdText values).splitOn ',') values := by
  have fields : (thresholdText values).splitOn ',' = values.map (fixedPoint 2) := by
    apply List.splitOn_intercalate
    · intro text member
      obtain ⟨value, listed, rfl⟩ := List.mem_map.mp member
      exact not_mem_fixedPoint (by decide) (by decide) (nonneg value listed) 2
    · simpa using filled
  rw [fields, List.forall₂_map_left_iff, List.forall₂_same]
  exact fun value member => float_fixedPoint unicode (nonneg value member)

theorem not_mem_thresholdText {values : List ℚ} (nonneg : ∀ value ∈ values, 0 ≤ value) :
    '\n' ∉ thresholdText values := by
  have absent : ∀ {texts : List (List Char)}, (∀ text ∈ texts, '\n' ∉ text) →
      '\n' ∉ [','].intercalate texts := by
    intro texts each
    induction texts with
    | nil => simp
    | cons text texts inductionHypothesis =>
      have later := inductionHypothesis fun other member => each other (List.mem_cons_of_mem _ member)
      have here := each text List.mem_cons_self
      cases texts with
      | nil => simpa using here
      | cons second texts =>
        rw [List.intercalate_cons_cons]
        simp [here, later]
  apply absent
  intro text member
  obtain ⟨value, listed, rfl⟩ := List.mem_map.mp member
  exact not_mem_fixedPoint (by decide) (by decide) (nonneg value listed) 2

end Line

/-! ## The whole script -/

theorem extractThresholds_eq {npPercentile : NpPercentile} {useMoveDestination : Bool} {percent : ℚ}
    {log other : List LogLine} (same : ∀ level ∈ thresholdLevels,
      levelThreshold npPercentile useMoveDestination percent other level
        = levelThreshold npPercentile useMoveDestination percent log level) :
    extractThresholds npPercentile useMoveDestination percent other
      = extractThresholds npPercentile useMoveDestination percent log := by
  unfold extractThresholds thresholdLevels
  simp only [thresholdLevels, List.forall_mem_cons] at same
  obtain ⟨one, two, three, four, five, _⟩ := same
  simp only [List.mapM_cons, List.mapM_nil, one, two, three, four, five]

section Meaning

variable {npPercentile : NpPercentile} (linear : Linear npPercentile) (unicode : Unicode)
  (useMoveDestination : Bool) {percent : ℚ} (nonneg : 0 ≤ percent) (atMost : percent ≤ 100)
  (log : List LogLine)

include linear nonneg atMost

/-- The script fails exactly when some level has no lifetime, and then names the first
    such level.  Otherwise it writes one line of five numbers that read back as the
    percentiles of the levels, to half of their last digit; of the lifetimes of its
    level, more than its share does not exceed a percentile, and more than the rest does
    not fall below it.  A larger percentage gives no smaller thresholds, and two
    logs with the same lifetimes give the same line. -/
theorem extractThresholds_meaning :
    (∀ level ∈ thresholdLevels, levelLifetimes useMoveDestination log level = 0 →
      (∀ other ∈ thresholdLevels, other < level → levelLifetimes useMoveDestination log other ≠ 0) →
      extractThresholds npPercentile useMoveDestination percent log = .error (.noSamples level)) ∧
    ((∀ level ∈ thresholdLevels, levelLifetimes useMoveDestination log level ≠ 0) →
      ∃ thresholds : ℕ → ℚ, ∃ line, '\n' ∉ line ∧
        extractThresholds npPercentile useMoveDestination percent log = .ok (line ++ ['\n']) ∧
        List.Forall₂ (fun text level => ∃ number, unicode.float text = some number ∧
          |number - thresholds level| ≤ 1 / 200) (line.splitOn ',') thresholdLevels ∧
        ∀ level ∈ thresholdLevels, 0 ≤ thresholds level ∧
          percent / 100 * ((levelLifetimes useMoveDestination log level).card - 1)
            < (levelLifetimes useMoveDestination log level).countP (· ≤ thresholds level) ∧
          (1 - percent / 100) * ((levelLifetimes useMoveDestination log level).card - 1)
            < (levelLifetimes useMoveDestination log level).countP (thresholds level ≤ ·) ∧
          levelThreshold npPercentile useMoveDestination percent log level = .ok (thresholds level) ∧
          ∀ larger, percent ≤ larger → larger ≤ 100 → ∃ threshold, thresholds level ≤ threshold ∧
            levelThreshold npPercentile useMoveDestination larger log level = .ok threshold) ∧
    ∀ other, (∀ level ∈ thresholdLevels,
        levelLifetimes useMoveDestination other level = levelLifetimes useMoveDestination log level) →
      extractThresholds npPercentile useMoveDestination percent other
        = extractThresholds npPercentile useMoveDestination percent log := by
  refine ⟨fun level listed none earlier => ?_, fun each => ?_, fun other same => ?_⟩
  · obtain ⟨before, after, split, below⟩ := thresholdLevels_split listed
    have empty := (samples_eq_nil listed).mpr none
    unfold extractThresholds
    rw [split, mapM_error _ (levelThreshold_none empty)]
    · rfl
    · intro other member
      have otherListed : other ∈ thresholdLevels := by simp [split, member]
      have sampled := (samples_eq_nil otherListed).not.mpr (earlier other otherListed (below other member))
      exact ⟨_, levelThreshold_ok nonneg atMost sampled⟩
  · have sampled : ∀ level ∈ thresholdLevels, parseLog useMoveDestination log level ≠ [] :=
      fun level listed => (samples_eq_nil listed).not.mpr (each level listed)
    have bounds := fun level listed => percentile_bounds linear nonneg atMost listed (sampled level listed)
    have positive : ∀ value ∈ thresholdLevels.map fun level : ℕ =>
        npPercentile (parseLog useMoveDestination log level) percent, 0 ≤ value := by
      intro value member
      obtain ⟨level, listed, rfl⟩ := List.mem_map.mp member
      exact (bounds level listed).1
    refine ⟨fun level => npPercentile (parseLog useMoveDestination log level) percent, thresholdText
      (thresholdLevels.map fun level : ℕ => npPercentile (parseLog useMoveDestination log level) percent),
      not_mem_thresholdText positive, ?_, ?_, fun level listed => ?_⟩
    · unfold extractThresholds
      rw [mapM_of_forall fun level listed => levelThreshold_ok nonneg atMost (sampled level listed)]
      rfl
    · have fields := thresholdText_fields unicode (by simp [thresholdLevels]) positive
      exact List.forall₂_map_right_iff.mp fields
    · obtain ⟨atLeast, below, above⟩ := bounds level listed
      refine ⟨atLeast, below, above, levelThreshold_ok nonneg atMost (sampled level listed), ?_⟩
      intro larger less largerAtMost
      exact ⟨_, percentile_mono linear nonneg less largerAtMost (sampled level listed),
        levelThreshold_ok (nonneg.trans less) largerAtMost (sampled level listed)⟩
  · exact extractThresholds_eq fun level listed => levelThreshold_lifetimes linear listed (same level listed)

end Meaning

/-! ## One file on each level -/

/-- A file of level `level` that lives for as many seconds. -/
def briefFile (level : ℕ) : List LogLine :=
  [.event
    { event := some "table_file_creation"
      timeMicros := some 0
      fileNumber := some level
      level := some level },
  .event
    { event := some "table_file_deletion"
      timeMicros := some (level * 1000000)
      fileNumber := some level }]

def briefLog : List LogLine := thresholdLevels.flatMap briefFile

theorem extractThresholds_meaning_brief : ∃ line,
    extractThresholds (fun samples percent => quantile samples (percent / 100)) false 25 briefLog
      = .ok (line ++ ['\n']) ∧ (line.splitOn ',').length = 5 := by
  obtain ⟨_, written, _⟩ := @extractThresholds_meaning
    (fun samples percent => quantile samples (percent / 100)) (fun _ _ _ _ _ => rfl) .ascii false 25
    (by norm_num) (by norm_num) briefLog
  have sampled : ∀ level ∈ thresholdLevels, parseLog false briefLog level ≠ [] := by decide +kernel
  obtain ⟨_, line, _, ok, fields, _⟩ := written fun level listed =>
    (samples_eq_nil listed).not.mp (sampled level listed)
  exact ⟨line, ok, fields.length_eq⟩

end FdpRocks.Scripts
