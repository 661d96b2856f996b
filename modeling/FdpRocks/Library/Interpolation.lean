import Mathlib

/-! # Piecewise linear interpolation

A function through knots in ascending order of their first components, with one
value to the left of all and one to the right.  Knots may share a first
component; the value there is then that of any of them.

* `located` — where an argument lies among ascending knots.
* `PiecewiseLinear.le_of_knots`, `PiecewiseLinear.ge_of_knots` — bounds.
* `PiecewiseLinear.at_knot` — the knots themselves.
* `PiecewiseLinear.monotone` — ascending values.
* `interp_piecewiseLinear` — there is such a function.
-/

namespace FdpRocks.Library

/-- Two members of an ordered list stand one way or the other. -/
theorem pairwise_trichotomy {Item : Type} {relation : Item → Item → Prop} {items : List Item}
    (ordered : items.Pairwise relation) {item other : Item} (member : item ∈ items)
    (otherMember : other ∈ items) : item = other ∨ relation item other ∨ relation other item := by
  obtain ⟨index, inside, rfl⟩ := List.getElem_of_mem member
  obtain ⟨otherIndex, otherInside, rfl⟩ := List.getElem_of_mem otherMember
  rcases lt_trichotomy index otherIndex with less | same | greater
  · exact .inr (.inl (List.pairwise_iff_getElem.1 ordered _ _ _ _ less))
  · exact .inl (by simp [same])
  · exact .inr (.inr (List.pairwise_iff_getElem.1 ordered _ _ _ _ greater))

/-! ## Where an argument lies -/

section Located

variable {K : Type} [LinearOrder K]

def Ascending (knots : List (K × K)) : Prop := knots.Pairwise fun earlier later => earlier.1 ≤ later.1

theorem Ascending.head_le {first : K × K} {rest : List (K × K)} (ascending : Ascending (first :: rest))
    {knot : K × K} (member : knot ∈ first :: rest) : first.1 ≤ knot.1 := by
  rcases List.mem_cons.1 member with rfl | inRest
  · exact le_rfl
  · exact (List.pairwise_cons.1 ascending).1 knot inRest

inductive Located (knots : List (K × K)) (argument : K) : Prop where
  | before (below : ∀ knot ∈ knots, argument < knot.1)
  | after (above : ∀ knot ∈ knots, knot.1 < argument)
  | knot (knot : K × K) (member : knot ∈ knots) (same : knot.1 = argument)
  | between (earlier later : List (K × K)) (start stop : K × K)
      (split : knots = earlier ++ start :: stop :: later) (above : start.1 < argument)
      (below : argument < stop.1)

theorem located (knots : List (K × K)) (ascending : Ascending knots) (argument : K) :
    Located knots argument := by
  induction knots with
  | nil => exact .before (by simp)
  | cons first rest inductionHypothesis =>
    obtain ⟨firstLeast, restAscending⟩ := List.pairwise_cons.1 ascending
    -- first against the first knot, then among the others
    rcases lt_trichotomy argument first.1 with below | same | above
    · exact .before (List.forall_mem_cons.2
        ⟨below, fun knot member => below.trans_le (firstLeast knot member)⟩)
    · exact .knot first List.mem_cons_self same.symm
    · cases inductionHypothesis restAscending with
      | before belowRest =>
        cases rest with
        | nil => exact .after (by simpa using above)
        | cons second rest =>
          exact .between [] rest first second rfl above (belowRest second List.mem_cons_self)
      | after aboveRest => exact .after (List.forall_mem_cons.2 ⟨above, aboveRest⟩)
      | knot knot member same => exact .knot knot (List.mem_cons_of_mem _ member) same
      | between earlier later start stop split above below =>
        exact .between (first :: earlier) later start stop (by rw [split]; rfl) above below

end Located

/-! ## Segments -/

/-- The line through two knots. -/
def segment {K : Type} [Field K] (start stop : K × K) (argument : K) : K :=
  start.2 + (stop.2 - start.2) / (stop.1 - start.1) * (argument - start.1)

section Segment

variable {K : Type} [Field K] [LinearOrder K] [IsStrictOrderedRing K] {start stop : K × K} {argument bound : K}

/-- How far between the two knots an argument is. -/
theorem segment_weight (above : start.1 < argument) (below : argument < stop.1) :
    ∃ weight : K, 0 ≤ weight ∧ weight ≤ 1 ∧
      segment start stop argument = (1 - weight) * start.2 + weight * stop.2 := by
  have width : 0 < stop.1 - start.1 := sub_pos.2 (above.trans below)
  refine ⟨(argument - start.1) / (stop.1 - start.1), ?_, ?_, ?_⟩
  · exact div_nonneg (sub_nonneg.2 above.le) width.le
  · exact (div_le_one width).2 (sub_le_sub_right below.le _)
  · rw [segment]
    ring

/-- A value of the segment is between the values of its ends. -/
theorem segment_mem (above : start.1 < argument) (below : argument < stop.1) :
    segment start stop argument ∈ Set.uIcc start.2 stop.2 := by
  obtain ⟨weight, nonneg, le_one, value⟩ := segment_weight above below
  rw [value, Set.mem_uIcc]
  cases le_total start.2 stop.2 with
  | inl rises =>
    have startPart := mul_le_mul_of_nonneg_left rises (sub_nonneg.2 le_one)
    have stopPart := mul_le_mul_of_nonneg_left rises nonneg
    exact .inl ⟨by linarith, by linarith⟩
  | inr falls =>
    have startPart := mul_le_mul_of_nonneg_left falls (sub_nonneg.2 le_one)
    have stopPart := mul_le_mul_of_nonneg_left falls nonneg
    exact .inr ⟨by linarith, by linarith⟩

theorem segment_le (above : start.1 < argument) (below : argument < stop.1)
    (startBound : start.2 ≤ bound) (stopBound : stop.2 ≤ bound) :
    segment start stop argument ≤ bound :=
  Set.ordConnected_Iic.uIcc_subset startBound stopBound (segment_mem above below)

theorem le_segment (above : start.1 < argument) (below : argument < stop.1)
    (startBound : bound ≤ start.2) (stopBound : bound ≤ stop.2) :
    bound ≤ segment start stop argument :=
  Set.ordConnected_Ici.uIcc_subset startBound stopBound (segment_mem above below)

theorem segment_monotone (wide : start.1 < stop.1) (rising : start.2 ≤ stop.2) {lower upper : K}
    (ordered : lower ≤ upper) : segment start stop lower ≤ segment start stop upper := by
  have slope : 0 ≤ (stop.2 - start.2) / (stop.1 - start.1) :=
    div_nonneg (sub_nonneg.2 rising) (sub_pos.2 wide).le
  exact add_le_add_right (mul_le_mul_of_nonneg_left (sub_le_sub_right ordered _) slope) _

end Segment

/-! ## Values -/

structure PiecewiseLinear {K : Type} [Field K] [LinearOrder K]
    (interp : K → K → List (K × K) → K → K) : Prop where
  before : ∀ {left right argument : K} {knots : List (K × K)}, knots ≠ [] →
    (∀ knot ∈ knots, argument < knot.1) → interp left right knots argument = left
  after : ∀ {left right argument : K} {knots : List (K × K)}, knots ≠ [] →
    (∀ knot ∈ knots, knot.1 < argument) → interp left right knots argument = right
  knot : ∀ {left right argument : K} {knots : List (K × K)}, Ascending knots →
    (∃ knot ∈ knots, knot.1 = argument) →
    ∃ knot ∈ knots, knot.1 = argument ∧ interp left right knots argument = knot.2
  between : ∀ {left right argument : K} {earlier later : List (K × K)} {start stop : K × K},
    Ascending (earlier ++ start :: stop :: later) → start.1 < argument → argument < stop.1 →
    interp left right (earlier ++ start :: stop :: later) argument = segment start stop argument

namespace PiecewiseLinear

variable {K : Type} [Field K] [LinearOrder K] [IsStrictOrderedRing K]
  {interp : K → K → List (K × K) → K → K} {knots : List (K × K)} {left right bound : K}

omit [IsStrictOrderedRing K] in
/-- Distinct knots are hit. -/
theorem at_knot (linear : PiecewiseLinear interp)
    (strict : knots.Pairwise fun earlier later => earlier.1 < later.1) {knot : K × K}
    (member : knot ∈ knots) : interp left right knots knot.1 = knot.2 := by
  have ascending : Ascending knots := strict.imp le_of_lt
  have distinct : (knots.map Prod.fst).Nodup := List.pairwise_map.2 (strict.imp ne_of_lt)
  obtain ⟨other, otherMember, same, value⟩ :=
    @linear.knot left right knot.1 knots ascending ⟨knot, member, rfl⟩
  rw [value, List.inj_on_of_nodup_map distinct otherMember member same]

/-- The function stays in every interval that has the values of all knots. -/
theorem mem_of_knots (linear : PiecewiseLinear interp) (nonempty : knots ≠ [])
    (ascending : Ascending knots) {values : Set K} (interval : values.OrdConnected)
    (leftMember : left ∈ values) (rightMember : right ∈ values)
    (knotMembers : ∀ knot ∈ knots, knot.2 ∈ values) (argument : K) :
    interp left right knots argument ∈ values := by
  cases located knots ascending argument with
  | before below => rwa [linear.before nonempty below]
  | after above => rwa [linear.after nonempty above]
  | knot knot member same =>
    -- of several knots at one argument, the function picks one of its own
    obtain ⟨other, otherMember, _, value⟩ :=
      @linear.knot left right argument knots ascending ⟨knot, member, same⟩
    rw [value]
    exact knotMembers other otherMember
  | between earlier later start stop split above below =>
    subst split
    rw [linear.between ascending above below]
    have startMember := knotMembers start (by simp)
    have stopMember := knotMembers stop (by simp)
    exact interval.uIcc_subset startMember stopMember (segment_mem above below)

theorem le_of_knots (linear : PiecewiseLinear interp) (nonempty : knots ≠ [])
    (ascending : Ascending knots) (leftBound : left ≤ bound) (rightBound : right ≤ bound)
    (knotsBound : ∀ knot ∈ knots, knot.2 ≤ bound) (argument : K) :
    interp left right knots argument ≤ bound :=
  linear.mem_of_knots nonempty ascending Set.ordConnected_Iic leftBound rightBound knotsBound
    argument

theorem ge_of_knots (linear : PiecewiseLinear interp) (nonempty : knots ≠ [])
    (ascending : Ascending knots) (leftBound : bound ≤ left) (rightBound : bound ≤ right)
    (knotsBound : ∀ knot ∈ knots, bound ≤ knot.2) (argument : K) :
    bound ≤ interp left right knots argument :=
  linear.mem_of_knots nonempty ascending Set.ordConnected_Ici leftBound rightBound knotsBound
    argument

/-! ### Ascending values -/

/-- Knots that rise from the left value to the right one. -/
structure Rising (left right : K) (knots : List (K × K)) : Prop where
  ascending : Ascending knots
  values : knots.Pairwise fun earlier later => earlier.2 ≤ later.2
  above : ∀ knot ∈ knots, left ≤ knot.2
  below : ∀ knot ∈ knots, knot.2 ≤ right
  ends : left ≤ right

omit [Field K] [IsStrictOrderedRing K] in
/-- Earlier in argument is no higher in value. -/
theorem Rising.le_of_lt (rising : Rising left right knots) {knot other : K × K}
    (member : knot ∈ knots) (otherMember : other ∈ knots) (before : knot.1 < other.1) :
    knot.2 ≤ other.2 := by
  have ordered := pairwise_trichotomy (rising.ascending.and rising.values) member otherMember
  rcases ordered with rfl | earlier | later
  · exact le_rfl
  · exact earlier.2
  · exact absurd before later.1.not_gt

omit [Field K] [IsStrictOrderedRing K] in
/-- A knot before the end of a segment is no higher than its start. -/
theorem Rising.le_start {earlier later : List (K × K)} {start stop knot : K × K}
    (rising : Rising left right (earlier ++ start :: stop :: later))
    (member : knot ∈ earlier ++ start :: stop :: later) (before : knot.1 < stop.1) :
    knot.2 ≤ start.2 := by
  obtain ⟨_, ascendingRest, _⟩ := List.pairwise_append.1 rising.ascending
  obtain ⟨_, _, cross⟩ := List.pairwise_append.1 rising.values
  have stopLeast := (List.pairwise_cons.1 (List.pairwise_cons.1 ascendingRest).2).1
  simp only [List.mem_append, List.mem_cons] at member
  -- from the end of the segment on it is too late
  rcases member with inEarlier | rfl | rfl | inLater
  · exact cross knot inEarlier start List.mem_cons_self
  · exact le_rfl
  · exact absurd before (lt_irrefl _)
  · exact absurd before (stopLeast knot inLater).not_gt

omit [Field K] [IsStrictOrderedRing K] in
/-- A knot after the start of a segment is no lower than its end. -/
theorem Rising.stop_le {earlier later : List (K × K)} {start stop knot : K × K}
    (rising : Rising left right (earlier ++ start :: stop :: later))
    (member : knot ∈ earlier ++ start :: stop :: later) (after : start.1 < knot.1) :
    stop.2 ≤ knot.2 := by
  obtain ⟨_, _, ascendingCross⟩ := List.pairwise_append.1 rising.ascending
  obtain ⟨_, valuesRest, _⟩ := List.pairwise_append.1 rising.values
  have stopLeast := (List.pairwise_cons.1 (List.pairwise_cons.1 valuesRest).2).1
  simp only [List.mem_append, List.mem_cons] at member
  rcases member with inEarlier | rfl | rfl | inLater
  · exact absurd after (ascendingCross knot inEarlier start List.mem_cons_self).not_gt
  · exact absurd after (lt_irrefl _)
  · exact le_rfl
  · exact stopLeast knot inLater

omit [Field K] [IsStrictOrderedRing K] in
/-- A segment of rising knots rises. -/
theorem Rising.segment {earlier later : List (K × K)} {start stop : K × K}
    (rising : Rising left right (earlier ++ start :: stop :: later)) : start.2 ≤ stop.2 := by
  obtain ⟨_, valuesRest, _⟩ := List.pairwise_append.1 rising.values
  exact (List.pairwise_cons.1 valuesRest).1 stop List.mem_cons_self

theorem knot_le (linear : PiecewiseLinear interp) (rising : Rising left right knots) {knot : K × K}
    (member : knot ∈ knots) {argument : K} (before : knot.1 < argument) :
    knot.2 ≤ interp left right knots argument := by
  cases located knots rising.ascending argument with
  | before below => exact absurd before (below knot member).not_gt
  | after above =>
    rw [linear.after (List.ne_nil_of_mem member) above]
    exact rising.below knot member
  | knot other otherMember same =>
    obtain ⟨hit, hitMember, hitSame, value⟩ :=
      @linear.knot left right argument knots rising.ascending ⟨other, otherMember, same⟩
    rw [value]
    exact rising.le_of_lt member hitMember (hitSame ▸ before)
  | between earlier later start stop split above below =>
    subst split
    rw [linear.between rising.ascending above below]
    have startHigher := rising.le_start member (before.trans below)
    exact le_segment above below startHigher (startHigher.trans rising.segment)

theorem le_knot (linear : PiecewiseLinear interp) (rising : Rising left right knots) {knot : K × K}
    (member : knot ∈ knots) {argument : K} (after : argument < knot.1) :
    interp left right knots argument ≤ knot.2 := by
  cases located knots rising.ascending argument with
  | before below =>
    rw [linear.before (List.ne_nil_of_mem member) below]
    exact rising.above knot member
  | after above => exact absurd after (above knot member).not_gt
  | knot other otherMember same =>
    obtain ⟨hit, hitMember, hitSame, value⟩ :=
      @linear.knot left right argument knots rising.ascending ⟨other, otherMember, same⟩
    rw [value]
    exact rising.le_of_lt hitMember member (hitSame ▸ after)
  | between earlier later start stop split above below =>
    subst split
    rw [linear.between rising.ascending above below]
    have stopLower := rising.stop_le member (above.trans after)
    exact segment_le above below (rising.segment.trans stopLower) stopLower

/-- Through rising knots the function rises, jumps included. -/
theorem monotone (linear : PiecewiseLinear interp) (nonempty : knots ≠ [])
    (rising : Rising left right knots) {lower upper : K} (ordered : lower ≤ upper) :
    interp left right knots lower ≤ interp left right knots upper := by
  rcases ordered.eq_or_lt with rfl | less
  · exact le_rfl
  cases located knots rising.ascending lower with
  | before below =>
    rw [linear.before nonempty below]
    exact linear.ge_of_knots nonempty rising.ascending le_rfl rising.ends rising.above upper
  | after above =>
    rw [linear.after nonempty above,
      linear.after nonempty fun knot member => (above knot member).trans less]
  | knot knot member same =>
    obtain ⟨hit, hitMember, hitSame, value⟩ :=
      @linear.knot left right lower knots rising.ascending ⟨knot, member, same⟩
    rw [value]
    exact linear.knot_le rising hitMember (hitSame ▸ less)
  | between earlier later start stop split above below =>
    subst split
    have stopMember : stop ∈ earlier ++ start :: stop :: later := by simp
    -- the larger argument is in the same segment, at its end or after it
    rcases lt_trichotomy upper stop.1 with inside | atStop | after
    · rw [linear.between rising.ascending above below,
        linear.between rising.ascending (above.trans less) inside]
      exact segment_monotone (above.trans below) rising.segment ordered
    · obtain ⟨hit, hitMember, hitSame, value⟩ :=
        @linear.knot left right upper _ rising.ascending ⟨stop, stopMember, atStop.symm⟩
      rw [value]
      exact linear.le_knot rising hitMember (hitSame ▸ less)
    · exact (linear.le_knot rising stopMember below).trans
        (linear.knot_le rising stopMember after)

end PiecewiseLinear

/-! ## The function -/

section Interp

variable {K : Type} [Field K] [LinearOrder K]

/-- From a knot on. -/
def interpFrom (right : K) (knot : K × K) : List (K × K) → K → K
  | [], argument => if knot.1 < argument then right else knot.2
  | next :: rest, argument =>
    if argument < next.1 then segment knot next argument else interpFrom right next rest argument

def interp (left right : K) : List (K × K) → K → K
  | [], _ => left
  | first :: rest, argument => if argument < first.1 then left else interpFrom right first rest argument

theorem interpFrom_after (right : K) (knot : K × K) (rest : List (K × K)) (argument : K)
    (above : ∀ other ∈ knot :: rest, other.1 < argument) :
    interpFrom right knot rest argument = right := by
  induction rest generalizing knot with
  | nil => rw [interpFrom, if_pos (above knot List.mem_cons_self)]
  | cons next rest inductionHypothesis =>
    obtain ⟨_, aboveRest⟩ := List.forall_mem_cons.1 above
    rw [interpFrom, if_neg (aboveRest next List.mem_cons_self).not_gt, inductionHypothesis next aboveRest]

theorem interpFrom_knot (right : K) (knot : K × K) (rest : List (K × K)) (argument : K)
    (ascending : Ascending (knot :: rest)) (started : knot.1 ≤ argument)
    (hit : ∃ other ∈ knot :: rest, other.1 = argument) :
    ∃ other ∈ knot :: rest, other.1 = argument ∧ interpFrom right knot rest argument = other.2 := by
  induction rest generalizing knot with
  | nil =>
    obtain ⟨other, member, same⟩ := hit
    obtain rfl := List.mem_singleton.1 member
    refine ⟨other, member, same, ?_⟩
    rw [interpFrom, if_neg same.ge.not_gt]
  | cons next rest inductionHypothesis =>
    obtain ⟨_, restAscending⟩ := List.pairwise_cons.1 ascending
    by_cases before : argument < next.1
    case pos =>
      obtain ⟨other, member, same⟩ := hit
      -- before the next knot only this one can be hit
      have isKnot : other = knot := by
        refine (List.mem_cons.1 member).resolve_right fun inRest => ?_
        have later : next.1 ≤ other.1 := Ascending.head_le restAscending inRest
        exact absurd before (same ▸ later).not_gt
      subst isKnot
      refine ⟨other, member, same, ?_⟩
      rw [interpFrom, if_pos before, segment, same]
      ring
    case neg =>
      have nextStarted := not_lt.1 before
      have hitRest : ∃ other ∈ next :: rest, other.1 = argument := by
        obtain ⟨other, member, same⟩ := hit
        rcases List.mem_cons.1 member with rfl | inRest
        · have nextLater : other.1 ≤ next.1 := ascending.head_le (by simp)
          exact ⟨next, List.mem_cons_self, le_antisymm nextStarted (same ▸ nextLater)⟩
        · exact ⟨other, inRest, same⟩
      obtain ⟨other, member, same, value⟩ := inductionHypothesis next restAscending nextStarted hitRest
      refine ⟨other, List.mem_cons_of_mem _ member, same, ?_⟩
      rw [interpFrom, if_neg before, value]

theorem interpFrom_between (right : K) {knot : K × K} {rest earlier later : List (K × K)}
    {start stop : K × K} {argument : K} (split : knot :: rest = earlier ++ start :: stop :: later)
    (ascending : Ascending (knot :: rest)) (above : start.1 < argument)
    (below : argument < stop.1) :
    interpFrom right knot rest argument = segment start stop argument := by
  induction earlier generalizing knot rest with
  | nil =>
    obtain ⟨rfl, rfl⟩ := List.cons.inj split
    rw [interpFrom, if_pos below]
  | cons first earlier inductionHypothesis =>
    obtain ⟨_, tail⟩ := List.cons.inj split
    obtain ⟨next, others, isCons⟩ := List.exists_cons_of_ne_nil (show rest ≠ [] by simp [tail])
    subst isCons
    have restAscending : Ascending (next :: others) := (List.pairwise_cons.1 ascending).2
    have nextBefore : next.1 ≤ start.1 := restAscending.head_le (by simp [tail])
    rw [interpFrom, if_neg (nextBefore.trans_lt above).not_gt]
    exact inductionHypothesis tail restAscending

theorem interp_piecewiseLinear : PiecewiseLinear (interp : K → K → List (K × K) → K → K) where
  before nonempty below := by
    obtain ⟨first, rest, rfl⟩ := List.exists_cons_of_ne_nil nonempty
    rw [interp, if_pos (below first List.mem_cons_self)]
  after nonempty above := by
    obtain ⟨first, rest, rfl⟩ := List.exists_cons_of_ne_nil nonempty
    rw [interp, if_neg (above first List.mem_cons_self).not_gt]
    exact interpFrom_after _ _ _ _ above
  knot ascending hit := by
    obtain ⟨knot, member, same⟩ := hit
    obtain ⟨first, rest, rfl⟩ := List.exists_cons_of_ne_nil (List.ne_nil_of_mem member)
    have started := ascending.head_le member
    rw [interp, if_neg (same ▸ started).not_gt]
    exact interpFrom_knot _ _ _ _ ascending (same ▸ started) ⟨knot, member, same⟩
  between := by
    intro left right argument earlier later start stop ascending above below
    obtain ⟨first, rest, split⟩ := List.exists_cons_of_ne_nil
      (List.append_ne_nil_of_right_ne_nil earlier (List.cons_ne_nil start (stop :: later)))
    rw [split] at ascending ⊢
    have firstLeast : first.1 ≤ start.1 := ascending.head_le (by simp [← split])
    rw [interp, if_neg (firstLeast.trans_lt above).not_gt]
    exact interpFrom_between _ split.symm ascending above below

end Interp

end FdpRocks.Library
