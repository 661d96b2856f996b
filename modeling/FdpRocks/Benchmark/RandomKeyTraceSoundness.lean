import FdpRocks.Benchmark.RandomKeyTrace

/-! # Where read workloads are read from

* `copySegments_spec` — the segments of a workload, one after another.
* `shiftPhases_eq` — a shift of the phases is a rotation.
* `interval_spec` — what the strided loops write.
* `generators_safe_iff` — no access is out of range, but for one rank of the
  Zipfian generator.
-/

namespace FdpRocks.Benchmark

open FdpRocks.Library.Loop FdpRocks.Library.Vectors

namespace RandomKeyTrace

variable {draws : Draws}

/-! ## Shared loops -/

theorem divided_eq {divisor : ℕ} (positive : 1 ≤ divisor) (dividend : ℕ) :
    divided dividend divisor = some (dividend / divisor) :=
  if_neg (by omega)

theorem numberSegments_eq (nSegments : ℕ) :
    numberSegments nSegments = some (List.range nSegments) := by
  have numbered : numberSegments nSegments = some ((List.range nSegments).map id) :=
    forRange_map (length_resize 0 [] nSegments) (fun _ _ _ _ => rfl)
  rwa [List.map_id] at numbered

theorem drawAll_eq (used : ℕ) (readI : List ℕ) :
    drawAll draws used (resize 0 readI used) = some ((List.range used).map draws.samples) :=
  forRange_map (length_resize 0 readI used) (fun _ _ _ _ => rfl)

/-- The segment that a draw picks. -/
def picked (draws : Draws) (segmentIndex : List ℕ) (j : ℕ) : Option ℕ :=
  segmentOf segmentIndex (draws.samples j)

/-- Every draw picks one of these segments. -/
def Picks (draws : Draws) (segmentIndex : List ℕ) (used nSegments : ℕ) : Prop :=
  ∀ j < used, ∃ segment < nSegments, picked draws segmentIndex j = some segment

theorem picks_of_perm {segmentIndex : List ℕ} {used nSegments : ℕ}
    (all : segmentIndex.Perm (List.range nSegments))
    (ranks : ∀ j < used, 1 ≤ draws.samples j ∧ draws.samples j ≤ nSegments) :
    Picks draws segmentIndex used nSegments := by
  intro j early
  obtain ⟨positive, rank⟩ := ranks j early
  have length : segmentIndex.length = nSegments := by simp [all.length_eq]
  have inside : draws.samples j - 1 < segmentIndex.length := by omega
  have member : segmentIndex[draws.samples j - 1] ∈ List.range nSegments :=
    all.subset (List.getElem_mem inside)
  refine ⟨segmentIndex[draws.samples j - 1], List.mem_range.mp member, ?_⟩
  have nonzero : draws.samples j ≠ 0 := by omega
  simp [picked, segmentOf, nonzero, inside]

theorem drawSegments_eq {segmentIndex : List ℕ} {used nSegments : ℕ}
    (picks : Picks draws segmentIndex used nSegments) (readI : List ℕ) :
    drawSegments draws used segmentIndex (resize 0 readI used)
      = some ((List.range used).map draws.samples) := by
  have length : (resize 0 readI used).length = used := length_resize 0 readI used
  apply forRange_map length
  intro j readI early filled
  -- The look-up in between succeeds and changes nothing.
  obtain ⟨longer, written, longerFilled⟩ := filled.next (length.symm ▸ early) rfl
  obtain ⟨segment, _, known⟩ := picks j early
  have here : longer[j]? = some (draws.samples j) := by
    rw [longerFilled.items, if_pos (Nat.lt_succ_self j)]
  rw [picked] at known
  simp [written, here, known]

/-- The key at a place of a workload that is made of segments. -/
def segmentKey (keys : List UInt64) (draws : Draws) (segmentIndex : List ℕ) (segmentLength : ℕ)
    (place : ℕ) : Option UInt64 :=
  (picked draws segmentIndex (place / segmentLength)).bind fun segment =>
    keys[segment * segmentLength + place % segmentLength]?

theorem segmentKey_place {keys : List UInt64} {segmentIndex : List ℕ} {segmentLength j k segment : ℕ}
    (inside : k < segmentLength) (known : picked draws segmentIndex j = some segment) :
    segmentKey keys draws segmentIndex segmentLength (j * segmentLength + k)
      = keys[segment * segmentLength + k]? := by
  rw [segmentKey, place_div inside, place_mod inside, known]
  rfl

/-- Every segment lies within the keys: nothing is read beyond them. -/
theorem segment_within {count segmentLength segment k : ℕ}
    (known : segment < count / segmentLength) (inside : k < segmentLength) :
    segment * segmentLength + k < count :=
  Nat.lt_of_lt_of_le (place_lt known inside) (Nat.div_mul_le_self _ _)

/-- Whole segments have room in every workload. -/
theorem segments_room (workload : List UInt64) (readDatasetLength segmentLength : ℕ) :
    readDatasetLength / segmentLength * segmentLength
      ≤ (resize 0 workload readDatasetLength).length := by
  rw [length_resize]
  exact Nat.div_mul_le_self _ _

theorem copySegments_spec {keys workload : List UInt64} {segmentIndex : List ℕ}
    {segmentLength used : ℕ}
    (picks : Picks draws segmentIndex used (keys.length / segmentLength))
    (room : used * segmentLength ≤ workload.length) :
    ∃ copied, copySegments keys segmentIndex ((List.range used).map draws.samples) segmentLength used
        workload = some copied ∧
      Filled workload (segmentKey keys draws segmentIndex segmentLength) (used * segmentLength)
        copied := by
  have start : Filled workload (segmentKey keys draws segmentIndex segmentLength)
      (0 * segmentLength) workload := (Nat.zero_mul segmentLength).symm ▸ .start
  apply forRange_total (fun j copied => Filled workload
    (segmentKey keys draws segmentIndex segmentLength) (j * segmentLength) copied) _ start
  intro j copied early filled
  obtain ⟨segment, known, picksSegment⟩ := picks j early
  have drawn : ((List.range used).map draws.samples)[j]? = some (draws.samples j) := by simp [early]
  -- The inner loop goes on from place to place within one segment.
  obtain ⟨longer, returns, longerFilled⟩ : ∃ longer, forRange segmentLength (fun k workload => do
        let key ← keys[segment * segmentLength + k]?
        (put workload (j * segmentLength + k) key).map .again) copied = some longer ∧
      Filled workload (segmentKey keys draws segmentIndex segmentLength)
        (j * segmentLength + segmentLength) longer := by
    apply forRange_total (fun k copied => Filled workload
      (segmentKey keys draws segmentIndex segmentLength) (j * segmentLength + k) copied) _ filled
    intro k copied inside filled
    have within := segment_within known inside
    have place : j * segmentLength + k < workload.length :=
      Nat.lt_of_lt_of_le (place_lt early inside) room
    have key := List.getElem?_eq_getElem within
    have value := (segmentKey_place inside picksSegment).trans key
    obtain ⟨longer, written, longerFilled⟩ := filled.next place value
    exact ⟨longer, by simp [within, written], longerFilled⟩
  refine ⟨longer, ?_, ?_⟩
  · rw [picked] at picksSegment
    simp only [Option.bind_eq_bind] at returns
    simp [drawn, picksSegment, returns]
  · rw [Nat.succ_mul]
    exact longerFilled

/-! ## The phases -/

/-- What the save, the overlapping move and the copy come to. -/
theorem shiftPhases_eq {keys : List UInt64} {phaseLength : ℕ}
    (short : 3 * phaseLength ≤ keys.length) :
    shiftPhases phaseLength keys = some (keys.rotate (3 * phaseLength)) := by
  obtain ⟨moved, moves, length, items⟩ :=
    @moveBackward_spec _ keys 0 (3 * phaseLength) keys.length (Nat.zero_le _) short le_rfl
  have room : (keys.drop (3 * phaseLength)).length ≤ moved.length := by
    rw [List.length_drop, length]
    omega
  obtain ⟨copied, copies, filled⟩ := copyToStart_spec room
  have rotated : copied = keys.rotate (3 * phaseLength) := by
    rw [List.rotate_eq_drop_append_take short]
    apply List.ext_getElem?
    intro index
    rw [filled.items, items, List.getElem?_append, List.getElem?_drop, List.length_drop]
    -- The saved part in front, the moved part behind it.
    by_cases front : index < keys.length - 3 * phaseLength
    · simp [front]
    · simp only [front, if_false, List.getElem?_take]
      by_cases inside : index < keys.length
      · rw [if_pos (by omega), if_pos (by omega)]
      · rw [if_neg (by omega), if_neg (by omega), List.getElem?_eq_none (by omega)]
  simp [shiftPhases, sliceFrom, short, moves, copies, rotated]

/-- The workload of each phase. -/
def workload (trace : RandomKeyTrace) : Fin 4 → List UInt64
  | 0 => trace.readKeysDistributionV1
  | 1 => trace.readKeysDistributionV2
  | 2 => trace.readKeysDistributionV3
  | 3 => trace.readKeysDistributionV4

/-- The keys as they are in a phase, each one a shift after the phase before. -/
def phaseKeys (trace : RandomKeyTrace) (phase : ℕ) : List UInt64 :=
  trace.keys.rotate (phase * (3 * (trace.keys.length / 4)))

theorem shiftPhases_phaseKeys (trace : RandomKeyTrace) (phase : ℕ) :
    shiftPhases (trace.keys.length / 4) (trace.phaseKeys phase)
      = some (trace.phaseKeys (phase + 1)) := by
  have length : (trace.phaseKeys phase).length = trace.keys.length := List.length_rotate _ _
  rw [shiftPhases_eq (by omega), phaseKeys, phaseKeys, List.rotate_rotate, Nat.add_mul phase,
    Nat.one_mul]

/-- The segments in the order they were shuffled to. -/
def shuffledSegments (draws : Draws) (nSegments : ℕ) : List ℕ :=
  draws.shuffle (List.range nSegments)

theorem localSequential_spec {trace : RandomKeyTrace} {readDatasetLength segmentLength : ℕ}
    (sized : trace.keys.length = trace.count) (positive : 1 ≤ segmentLength)
    (ranks : ∀ j < readDatasetLength / segmentLength,
      1 ≤ draws.samples j ∧ draws.samples j ≤ trace.count / segmentLength) :
    ∃ result, trace.createReadWorkloadWithLocalSequential4Workloads draws readDatasetLength
        segmentLength = some result ∧
      result.keys = trace.phaseKeys 3 ∧
      ∀ phase, Filled (resize 0 (trace.workload phase) readDatasetLength)
        (segmentKey (trace.phaseKeys phase) draws
          (shuffledSegments draws (trace.count / segmentLength)) segmentLength)
        (readDatasetLength / segmentLength * segmentLength) (result.workload phase) := by
  have picks := picks_of_perm (draws.shuffle_perm (List.range (trace.count / segmentLength))) ranks
  have copies : ∀ (phase : ℕ) (workload : List UInt64), ∃ copied,
      copySegments (trace.phaseKeys phase) (shuffledSegments draws (trace.count / segmentLength))
        ((List.range (readDatasetLength / segmentLength)).map draws.samples) segmentLength
        (readDatasetLength / segmentLength) (resize 0 workload readDatasetLength) = some copied ∧
      Filled (resize 0 workload readDatasetLength)
        (segmentKey (trace.phaseKeys phase) draws
          (shuffledSegments draws (trace.count / segmentLength)) segmentLength)
        (readDatasetLength / segmentLength * segmentLength) copied := by
    intro phase workload
    have length : (trace.phaseKeys phase).length = trace.count :=
      (List.length_rotate _ _).trans sized
    exact copySegments_spec (length.symm ▸ picks) (segments_room workload _ _)
  have first : trace.phaseKeys 0 = trace.keys := by simp [phaseKeys]
  obtain ⟨v1, copy1, filled1⟩ := copies 0 trace.readKeysDistributionV1
  obtain ⟨v2, copy2, filled2⟩ := copies 1 trace.readKeysDistributionV2
  obtain ⟨v3, copy3, filled3⟩ := copies 2 trace.readKeysDistributionV3
  obtain ⟨v4, copy4, filled4⟩ := copies 3 trace.readKeysDistributionV4
  have shift1 := shiftPhases_phaseKeys trace 0
  have shift2 := shiftPhases_phaseKeys trace 1
  have shift3 := shiftPhases_phaseKeys trace 2
  unfold createReadWorkloadWithLocalSequential4Workloads
  rw [first] at copy1 shift1
  unfold shuffledSegments at copy1 copy2 copy3 copy4
  simp only [divided_eq positive, numberSegments_eq, drawAll_eq, copy1, shift1, copy2, shift2, copy3, shift3, copy4,
    Option.bind_eq_bind, Option.bind_some, Nat.zero_add, Nat.reduceAdd]
  refine ⟨_, rfl, rfl, fun phase => ?_⟩
  match phase with
  | 0 => exact filled1
  | 1 => exact filled2
  | 2 => exact filled3
  | 3 => exact filled4

/-! ## The other generators -/

theorem segments_spec {trace : RandomKeyTrace} {readDatasetLength segmentLength : ℕ}
    (sized : trace.keys.length = trace.count) (positive : 1 ≤ segmentLength)
    (ranks : ∀ j < readDatasetLength / segmentLength,
      1 ≤ draws.samples j ∧ draws.samples j ≤ trace.count / segmentLength) (isSparseHotSpot : Bool) :
    ∃ segmentIndex result, trace.createReadWorkloadWithSegments draws readDatasetLength segmentLength
        isSparseHotSpot = some result ∧
      segmentIndex.Perm (List.range (trace.count / segmentLength)) ∧
      Filled (resize 0 trace.readKeys readDatasetLength)
        (segmentKey trace.keys draws segmentIndex segmentLength)
        (readDatasetLength / segmentLength * segmentLength) result.readKeys := by
  generalize order : (if isSparseHotSpot = true
    then draws.shuffle (List.range (trace.count / segmentLength))
    else List.range (trace.count / segmentLength)) = segmentIndex
  have all : segmentIndex.Perm (List.range (trace.count / segmentLength)) := by
    rw [← order]
    split
    · exact draws.shuffle_perm _
    · exact List.Perm.refl _
  have picks := picks_of_perm all ranks
  obtain ⟨copied, copies, filled⟩ :=
    copySegments_spec (sized.symm ▸ picks) (segments_room trace.readKeys _ _)
  unfold createReadWorkloadWithSegments
  simp only [divided_eq positive, numberSegments_eq, order, drawSegments_eq picks, copies,
    Option.bind_eq_bind, Option.bind_some]
  exact ⟨segmentIndex, _, rfl, all, filled⟩

section Ranks

variable {keys readKeys : List UInt64} {used : ℕ}

theorem drawn_getElem? {j : ℕ} (early : j < used) :
    ((List.range used).map draws.samples)[j]? = some (draws.samples j) := by
  simp [early]

theorem copyRanks_spec (room : used ≤ readKeys.length)
    (inside : ∀ j < used, draws.samples j < keys.length) :
    ∃ copied, copyRanks keys ((List.range used).map draws.samples) used readKeys = some copied ∧
      Filled readKeys (fun j => keys[draws.samples j]?) used copied := by
  apply forRange_fill room
  case known =>
    intro j early
    simp [inside j early]
  case turn =>
    intro j copied early _
    simp only [drawn_getElem? early, Option.bind_eq_bind, Option.bind_some]

theorem copyRanks_fails {bad : ℕ} (early : bad < used)
    (beyond : keys.length ≤ draws.samples bad) :
    copyRanks keys ((List.range used).map draws.samples) used readKeys = none := by
  apply forRange_fails early (fun _ _ => True)
  case keeps =>
    intro j copied before _
    simp only [drawn_getElem? (before.trans early), Option.bind_eq_bind, Option.bind_some]
    cases keys[draws.samples j]? with
    | none => exact Or.inl rfl
    | some key =>
      cases written : put copied j key with
      | none => simp [written]
      | some longer => simp [written]
  case fails =>
    intro copied _
    simp [drawn_getElem? early, beyond]
  case holds => trivial

end Ranks

/-- The ranks that a Zipfian workload can be made of: those below `count_`. -/
theorem zipfian_isSome_iff {trace : RandomKeyTrace} {readDatasetLength : ℕ}
    (sized : trace.keys.length = trace.count) :
    (trace.createReadWorkloadWithZipfianDistribution draws readDatasetLength).isSome
      ↔ ∀ j < readDatasetLength, draws.samples j < trace.count := by
  have length : (draws.shuffle trace.keys).length = trace.count :=
    (draws.shuffle_perm trace.keys).length_eq.trans sized
  have room : readDatasetLength ≤ (resize 0 trace.readKeys readDatasetLength).length :=
    (length_resize _ _ _).ge
  unfold createReadWorkloadWithZipfianDistribution
  simp only [drawAll_eq, Option.bind_eq_bind, Option.bind_some]
  constructor
  · intro returns
    by_contra outside
    simp only [not_forall, Nat.not_lt] at outside
    obtain ⟨bad, early, beyond⟩ := outside
    rw [copyRanks_fails early (length.le.trans beyond)] at returns
    cases returns
  · intro inside
    rw [← length] at inside
    obtain ⟨copied, returns, _⟩ := copyRanks_spec room inside
    simp [returns]

/-! ## The strided loops -/

/-- The place of the keys that entry `index` is read from, with so many keys to a stride. -/
def stridePlace (perStride interval index : ℕ) : ℕ := index / perStride + index % perStride * interval

section Strides

variable {perStride interval j k : ℕ}

theorem stridePlace_entry (within : k < perStride) :
    stridePlace perStride interval (j * perStride + k) = j + k * interval := by
  rw [stridePlace, place_div within, place_mod within]

/-- A place of a stride is a place of the keys. -/
theorem stride_within {count : ℕ} (known : j < interval) (within : k < count / interval) :
    j + k * interval < count :=
  Nat.add_comm j _ ▸ Nat.lt_of_lt_of_le (place_lt within known) (Nat.div_mul_le_self _ _)

end Strides

section Interval

variable {trace : RandomKeyTrace} {readDatasetLength interval : ℕ} {before : List UInt64}

/-- The key of an entry. -/
def strideKey (trace : RandomKeyTrace) (interval index : ℕ) : Option UInt64 :=
  trace.keys[stridePlace (trace.count / interval) interval index]?

/-- So many entries were tried, and those that have room are written. -/
def Strided (trace : RandomKeyTrace) (readDatasetLength interval : ℕ) (before : List UInt64)
    (tried : ℕ) (state : List UInt64 × ℕ) : Prop :=
  state.2 = min readDatasetLength tried ∧ Filled before (trace.strideKey interval) state.2 state.1

theorem strideTurn_spec (sized : trace.keys.length = trace.count)
    (room : before.length = readDatasetLength) {j : ℕ} (known : j < interval)
    {state : List UInt64 × ℕ}
    (strided : trace.Strided readDatasetLength interval before (j * (trace.count / interval)) state) :
    ∃ next, trace.strideTurn readDatasetLength interval j state = some next ∧
      trace.Strided readDatasetLength interval before ((j + 1) * (trace.count / interval)) next := by
  apply forRange_break (fun k => trace.Strided readDatasetLength interval before
    (j * (trace.count / interval) + k))
  case keeps =>
    intro k state within strided
    obtain ⟨current, filled⟩ := strided
    by_cases short : state.2 < readDatasetLength
    -- As long as there is room, every entry tried was written.
    · have here : state.2 = j * (trace.count / interval) + k := by omega
      have inside : j + k * interval < trace.keys.length := sized ▸ stride_within known within
      have key : trace.strideKey interval state.2 = some trace.keys[j + k * interval] := by
        rw [strideKey, here, stridePlace_entry within, List.getElem?_eq_getElem]
      obtain ⟨longer, written, longerFilled⟩ := filled.next (room ▸ short) key
      by_cases last : readDatasetLength ≤ state.2 + 1
      · have most : j * (trace.count / interval) + k < (j + 1) * (trace.count / interval) := by
          rw [Nat.succ_mul]
          omega
        refine Or.inr ⟨(longer, state.2 + 1), by simp [short, inside, written, last], ?_,
          longerFilled⟩
        show state.2 + 1 = _
        omega
      · refine Or.inl ⟨(longer, state.2 + 1), by simp [short, inside, written, last], ?_,
          longerFilled⟩
        show state.2 + 1 = _
        omega
    · -- Nothing is left to write, and the loop runs on without a write.
      exact Or.inl ⟨state, by simp [short], by omega, filled⟩
  case ends =>
    intro state strided
    rw [Nat.succ_mul]
    exact strided
  case holds => exact strided

theorem interval_spec (sized : trace.keys.length = trace.count) :
    ∃ result, trace.createReadWorkloadWithInterval readDatasetLength interval = some result ∧
      result.keys = trace.keys ∧
      Filled (resize 0 trace.readKeys readDatasetLength) (trace.strideKey interval)
        (min readDatasetLength (interval * (trace.count / interval))) result.readKeys := by
  have room : (resize 0 trace.readKeys readDatasetLength).length = readDatasetLength :=
    length_resize _ _ _
  obtain ⟨filled, returns, strided⟩ : ∃ filled, forRange interval (fun j state => do
        let next ← trace.strideTurn readDatasetLength interval j state
        if next.2 ≥ readDatasetLength then return .done next else return .again next)
        (resize 0 trace.readKeys readDatasetLength, 0) = some filled ∧
      trace.Strided readDatasetLength interval (resize 0 trace.readKeys readDatasetLength)
        (interval * (trace.count / interval)) filled := by
    apply forRange_break (fun j => trace.Strided readDatasetLength interval
      (resize 0 trace.readKeys readDatasetLength) (j * (trace.count / interval)))
    case keeps =>
      intro j state known strided
      obtain ⟨next, turn, nextStrided⟩ := strideTurn_spec sized room known strided
      by_cases full : readDatasetLength ≤ next.2
      · have more : (j + 1) * (trace.count / interval) ≤ interval * (trace.count / interval) :=
          Nat.mul_le_mul_right _ known
        have current := nextStrided.1
        refine Or.inr ⟨next, by simp [turn, full], ?_, nextStrided.2⟩
        omega
      · exact Or.inl ⟨next, by simp [turn, full], nextStrided⟩
    case ends => exact fun _ final => final
    case holds => exact ⟨by simp, .start⟩
  obtain ⟨current, entries⟩ := strided
  rw [current] at entries
  refine ⟨{ trace with readKeys := filled.1 }, ?_, rfl, entries⟩
  unfold createReadWorkloadWithInterval
  rw [returns]
  rfl

end Interval

/-! ## Safety -/

/-- The samples of a `zipfian_int_distribution<int>` are no greater than what was asked for. -/
theorem zipfianMax_le (bound : ℕ) : zipfianMax bound ≤ bound := by
  unfold zipfianMax
  rw [BitVec.toInt_eq_toNat_cond, BitVec.toNat_ofNat]
  have narrowed : bound % 2 ^ 32 ≤ bound := Nat.mod_le _ _
  split <;> omega

theorem ranks_of_declared {bound used : ℕ} (declared : draws.Declared bound used) :
    ∀ j < used, 1 ≤ draws.samples j ∧ draws.samples j ≤ bound := by
  intro j early
  obtain ⟨positive, most⟩ := declared j early
  exact ⟨positive, Int.ofNat_le.mp (Int.le_trans most (zipfianMax_le bound))⟩

/-- All four generators keep to their vectors, but for a Zipfian draw of the last rank. -/
theorem generators_safe_iff (trace : RandomKeyTrace) (readDatasetLength segmentLength interval : ℕ)
    (isSparseHotSpot : Bool) (zipfian segments sequential : Draws)
    (sized : trace.keys.length = trace.count) (positive : 1 ≤ segmentLength)
    (zipfianRange : zipfian.Declared trace.count readDatasetLength)
    (segmentsRange : segments.Declared (trace.count / segmentLength)
      (readDatasetLength / segmentLength))
    (sequentialRange : sequential.Declared (trace.count / segmentLength)
      (readDatasetLength / segmentLength)) :
    ((trace.createReadWorkloadWithZipfianDistribution zipfian readDatasetLength).isSome ∧
        (trace.createReadWorkloadWithInterval readDatasetLength interval).isSome ∧
        (trace.createReadWorkloadWithSegments segments readDatasetLength segmentLength
          isSparseHotSpot).isSome ∧
        (trace.createReadWorkloadWithLocalSequential4Workloads sequential readDatasetLength
          segmentLength).isSome) ↔
      ∀ j < readDatasetLength, zipfian.samples j ≠ trace.count := by
  have strided : (trace.createReadWorkloadWithInterval readDatasetLength interval).isSome := by
    obtain ⟨result, returns, _⟩ := @interval_spec trace readDatasetLength interval sized
    simp [returns]
  have segmented : (trace.createReadWorkloadWithSegments segments readDatasetLength segmentLength
      isSparseHotSpot).isSome := by
    obtain ⟨_, result, returns, _⟩ :=
      segments_spec sized positive (ranks_of_declared segmentsRange) isSparseHotSpot
    simp [returns]
  have shifted : (trace.createReadWorkloadWithLocalSequential4Workloads sequential
      readDatasetLength segmentLength).isSome := by
    obtain ⟨result, returns, _⟩ := localSequential_spec sized positive
      (ranks_of_declared sequentialRange)
    simp [returns]
  rw [zipfian_isSome_iff sized]
  constructor
  · intro safe j early
    exact (safe.1 j early).ne
  · intro missed
    refine ⟨fun j early => ?_, strided, segmented, shifted⟩
    exact Nat.lt_of_le_of_ne (ranks_of_declared zipfianRange j early).2 (missed j early)

/-- Two keys, of which only the first rank is drawn. -/
theorem generators_safe_first :
    ((fresh [7, 9]).keys.length = (fresh [7, 9]).count ∧ (Draws.always 1).Declared 2 2) ∧
      ((((fresh [7, 9]).createReadWorkloadWithZipfianDistribution (.always 1) 2).isSome ∧
        ((fresh [7, 9]).createReadWorkloadWithInterval 2 1).isSome ∧
        ((fresh [7, 9]).createReadWorkloadWithSegments (.always 1) 2 1 true).isSome ∧
        ((fresh [7, 9]).createReadWorkloadWithLocalSequential4Workloads (.always 1) 2 1).isSome) ↔
      ∀ j < 2, (Draws.always 1).samples j ≠ (fresh [7, 9]).count) := by
  have declared : (Draws.always 1).Declared 2 2 := by decide
  exact ⟨⟨rfl, declared⟩, generators_safe_iff (fresh [7, 9]) 2 1 1 true (.always 1) (.always 1)
    (.always 1) rfl (by decide) declared declared declared⟩

/-- One key, and its rank: index one of a vector of one key. -/
theorem zipfian_outside :
    (Draws.always 1).Declared (fresh [7]).count 1 ∧
      (fresh [7]).createReadWorkloadWithZipfianDistribution (.always 1) 1 = none :=
  ⟨by decide, rfl⟩

end RandomKeyTrace

end FdpRocks.Benchmark
