import FdpRocks.Scripts.WaBlocksRoundTrip
import FdpRocks.Scripts.SegmentedRunsSoundness

/-! # Which logs the write-amplification series can be made of

Both converters look at the last block before they divide by the user bytes of
every block.  `Serves` is what they are meant to do with any log, and
`Divisible` the logs with which they do it.
-/

namespace FdpRocks.Scripts

open FdpRocks.Library FdpRocks.Library.PythonText FdpRocks.Benchmark

variable {unicode : Unicode}

/-! ## `wa_series` -/

/-- `wa_series` of `results_to_wa_csv.py`: the x and the y values. -/
def waSeries (unicode : Unicode) (path content : List Char) (baseKeys writtenKeys : ℤ) :
    Script (List ℚ × List ℚ) := do
  let blocks ← ExceptT.mk (waBlocks unicode path content)
  let finalUser := (blocks.getLastD 0).user
  let x ← blocks.mapM fun block => keysReached baseKeys writtenKeys finalUser block.user
  let y ← blocks.mapM fun block => trueDivide (block.flush + block.compact) block.user
  return (x.map (· / 1000000), y)

/-- The blocks that the text of a file holds. -/
def textBlocks (unicode : Unicode) (content : List Char) : List Sample :=
  (blocksFrom unicode 0 (universalNewlines content)).map Prod.snd

/-! ## What a series is for -/

variable {α : Type}

/-- A series has one y for each block, and a refusal is a `ValueError`. -/
def Serves (series : Script α) (y : α → List ℚ) (blocks : List Sample) : Prop :=
  (∃ value, Returns series value ∧ (y value).length = blocks.length) ∨
    ∃ message, series.run = some (.error (.valueError message))

/-- Nothing was written when the last block was printed, or there is none. -/
def Refused (blocks : List Sample) : Prop := ∀ last ∈ blocks.getLast?, last.user = 0

/-- A block whose divisors are positive and whose quotients do not overflow. -/
structure Divides (baseKeys writtenKeys : ℤ) (finalUser : ℕ) (offset block : Sample) : Prop where
  user : 0 < (offset + block).user
  ratio : Double.Fits (offset + block).ratio
  base : Double.Fits baseKeys
  share : Double.Fits (writtenKeys * block.user / finalUser)

/-- Logs that are refused, and those with which every division goes well. -/
def Divisible (baseKeys writtenKeys : ℤ) (offset : Sample) (blocks : List Sample) : Prop :=
  Refused blocks ∨
    ∀ block ∈ blocks, Divides baseKeys writtenKeys (blocks.getLastD 0).user offset block

instance (blocks : List Sample) : Decidable (Refused blocks) :=
  inferInstanceAs (Decidable (∀ last ∈ blocks.getLast?, last.user = 0))

theorem refused_iff {blocks : List Sample} : Refused blocks ↔ (blocks.getLastD 0).user = 0 := by
  unfold Refused
  rw [List.getLastD_eq_getLast?]
  cases blocks.getLast? with
  | none => simp; rfl
  | some last => simp

theorem finalUser_pos {blocks : List Sample} (accepted : ¬ Refused blocks) :
    0 < (blocks.getLastD 0).user :=
  Nat.pos_of_ne_zero fun zero => accepted (refused_iff.mpr zero)

theorem not_serves_of_fails {series : Script α} (fails : Fails series) {y : α → List ℚ}
    {blocks : List Sample} : ¬ Serves series y blocks := by
  obtain ⟨raised, other, rfl⟩ := fails
  rintro (⟨_, returns, _⟩ | ⟨message, raises⟩)
  · exact returns_throw returns
  · have same : raised = .valueError message := by simpa using raises
    exact other message same

@[simp] theorem serves_valueError {y : α → List ℚ} {blocks : List Sample} {message : List Char} :
    Serves (throw (.valueError message)) y blocks := by
  simp [Serves]

section Accepted

variable {y : α → List ℚ} {baseKeys writtenKeys : ℤ} {offset : Sample} {blocks : List Sample}

theorem serves_refused {message : List Char} (refused : Refused blocks) :
    Serves (throw (.valueError message)) y blocks ↔ Divisible baseKeys writtenKeys offset blocks := by
  simp [Divisible, refused]

/-- Past the test of the last block, everything depends on the divisions. -/
theorem serves_accepted {series : Script α} {value : α} (accepted : ¬ Refused blocks)
    (each : (y value).length = blocks.length)
    (returns : (∀ block ∈ blocks,
      Divides baseKeys writtenKeys (blocks.getLastD 0).user offset block) → series = pure value)
    (fails : (∃ block ∈ blocks,
      ¬ Divides baseKeys writtenKeys (blocks.getLastD 0).user offset block) → Fails series) :
    Serves series y blocks ↔ Divisible baseKeys writtenKeys offset blocks := by
  by_cases all : ∀ block ∈ blocks, Divides baseKeys writtenKeys (blocks.getLastD 0).user offset block
  · have serves : Serves series y blocks :=
      Or.inl ⟨value, returns all ▸ returns_pure.mpr rfl, each⟩
    exact ⟨fun _ => Or.inr all, fun _ => serves⟩
  · have other : ¬ Divisible baseKeys writtenKeys offset blocks := by
      rintro (refused | every)
      · exact accepted refused
      · exact all every
    push Not at all
    exact iff_of_false (not_serves_of_fails (fails all)) other

end Accepted

/-! ## Divisions -/

section Divisions

variable {dividend baseKeys writtenKeys : ℤ} {divisor finalUser user : ℕ}

theorem trueDivide_of_fits (positive : 0 < divisor) (fits : Double.Fits (dividend / divisor)) :
    trueDivide dividend divisor = pure ((dividend : ℚ) / divisor) := by
  rw [trueDivide, if_neg positive.ne', if_pos fits]

theorem trueDivide_fails (other : ¬ (0 < divisor ∧ Double.Fits (dividend / divisor))) :
    Fails (trueDivide dividend divisor) := by
  unfold trueDivide
  split
  next zero => exact fails_zeroDivision
  next nonzero =>
    rw [if_neg fun fits => other ⟨Nat.pos_of_ne_zero nonzero, fits⟩]
    exact fails_overflow

theorem keysReached_of_fits (positive : 0 < finalUser) (base : Double.Fits baseKeys)
    (share : Double.Fits (writtenKeys * user / finalUser)) :
    keysReached baseKeys writtenKeys finalUser user
      = pure ((baseKeys : ℚ) + writtenKeys * user / finalUser) := by
  have product : ((writtenKeys * user : ℤ) : ℚ) = writtenKeys * user := by push_cast; rfl
  rw [keysReached, trueDivide_of_fits positive (by rw [product]; exact share), pure_bind, if_pos base,
    product]

theorem keysReached_fails
    (other : ¬ (Double.Fits baseKeys ∧ Double.Fits (writtenKeys * user / finalUser))) :
    Fails (keysReached baseKeys writtenKeys finalUser user) := by
  have product : ((writtenKeys * user : ℤ) : ℚ) = writtenKeys * user := by push_cast; rfl
  unfold keysReached
  by_cases divides : 0 < finalUser ∧ Double.Fits ((writtenKeys * user : ℤ) / finalUser)
  · rw [trueDivide_of_fits divides.1 divides.2, pure_bind,
      if_neg fun base => other ⟨base, product ▸ divides.2⟩]
    exact fails_overflow
  · exact (trueDivide_fails divides).bind _

theorem trueDivide_cases (dividend : ℤ) (divisor : ℕ) :
    (∃ quotient, trueDivide dividend divisor = pure quotient) ∨ Fails (trueDivide dividend divisor) := by
  by_cases divides : 0 < divisor ∧ Double.Fits (dividend / divisor)
  · exact .inl ⟨_, trueDivide_of_fits divides.1 divides.2⟩
  · exact .inr (trueDivide_fails divides)

theorem keysReached_cases (positive : 0 < finalUser) (user : ℕ) :
    (∃ keys, keysReached baseKeys writtenKeys finalUser user = pure keys) ∨
      Fails (keysReached baseKeys writtenKeys finalUser user) := by
  by_cases fits : Double.Fits baseKeys ∧ Double.Fits (writtenKeys * user / finalUser)
  · exact .inl ⟨_, keysReached_of_fits positive fits.1 fits.2⟩
  · exact .inr (keysReached_fails fits)

end Divisions

/-! ## `results_to_wa_csv.py` -/

theorem waBlocks_text (path content : List Char) :
    ExceptT.mk (waBlocks unicode path content)
      = if Refused (textBlocks unicode content) then
          throw (.valueError ("No valid write-amplification samples in ".toList ++ path))
        else
          pure (textBlocks unicode content) := by
  have blocks := waBlocks_eq unicode path content
  rw [blocks]
  show ExceptT.mk (some (if (textBlocks unicode content).getLast?.all _ then _ else _)) = _
  have same : (textBlocks unicode content).getLast?.all (fun last => decide (last.user ≤ 0)) = true
      ↔ Refused (textBlocks unicode content) := by
    simp [Refused, Option.all_eq_true]
  by_cases refused : Refused (textBlocks unicode content)
  · rw [if_pos (same.mpr refused), if_pos refused]
    rfl
  · rw [if_neg (fun all => refused (same.mp all)), if_neg refused]
    rfl

section Series

variable {path content : List Char} {baseKeys writtenKeys : ℤ}

/-- The counters that the y value of a block divides. -/
theorem Sample.ratio_eq (block : Sample) :
    ((block.flush + block.compact : ℤ) : ℚ) / block.user = block.ratio := by
  rw [Sample.ratio]
  push_cast
  rfl

theorem waSeries_accepted (accepted : ¬ Refused (textBlocks unicode content)) :
    waSeries unicode path content baseKeys writtenKeys = (do
      let x ← (textBlocks unicode content).mapM fun block =>
        keysReached baseKeys writtenKeys ((textBlocks unicode content).getLastD 0).user block.user
      let y ← (textBlocks unicode content).mapM fun block =>
        trueDivide (block.flush + block.compact) block.user
      return (x.map (· / 1000000), y)) := by
  unfold waSeries
  rw [waBlocks_text, if_neg accepted, pure_bind]

theorem waSeries_returns (accepted : ¬ Refused (textBlocks unicode content))
    (divides : ∀ block ∈ textBlocks unicode content,
      Divides baseKeys writtenKeys ((textBlocks unicode content).getLastD 0).user 0 block) :
    waSeries unicode path content baseKeys writtenKeys
      = pure (scaledX (textBlocks unicode content) baseKeys writtenKeys,
          (textBlocks unicode content).map Sample.ratio) := by
  have final := finalUser_pos accepted
  have x : ∀ block ∈ textBlocks unicode content, _ = _ := fun block member =>
    keysReached_of_fits final (divides block member).base (divides block member).share
  have y : ∀ block ∈ textBlocks unicode content,
      trueDivide (block.flush + block.compact) block.user = pure block.ratio := by
    intro block member
    have user := (divides block member).user
    have ratio := (divides block member).ratio
    rw [zero_add] at user ratio
    rw [trueDivide_of_fits user (Sample.ratio_eq block ▸ ratio), Sample.ratio_eq]
  rw [waSeries_accepted accepted, mapM_of_forall x, mapM_of_forall y, pure_bind, pure_bind, scaledX,
    List.map_map]
  rfl

/-- All x values are there before the first y is divided. -/
theorem waSeries_fails (accepted : ¬ Refused (textBlocks unicode content))
    (other : ∃ block ∈ textBlocks unicode content,
      ¬ Divides baseKeys writtenKeys ((textBlocks unicode content).getLastD 0).user 0 block) :
    Fails (waSeries unicode path content baseKeys writtenKeys) := by
  have final := finalUser_pos accepted
  have x := fun block : Sample => @keysReached_cases baseKeys writtenKeys _ final block.user
  have y := fun block : Sample => trueDivide_cases (block.flush + block.compact) block.user
  rw [waSeries_accepted accepted]
  by_cases allReached : ∀ block ∈ textBlocks unicode content, Double.Fits baseKeys ∧
      Double.Fits (writtenKeys * block.user / ((textBlocks unicode content).getLastD 0).user)
  · have reached : ∀ block ∈ textBlocks unicode content, _ = _ := fun block member =>
      keysReached_of_fits final (allReached block member).1 (allReached block member).2
    rw [mapM_of_forall reached, pure_bind]
    -- then it is a y value that fails
    obtain ⟨block, member, overflows⟩ := other
    refine (mapM_fails (fun block _ => y block) ⟨block, member, trueDivide_fails ?_⟩).bind _
    rintro ⟨user, ratio⟩
    rw [Sample.ratio_eq] at ratio
    obtain ⟨base, share⟩ := allReached block member
    exact overflows ⟨by rwa [zero_add], by rwa [zero_add], base, share⟩
  · push Not at allReached
    obtain ⟨block, member, overflows⟩ := allReached
    refine (mapM_fails (fun block _ => x block) ⟨block, member, keysReached_fails ?_⟩).bind _
    rintro ⟨base, share⟩
    exact overflows base share

theorem waSeries_serves_iff :
    Serves (waSeries unicode path content baseKeys writtenKeys) Prod.snd (textBlocks unicode content)
      ↔ Divisible baseKeys writtenKeys 0 (textBlocks unicode content) := by
  by_cases refused : Refused (textBlocks unicode content)
  · have raises : waSeries unicode path content baseKeys writtenKeys
        = throw (.valueError ("No valid write-amplification samples in ".toList ++ path)) := by
      unfold waSeries
      rw [waBlocks_text, if_pos refused]
      rfl
    rw [raises]
    exact serves_refused refused
  · exact serves_accepted refused (List.length_map _) (waSeries_returns refused)
      (waSeries_fails refused)

end Series

/-! ## `legacy_logs_to_wa_csv.py` -/

section Scaled

variable {blocks : List Sample} {baseKeys writtenKeys : ℤ} {offset : Sample} {finalUser : ℕ}
  {block : Sample}

theorem Sample.offset_ratio_eq (offset block : Sample) :
    (((offset.flush + block.flush + offset.compact + block.compact : ℕ) : ℤ) : ℚ)
        / (offset.user + block.user : ℕ) = (offset + block).ratio := by
  simp only [Sample.ratio, Sample.add_user, Sample.add_flush, Sample.add_compact]
  push_cast
  ring_nf

theorem scaledPoint_of_divides (positive : 0 < finalUser)
    (divides : Divides baseKeys writtenKeys finalUser offset block) :
    scaledPoint baseKeys writtenKeys finalUser offset block
      = pure (((baseKeys : ℚ) + writtenKeys * block.user / finalUser) / 1000000,
          (offset + block).ratio) := by
  have user : 0 < offset.user + block.user := divides.user
  have ratio := divides.ratio
  rw [← Sample.offset_ratio_eq] at ratio
  unfold scaledPoint
  dsimp only
  rw [keysReached_of_fits positive divides.base divides.share, pure_bind, trueDivide_of_fits user ratio,
    pure_bind, Sample.offset_ratio_eq]

theorem scaledPoint_fails (positive : 0 < finalUser)
    (other : ¬ Divides baseKeys writtenKeys finalUser offset block) :
    Fails (scaledPoint baseKeys writtenKeys finalUser offset block) := by
  unfold scaledPoint
  dsimp only
  by_cases fits : Double.Fits baseKeys ∧ Double.Fits (writtenKeys * block.user / finalUser)
  · rw [keysReached_of_fits positive fits.1 fits.2, pure_bind]
    refine (trueDivide_fails ?_).bind _
    rintro ⟨user, ratio⟩
    rw [Sample.offset_ratio_eq] at ratio
    exact other ⟨user, ratio, fits.1, fits.2⟩
  · exact (keysReached_fails fits).bind _

theorem scaledWa_refused (refused : Refused blocks) :
    scaledWa blocks baseKeys writtenKeys offset
      = throw (.valueError "No valid write-amplification blocks".toList) := by
  unfold scaledWa
  cases ends : blocks.getLast? with
  | none => rfl
  | some last =>
    have zero : last.user = 0 := refused last ends
    simp [zero]

/-- The test of the last block is passed, and the loop is run. -/
theorem scaledWa_accepted (accepted : ¬ Refused blocks) :
    scaledWa blocks baseKeys writtenKeys offset = (do
      let points ← blocks.mapM
        (scaledPoint baseKeys writtenKeys (blocks.getLastD 0).user offset)
      return (points.map Prod.fst, points.map Prod.snd, offset + blocks.getLastD 0)) := by
  unfold scaledWa
  cases ends : blocks.getLast? with
  | none =>
    have refused : Refused blocks := by simp [Refused, ends]
    exact absurd refused accepted
  | some last =>
    have positive : ¬ last.user ≤ 0 := by
      intro zero
      refine accepted fun other same => ?_
      rw [ends, Option.mem_some_iff] at same
      rw [← same]
      exact Nat.le_zero.mp zero
    have final : blocks.getLastD 0 = last := by rw [List.getLastD_eq_getLast?, ends, Option.getD_some]
    dsimp only
    rw [if_neg positive, final]

theorem scaledWa_returns (accepted : ¬ Refused blocks)
    (divides : ∀ block ∈ blocks,
      Divides baseKeys writtenKeys (blocks.getLastD 0).user offset block) :
    scaledWa blocks baseKeys writtenKeys offset
      = pure (scaledX blocks baseKeys writtenKeys,
          (blocks.map (offset + ·)).map Sample.ratio, offset + blocks.getLastD 0) := by
  have final := finalUser_pos accepted
  rw [scaledWa_accepted accepted,
    mapM_of_forall fun block member => scaledPoint_of_divides final (divides block member), pure_bind]
  simp [scaledX, Function.comp_def]

theorem scaledWa_fails (accepted : ¬ Refused blocks)
    (other : ∃ block ∈ blocks,
      ¬ Divides baseKeys writtenKeys (blocks.getLastD 0).user offset block) :
    Fails (scaledWa blocks baseKeys writtenKeys offset) := by
  have final := finalUser_pos accepted
  obtain ⟨block, member, overflows⟩ := other
  rw [scaledWa_accepted accepted]
  refine (mapM_fails (fun block _ => ?_) ⟨block, member, scaledPoint_fails final overflows⟩).bind _
  by_cases divides : Divides baseKeys writtenKeys (blocks.getLastD 0).user offset block
  · exact .inl ⟨_, scaledPoint_of_divides final divides⟩
  · exact .inr (scaledPoint_fails final divides)

theorem scaledWa_serves_iff :
    Serves (scaledWa blocks baseKeys writtenKeys offset) (fun value => value.2.1) blocks
      ↔ Divisible baseKeys writtenKeys offset blocks := by
  by_cases refused : Refused blocks
  · rw [scaledWa_refused refused]
    exact serves_refused refused
  · exact serves_accepted refused (by simp) (scaledWa_returns refused) (scaledWa_fails refused)

end Scaled

/-! ## Both series -/

/-- Both series are returned or refused, but for logs that are not refused and have a
    block in them whose divisor is zero or one of whose quotients overflows. -/
theorem series_serve_iff (unicode : Unicode) (path content : List Char) (baseKeys writtenKeys : ℤ)
    (blocks : List Sample) (offset : Sample) :
    (Serves (waSeries unicode path content baseKeys writtenKeys) Prod.snd
        (textBlocks unicode content) ↔
          Divisible baseKeys writtenKeys 0 (textBlocks unicode content)) ∧
      (Serves (scaledWa blocks baseKeys writtenKeys offset) (fun value => value.2.1) blocks ↔
        Divisible baseKeys writtenKeys offset blocks) :=
  ⟨waSeries_serves_iff, scaledWa_serves_iff⟩

/-- The driver has printed once before the first write went through, and once later. -/
def earlyPrint : List (List Char × Tickers) := [([], ⟨0, 0, 0⟩), ([], ⟨100, 40, 60⟩)]

/-- `wa_blocks` accepts the log, and both series divide by the first block's zero. -/
theorem series_divide_by_zero :
    waBlocks .ascii "run.log".toList (logText earlyPrint [])
        = some (.ok [⟨0, 0, 0⟩, ⟨100, 40, 60⟩]) ∧
      (waSeries .ascii "run.log".toList (logText earlyPrint []) 0 10).run
        = some (.error .zeroDivisionError) ∧
      (scaledWa [⟨0, 0, 0⟩, ⟨100, 40, 60⟩] 0 10 0).run = some (.error .zeroDivisionError) := by
  have held : textBlocks .ascii (logText earlyPrint []) = [⟨0, 0, 0⟩, ⟨100, 40, 60⟩] :=
    blocksFrom_newlines .ascii (by decide) (by decide)
  have accepted : ¬ Refused [(⟨0, 0, 0⟩ : Sample), ⟨100, 40, 60⟩] := by decide
  have blocks := @waBlocks_text .ascii "run.log".toList (logText earlyPrint [])
  have series := @waSeries_accepted .ascii "run.log".toList (logText earlyPrint []) 0 10
  rw [held] at blocks series
  rw [if_neg accepted] at blocks
  refine ⟨blocks, ?_, ?_⟩
  · rw [series accepted]
    decide +kernel
  · decide +kernel

end FdpRocks.Scripts
