import FdpRocks.Scripts.SegmentedRuns

/-! # Resumed runs are stitched without a loss

* `stitchedCounters` — what the counters would have read in one process.
* `returns_scaledWa` — all that one run adds to the curve.
* `Stitched` — the curve after some runs, against the logs of these runs.
* `segmentedAlwa_stitched` — every curve that `segmented_alwa` returns.
-/

namespace FdpRocks.Scripts

open FdpRocks.Library.Pattern FdpRocks.Library.PythonText

/-! ## Logs of the second phase -/

/-- What a log says of the second phase. -/
structure PhaseLog where
  counters : List Sample
  progress : List ℕ

/-- The last progress value; zero without one, which the script refuses. -/
def PhaseLog.ended (log : PhaseLog) : ℕ := log.progress.getLastD 0

/-- The counters when the process stopped. -/
def PhaseLog.final (log : PhaseLog) : Sample := log.counters.getLastD 0

@[simp] theorem Sample.add_user (sample other : Sample) :
    (sample + other).user = sample.user + other.user := rfl

@[simp] theorem Sample.add_flush (sample other : Sample) :
    (sample + other).flush = sample.flush + other.flush := rfl

@[simp] theorem Sample.add_compact (sample other : Sample) :
    (sample + other).compact = sample.compact + other.compact := rfl

instance : AddMonoid Sample where
  add_assoc first second third := by ext <;> simp [Nat.add_assoc]
  zero_add sample := by ext <;> exact Nat.zero_add _
  add_zero sample := by ext <;> exact Nat.add_zero _
  nsmul := nsmulRec

/-- Flush and compaction bytes for each user byte. -/
def Sample.ratio (sample : Sample) : ℚ := (sample.flush + sample.compact) / sample.user

/-- What all these processes had counted when they stopped. -/
def carried (logs : List PhaseLog) : Sample := (logs.map PhaseLog.final).sum

/-- The counters of every block, had there been one process only. -/
def stitchedCounters (logs : List PhaseLog) : List (List Sample) :=
  logs.mapIdx fun index log => log.counters.map fun sample => carried (logs.take index) + sample

/-- User counters never fall within a log, and no log ends before the one before. -/
structure Steady (logs : List PhaseLog) : Prop where
  counters : ∀ log ∈ logs, (log.counters.map Sample.user).Pairwise (· ≤ ·)
  progress : (logs.map PhaseLog.ended).IsChain (· ≤ ·)

@[simp] theorem carried_append (logs : List PhaseLog) (log : PhaseLog) :
    carried (logs ++ [log]) = carried logs + log.final := by
  simp [carried]

theorem stitchedCounters_append (logs : List PhaseLog) (log : PhaseLog) :
    stitchedCounters (logs ++ [log])
      = stitchedCounters logs ++ [log.counters.map fun sample => carried logs + sample] := by
  have earlier : ∀ index < logs.length, (logs ++ [log]).take index = logs.take index :=
    fun index inside => List.take_append_of_le_length inside.le
  unfold stitchedCounters
  rw [List.mapIdx_concat]
  congr 1
  · apply List.ext_getElem
    · simp
    · intro index inside _
      rw [List.length_mapIdx] at inside
      simp [earlier index inside]
  · simp

namespace Steady

variable {logs : List PhaseLog} {log : PhaseLog}

theorem earlier (steady : Steady (logs ++ [log])) : Steady logs where
  counters each member := steady.counters each (List.mem_append_left _ member)
  progress := by
    have chain := steady.progress
    rw [List.map_append, List.isChain_append] at chain
    exact chain.1

theorem last (steady : Steady (logs ++ [log])) :
    (log.counters.map Sample.user).Pairwise (· ≤ ·) :=
  steady.counters log (List.mem_append_right _ List.mem_cons_self)

theorem onward (steady : Steady (logs ++ [log])) :
    ∀ previous ∈ logs.getLast?, previous.ended ≤ log.ended := by
  have chain := steady.progress
  rw [List.map_append, List.isChain_append] at chain
  intro previous member
  exact chain.2.2 previous.ended (by simp [Option.mem_def.mp member]) log.ended (by simp)

end Steady

/-! ## One run -/

section Run

variable {blocks : List Sample} {baseKeys writtenKeys : ℤ} {offset : Sample}

/-- The x values of a run. -/
def scaledX (blocks : List Sample) (baseKeys writtenKeys : ℤ) : List ℚ :=
  blocks.map fun sample =>
    ((baseKeys : ℚ) + writtenKeys * sample.user / (blocks.getLastD 0).user) / 1000000

theorem returns_trueDivide {dividend : ℤ} {divisor : ℕ} {quotient : ℚ}
    (returns : Returns (trueDivide dividend divisor) quotient) :
    0 < divisor ∧ quotient = dividend / divisor := by
  unfold trueDivide at returns
  split at returns
  next => exact absurd returns returns_throw
  next positive =>
    split at returns
    next =>
      rw [returns_pure] at returns
      exact ⟨Nat.pos_of_ne_zero positive, returns.symm⟩
    next => exact absurd returns returns_throw

theorem returns_keysReached {finalUser user : ℕ} {keys : ℚ}
    (returns : Returns (keysReached baseKeys writtenKeys finalUser user) keys) :
    keys = baseKeys + writtenKeys * user / finalUser := by
  rw [keysReached, returns_bind] at returns
  obtain ⟨share, divided, returns⟩ := returns
  obtain ⟨_, rfl⟩ := returns_trueDivide divided
  split at returns
  next =>
    rw [returns_pure] at returns
    rw [← returns]
    push_cast
    rfl
  next => exact absurd returns returns_throw

theorem returns_scaledPoint {finalUser : ℕ} {sample : Sample} {point : ℚ × ℚ}
    (returns : Returns (scaledPoint baseKeys writtenKeys finalUser offset sample) point) :
    0 < (offset + sample).user ∧
      point = (((baseKeys : ℚ) + writtenKeys * sample.user / finalUser) / 1000000,
        (offset + sample).ratio) := by
  rw [scaledPoint, returns_bind] at returns
  obtain ⟨reached, keys, returns⟩ := returns
  rw [returns_bind] at returns
  obtain ⟨ratio, divided, returns⟩ := returns
  obtain ⟨positive, rfl⟩ := returns_trueDivide divided
  rw [returns_keysReached keys, returns_pure] at returns
  refine ⟨positive, ?_⟩
  rw [← returns, Sample.ratio, Sample.add_flush, Sample.add_compact, Sample.add_user]
  push_cast
  ring_nf

theorem returns_scaledWa {x y : List ℚ} {next : Sample}
    (returns : Returns (scaledWa blocks baseKeys writtenKeys offset) (x, y, next)) :
    0 < (blocks.getLastD 0).user ∧ x = scaledX blocks baseKeys writtenKeys ∧
      y = (blocks.map (offset + ·)).map Sample.ratio ∧
      (∀ sample ∈ blocks, 0 < (offset + sample).user) ∧ next = offset + blocks.getLastD 0 := by
  unfold scaledWa at returns
  cases ends : blocks.getLast? with
  | none =>
    rw [ends] at returns
    exact absurd returns returns_throw
  | some last =>
    have final : blocks.getLastD 0 = last := by rw [List.getLastD_eq_getLast?, ends]; rfl
    rw [ends] at returns
    dsimp only at returns
    split at returns
    next zero => exact absurd returns returns_throw
    next positive =>
      rw [returns_bind] at returns
      obtain ⟨points, all, returns⟩ := returns
      obtain ⟨same, each⟩ := returns_mapM (fun _ _ point => (returns_scaledPoint point).2) all
      subst same
      rw [returns_pure, Prod.mk.injEq, Prod.mk.injEq] at returns
      obtain ⟨rfl, rfl, rfl⟩ := returns
      rw [final]
      refine ⟨Nat.pos_of_ne_zero (by simpa using positive), ?_, ?_, ?_, rfl⟩
      · simp [scaledX, ends]
      · simp
      · exact fun sample member => (returns_scaledPoint (each sample member)).1

theorem scaledX_getLast? (positive : 0 < (blocks.getLastD 0).user) :
    (scaledX blocks baseKeys writtenKeys).getLast?
      = some ((baseKeys + writtenKeys) / 1000000 : ℚ) := by
  have nonzero : ((blocks.getLastD 0).user : ℚ) ≠ 0 := by exact_mod_cast positive.ne'
  unfold scaledX
  rw [List.getLast?_map]
  cases ends : blocks.getLast? with
  | none =>
    rw [List.getLastD_eq_getLast?, ends] at positive
    exact absurd positive (lt_irrefl 0)
  | some last =>
    have final : blocks.getLastD 0 = last := by rw [List.getLastD_eq_getLast?, ends]; rfl
    rw [final] at nonzero
    -- The last block has written all keys: its quotient is one.
    rw [final, Option.map_some, mul_div_assoc, div_self nonzero, mul_one]

theorem user_le_final (rises : (blocks.map Sample.user).Pairwise (· ≤ ·)) {sample : Sample}
    (member : sample ∈ blocks) : sample.user ≤ (blocks.getLastD 0).user := by
  have nonempty : blocks.map Sample.user ≠ [] := by
    simpa using List.ne_nil_of_mem member
  have last := rises.rel_getLast (List.mem_map_of_mem member)
  rw [List.getLast_map] at last
  rw [List.getLastD_eq_getLast?, List.getLast?_eq_some_getLast (List.ne_nil_of_mem member)]
  exact last

theorem scaledX_bounds (rises : (blocks.map Sample.user).Pairwise (· ≤ ·))
    (positive : 0 < (blocks.getLastD 0).user) (forward : 0 ≤ writtenKeys) {x : ℚ}
    (member : x ∈ scaledX blocks baseKeys writtenKeys) :
    (baseKeys : ℚ) / 1000000 ≤ x ∧ x ≤ (baseKeys + writtenKeys) / 1000000 := by
  obtain ⟨sample, inBlocks, rfl⟩ := List.mem_map.mp member
  -- The final counter bounds every counter before it.
  have below : (sample.user : ℚ) ≤ (blocks.getLastD 0).user := by
    exact_mod_cast user_le_final rises inBlocks
  have written : (0 : ℚ) ≤ writtenKeys := by exact_mod_cast forward
  have final : (0 : ℚ) < (blocks.getLastD 0).user := by exact_mod_cast positive
  have low : 0 ≤ (writtenKeys : ℚ) * sample.user / (blocks.getLastD 0).user := by positivity
  have high : (writtenKeys : ℚ) * sample.user / (blocks.getLastD 0).user ≤ writtenKeys := by
    rw [div_le_iff₀ final]
    exact mul_le_mul_of_nonneg_left below written
  constructor <;> linarith

theorem scaledX_pairwise (rises : (blocks.map Sample.user).Pairwise (· ≤ ·))
    (forward : 0 ≤ writtenKeys) :
    (scaledX blocks baseKeys writtenKeys).Pairwise (· ≤ ·) := by
  have written : (0 : ℚ) ≤ writtenKeys := by exact_mod_cast forward
  rw [List.pairwise_map] at rises
  unfold scaledX
  rw [List.pairwise_map]
  apply rises.imp
  intro sample later smaller
  have users : (sample.user : ℚ) ≤ later.user := by exact_mod_cast smaller
  gcongr

end Run

/-! ## The x axis -/

/-- How many keys of the second phase are written when these runs have ended. -/
def reached (logs : List PhaseLog) : ℕ := (logs.map PhaseLog.ended).getLastD 0

@[simp] theorem reached_append (logs : List PhaseLog) (log : PhaseLog) :
    reached (logs ++ [log]) = log.ended := by
  simp [reached]

/-- The x values of the second phase, one part for each of its runs. -/
structure KeyAxis (phase1Keys : ℤ) (logs : List PhaseLog) (xParts : List (List ℚ)) : Prop where
  lengths : xParts.map List.length = logs.map fun log => log.counters.length
  ends : xParts.map List.getLast?
    = logs.map fun log => some (((phase1Keys : ℚ) + log.ended) / 1000000)
  bounded : Steady logs → ∀ x ∈ xParts.flatten, x ≤ ((phase1Keys : ℚ) + reached logs) / 1000000
  sorted : Steady logs → xParts.flatten.Pairwise (· ≤ ·)

namespace KeyAxis

variable {phase1Keys : ℤ} {logs : List PhaseLog} {xParts : List (List ℚ)} {log : PhaseLog}

theorem nil : KeyAxis phase1Keys [] [] := by
  constructor <;> simp

/-- A run is scaled between the end of the run before and its own. -/
theorem append (axis : KeyAxis phase1Keys logs xParts) (positive : 0 < log.final.user) :
    KeyAxis phase1Keys (logs ++ [log]) (xParts
      ++ [scaledX log.counters (phase1Keys + reached logs) (log.ended - reached logs)]) := by
  -- Only a steady run ends behind the run before; the ends hold without it.
  have forward : Steady (logs ++ [log]) → (0 : ℤ) ≤ log.ended - reached logs := by
    intro steady
    have onward := steady.onward
    unfold reached
    rw [List.getLastD_eq_getLast?, List.getLast?_map]
    cases before : logs.getLast? with
    | none => simp
    | some previous =>
      have ordered := onward previous before
      simpa using ordered
  constructor
  case lengths => simp [axis.lengths, scaledX]
  case ends =>
    have last : (scaledX log.counters (phase1Keys + reached logs)
        (log.ended - reached logs)).getLast? = _ := scaledX_getLast? positive
    rw [List.map_append, List.map_append, axis.ends, List.map_singleton, List.map_singleton, last]
    push_cast
    ring_nf
  case bounded =>
    intro steady x member
    rw [List.flatten_append, List.mem_append] at member
    have order : ((reached logs : ℤ) : ℚ) ≤ (log.ended : ℤ) := by
      exact_mod_cast sub_nonneg.mp (forward steady)
    rw [reached_append]
    cases member with
    | inl before =>
      have below := axis.bounded steady.earlier x before
      push_cast at order
      linarith
    | inr here =>
      rw [List.flatten_singleton] at here
      have below := (scaledX_bounds steady.last positive (forward steady) here).2
      push_cast at below
      linarith
  case sorted =>
    intro steady
    rw [List.flatten_append, List.flatten_singleton, List.pairwise_append]
    refine ⟨axis.sorted steady.earlier, scaledX_pairwise steady.last (forward steady), ?_⟩
    -- Across the seam: the run before ends where this one starts.
    intro x before later here
    have low := axis.bounded steady.earlier x before
    have high := (scaledX_bounds steady.last positive (forward steady) here).1
    push_cast at high
    linarith

/-- The axis ends where its last run does. -/
theorem last (axis : KeyAxis phase1Keys logs xParts) (nonempty : logs ≠ []) :
    xParts.flatten.getLast? = some (((phase1Keys : ℚ) + reached logs) / 1000000) := by
  obtain ⟨earlier, log, rfl⟩ := (List.eq_nil_or_concat logs).resolve_left nonempty
  have last := congrArg List.getLast? axis.ends
  rw [List.concat_eq_append, reached_append]
  cases xParts using List.reverseRecOn with
  | nil => simp at last
  | append_singleton parts part =>
    have here : part.getLast? = some (((phase1Keys : ℚ) + log.ended) / 1000000) := by
      simpa using last
    rw [List.flatten_append, List.flatten_singleton, List.getLast?_append, here, Option.some_or]

end KeyAxis

/-! ## All runs -/

section Runs

variable (unicode : Unicode)

/-- The log of a run that resumed the second phase. -/
def resumeLog (resume : LogFile) : PhaseLog where
  counters := (blocksFrom unicode 0 resume.readText).map Prod.snd
  progress := progressValues unicode resume.readText

/-- The second phase in a log that enters it at `split`. -/
def initialLog (initial : LogFile) (split : ℕ) : PhaseLog where
  counters := ((blocksFrom unicode 0 initial.readText).filter
    fun block => block.1 ≥ split).map Prod.snd
  progress := progressValues unicode (initial.readText.drop split)

/-- The curve after the runs with these logs; `x1` and `y1` are the first phase. -/
structure Stitched (phase1Keys : ℤ) (x1 y1 : List ℚ) (logs : List PhaseLog)
    (state : Stitching) : Prop where
  progress : ∀ log ∈ logs, log.progress ≠ []
  xParts : ∃ xParts, state.xParts = x1 :: xParts ∧ KeyAxis phase1Keys logs xParts
  yParts : state.yParts = y1 :: (stitchedCounters logs).map (List.map Sample.ratio)
  positive : ∀ part ∈ stitchedCounters logs, ∀ sample ∈ part, 0 < sample.user
  offset : state.offset = carried logs
  completed : state.completed = reached logs

variable {unicode} {phase1Keys : ℤ} {x1 y1 : List ℚ} {logs : List PhaseLog}
  {state next : Stitching}

/-- The first phase alone. -/
theorem Stitched.first (x1 y1 : List ℚ) :
    Stitched phase1Keys x1 y1 [] ⟨[x1], [y1], 0, 0⟩ where
  progress _ member := absurd member List.not_mem_nil
  xParts := ⟨[], rfl, .nil⟩
  yParts := rfl
  positive _ member := absurd member List.not_mem_nil
  offset := rfl
  completed := rfl

/-- One more run on top of a stitched curve. -/
theorem Stitched.append (stitched : Stitched phase1Keys x1 y1 logs state) {log : PhaseLog}
    (nonempty : log.progress ≠ []) {x y : List ℚ} {offset : Sample}
    (returns : Returns (scaledWa log.counters (phase1Keys + state.completed)
      (log.ended - state.completed) state.offset) (x, y, offset)) :
    Stitched phase1Keys x1 y1 (logs ++ [log])
      ⟨state.xParts ++ [x], state.yParts ++ [y], offset, log.ended⟩ := by
  -- What the curve carries over is what the logs say.
  rw [stitched.completed, stitched.offset] at returns
  obtain ⟨positive, rfl, rfl, counted, rfl⟩ := returns_scaledWa returns
  obtain ⟨xParts, before, axis⟩ := stitched.xParts
  constructor
  case progress =>
    intro each member
    cases List.mem_append.mp member with
    | inl earlier => exact stitched.progress each earlier
    | inr last => exact List.mem_singleton.mp last ▸ nonempty
  case xParts => exact ⟨_, by rw [before]; rfl, axis.append positive⟩
  case yParts => rw [stitched.yParts, stitchedCounters_append, List.map_append]; rfl
  case positive =>
    rw [stitchedCounters_append]
    intro part member sample inPart
    cases List.mem_append.mp member with
    | inl earlier => exact stitched.positive part earlier sample inPart
    | inr last =>
      rw [List.mem_singleton.mp last] at inPart
      obtain ⟨block, inLog, rfl⟩ := List.mem_map.mp inPart
      exact counted block inLog
  case offset => rw [carried_append]; rfl
  case completed => rw [reached_append]

/-- The search for blocks always comes to an end. -/
theorem returns_blocks {α : Type} {text : List Char} {rest : List (ℕ × Sample) → Script α} {value : α} :
    Returns (liftM (locatedBlocks unicode text) >>= rest) value ↔
      Returns (rest (blocksFrom unicode 0 text)) value := by
  rw [returns_bind]
  simp [locatedBlocks_eq]

theorem resumeTurn_stitched {resume : LogFile}
    (stitched : Stitched phase1Keys x1 y1 logs state)
    (returns : Returns (resumeTurn unicode phase1Keys state resume) next) :
    Stitched phase1Keys x1 y1 (logs ++ [resumeLog unicode resume]) next := by
  unfold resumeTurn at returns
  dsimp only at returns
  cases ends : (progressValues unicode resume.readText).getLast? with
  | none =>
    rw [ends] at returns
    exact absurd returns returns_throw
  | some finish =>
    have last : (resumeLog unicode resume).ended = finish := by
      rw [PhaseLog.ended, resumeLog, List.getLastD_eq_getLast?, ends]
      rfl
    have nonempty : (resumeLog unicode resume).progress ≠ [] := by
      intro none
      rw [show progressValues unicode resume.readText = [] from none] at ends
      cases ends
    rw [ends] at returns
    dsimp only at returns
    rw [returns_blocks, returns_bind] at returns
    obtain ⟨⟨x, y, offset⟩, scaled, returns⟩ := returns
    rw [returns_pure] at returns
    subst returns
    rw [← last] at scaled ⊢
    exact stitched.append nonempty scaled

theorem resumes_stitched {resumes : List LogFile}
    (stitched : Stitched phase1Keys x1 y1 logs state)
    (returns : Returns (resumes.foldlM (resumeTurn unicode phase1Keys) state) next) :
    Stitched phase1Keys x1 y1 (logs ++ resumes.map (resumeLog unicode)) next := by
  -- Each resumed log joins the logs before it on the right.
  induction resumes generalizing logs state with
  | nil =>
    rw [List.foldlM_nil, returns_pure] at returns
    subst returns
    rw [List.map_nil, List.append_nil]
    exact stitched
  | cons resume resumes inductionHypothesis =>
    rw [List.foldlM_cons, returns_bind] at returns
    obtain ⟨middle, turn, rest⟩ := returns
    have later := inductionHypothesis (resumeTurn_stitched stitched turn) rest
    rw [List.append_assoc] at later
    exact later

theorem returns_lastProgress {text : List Char} {phase2 : Bool} {value : ℕ}
    (returns : Returns (lastProgress unicode text phase2) value) :
    ∃ split, Returns (phase2Position unicode text) split ∧
      (progressValues unicode (if phase2 then text.drop split else text.take split)).getLast?
        = some value := by
  unfold lastProgress at returns
  rw [returns_bind] at returns
  obtain ⟨split, found, returns⟩ := returns
  refine ⟨split, found, ?_⟩
  dsimp only at returns
  split at returns
  next last ends =>
    rw [returns_pure] at returns
    rw [ends, returns]
  next none => exact absurd returns returns_throw

/-- The two-phase log on its own. -/
theorem initial_stitched {initial : LogFile} {split completed : ℕ} {x y : List ℚ} {offset : Sample}
    (ends : (progressValues unicode (initial.readText.drop split)).getLast? = some completed)
    (returns : Returns (scaledWa (initialLog unicode initial split).counters phase1Keys completed 0)
      (x, y, offset)) :
    Stitched phase1Keys x1 y1 [initialLog unicode initial split]
      ⟨[x1, x], [y1, y], offset, completed⟩ := by
  have ended : (initialLog unicode initial split).ended = completed := by
    rw [PhaseLog.ended, initialLog, List.getLastD_eq_getLast?, ends]
    rfl
  have nonempty : (initialLog unicode initial split).progress ≠ [] := by
    intro none
    rw [show progressValues unicode (initial.readText.drop split) = [] from none] at ends
    cases ends
  rw [← ended] at returns ⊢
  apply (Stitched.first x1 y1).append nonempty
  rw [add_zero, sub_zero]
  exact returns

/-- Every curve that `segmented_alwa` returns: behind the first phase, its y values
    are the ratios of the counters of one process, its x values end every run at the
    progress of that run, and they never fall when the logs are steady. -/
theorem segmentedAlwa_stitched {initial : LogFile} {resumes : List LogFile} {phase2Keys : ℤ}
    {x y : List ℚ}
    (returns : Returns (segmentedAlwa unicode initial resumes phase1Keys phase2Keys) (x, y)) :
    ∃ (split : ℕ) (x1 y1 : List ℚ) (xParts : List (List ℚ)), Returns (phase2Position unicode initial.readText) split ∧
      let phase1 := (blocksFrom unicode 0 initial.readText).filter fun block => block.1 < split
      let logs := initialLog unicode initial split :: resumes.map (resumeLog unicode)
      x = x1 ++ xParts.flatten ∧
      y = y1 ++ ((stitchedCounters logs).map (List.map Sample.ratio)).flatten ∧
      x1.length = phase1.length ∧ y1.length = phase1.length ∧
      (∀ part ∈ stitchedCounters logs, ∀ sample ∈ part, 0 < sample.user) ∧
      (∀ log ∈ logs, log.progress ≠ []) ∧
      xParts.map List.length = logs.map (fun log => log.counters.length) ∧
      xParts.map List.getLast?
        = logs.map (fun log => some (((phase1Keys : ℚ) + log.ended) / 1000000)) ∧
      x.getLast? = some (((phase1Keys : ℚ) + phase2Keys) / 1000000) ∧
      (Steady logs → xParts.flatten.Pairwise (· ≤ ·)) := by
  unfold segmentedAlwa at returns
  rw [returns_bind] at returns
  obtain ⟨split, position, returns⟩ := returns
  rw [returns_blocks, returns_bind] at returns
  obtain ⟨progress1, _, returns⟩ := returns
  rw [returns_bind] at returns
  obtain ⟨⟨x1, y1, _⟩, phase1, returns⟩ := returns
  rw [returns_bind] at returns
  obtain ⟨completed, progress2, returns⟩ := returns
  rw [returns_bind] at returns
  obtain ⟨⟨x2, y2, offset⟩, phase2, returns⟩ := returns
  rw [returns_bind] at returns
  obtain ⟨final, loop, returns⟩ := returns
  obtain ⟨again, samePosition, last⟩ := returns_lastProgress progress2
  -- Both reads of the initial log split it at the same place.
  cases returns_unique position samePosition
  have stitched := resumes_stitched (initial_stitched last phase2) loop
  obtain ⟨xParts, parts, axis⟩ := stitched.xParts
  split at returns
  next short => exact absurd returns returns_throw
  next complete =>
    rw [not_not] at complete
    rw [returns_pure, Prod.mk.injEq, parts, stitched.yParts] at returns
    obtain ⟨rfl, rfl⟩ := returns
    obtain ⟨_, rfl, rfl, _⟩ := returns_scaledWa phase1
    refine ⟨split, _, _, xParts, position, rfl, rfl, ?_, ?_, stitched.positive, stitched.progress,
      axis.lengths, axis.ends, ?_, axis.sorted⟩
    · simp [scaledX]
    · simp
    · have ends := axis.last (List.cons_ne_nil _ _)
      have all : ((reached _ : ℕ) : ℤ) = phase2Keys := stitched.completed.symm.trans complete
      rw [List.flatten_cons, List.getLast?_append, ends, Option.some_or, ← all]
      push_cast
      rfl

end Runs

/-! ## One resumed run -/

/-- Five keys in the first phase, four in the second. -/
def twoPhaseLog : LogFile where
  path := "run.log".toList
  content := "[timestamp=1] | keys: 5\nUser bytes written (ingest): 100\n".toList
    ++ "Flush bytes written: 50\nCompaction bytes written: 60\n".toList
    ++ "2: Phase2 -\n[timestamp=2] | keys: 4\nUser bytes written (ingest): 20\n".toList
    ++ "Flush bytes written: 10\nCompaction bytes written: 30\n".toList

/-- Five more in the second. -/
def resumedLog : LogFile where
  path := "resume.log".toList
  content := "[timestamp=3] | keys: 9\nUser bytes written (ingest): 14\n".toList
    ++ "Flush bytes written: 10\nCompaction bytes written: 35\n".toList

theorem segmentedAlwa_stitched_resumed :
    ∃ x y, Returns (segmentedAlwa .ascii twoPhaseLog [resumedLog] 5 9) (x, y) ∧
      x.getLast? = some (14 / 1000000) := by
  have returns : Returns (segmentedAlwa .ascii twoPhaseLog [resumedLog] 5 9)
      ([5 / 1000000, 9 / 1000000, 14 / 1000000], [11 / 10, 2, 5 / 2]) := by
    unfold Returns
    decide +kernel
  obtain ⟨_, _, _, _, _, _, _, _, _, _, _, _, _, last, _⟩ := segmentedAlwa_stitched returns
  refine ⟨_, _, returns, last.trans ?_⟩
  norm_num

end FdpRocks.Scripts
