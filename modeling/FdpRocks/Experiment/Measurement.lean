import FdpRocks.Benchmark.WorkerReports
import FdpRocks.Experiment.RunLog
import FdpRocks.Scripts.DeviceSamplesRoundTrip
import FdpRocks.Scripts.ModeSeriesSoundness

/-! # From two runs to the table of the figure

Both phases of an experiment write their logs, and the sampler writes its own.
`results_to_wa_csv.py` makes curves of the three.

* `progressPoints_phases` — the progress of the phases, one behind the other.
* `modeSeries_measured` — the curves of one mode.
* `waTable_measured` — the rows of the table.
-/

namespace FdpRocks.Experiment

open FdpRocks.Benchmark FdpRocks.Library FdpRocks.Library.Numerals
open FdpRocks.Library.PythonText FdpRocks.Library.Transition FdpRocks.Scripts

/-! ## One phase -/

/-- A finished run of one worker without a fault, by a clock that runs forward, and
    the counters that it has printed: user bytes were there from the first block on
    and did not go back. -/
structure PhaseRun where
  run : WriteRun
  state : Woven (Option run.Worker) Event
  reachable : Reachable run.system state
  finished : ∀ party, state.pending party = []
  single : run.flags.workerThreads = 1
  ok : run.AllOk
  fits : run.baseKeys.toNat + run.flags.num.toNat < 2 ^ 64
  forward : ∀ tid, Monotone fun call => seconds ((run.outside tid).timeOfDay call)
  plain : ∀ party message, (party, Event.print message) ∈ state.done → Plain progressMarker message
  held : List (List Tickers)
  holds : List.Forall₂ (fun entry tickers => Adds entry.2 tickers) state.done held
  someBlocks : held.flatten ≠ []
  written : ∀ tickers ∈ held.flatten, 0 < tickers.userBytes
  grows : held.flatten.Pairwise fun tickers later => tickers.userBytes ≤ later.userBytes

namespace PhaseRun

variable (phase : PhaseRun)

def log : List Char := phase.run.log phase.state.done

/-- The progress that the phase has printed. -/
def points : List (ℚ × ℕ) := phase.state.done.filterMap fun entry => reportedPoint entry.2

/-- The blocks that the phase has printed. -/
def blocks : List Sample := phase.held.flatten.map sample

def firstKey : ℕ := phase.run.baseKeys.toNat

def lastKey : ℕ := phase.run.baseKeys.toNat + phase.run.flags.num.toNat

theorem filePoints_eq (unicode : Unicode) : filePoints unicode phase.log = pure phase.points :=
  filePoints_log unicode phase.run phase.state.done phase.plain

def worker : phase.run.Worker := ⟨0, by rw [phase.single]; decide⟩

/-- Only the worker shows progress. -/
theorem points_worker : phase.points = (phase.run.trace phase.worker).filterMap reportedPoint := by
  have only : ∀ entry ∈ phase.state.done, entry.1 ≠ some phase.worker →
      reportedPoint entry.2 = none := by
    rintro ⟨party, event⟩ member other
    cases party with
    | some tid =>
      have one : phase.run.flags.workerThreads.toNat = 1 := by rw [phase.single]; rfl
      have same : tid = phase.worker := by
        apply Fin.ext
        have bound := tid.isLt
        show (tid : ℕ) = 0
        omega
      exact absurd (congrArg some same) other
    | none =>
      obtain ⟨text, _, rfl⟩ := List.mem_map.mp (weaving_mem phase.reachable member)
      rfl
  have whole : actionsOf (some phase.worker) phase.state.done = phase.run.trace phase.worker :=
    weaving_finished phase.reachable phase.finished _
  rw [points, filterMap_actionsOf only, whole]

theorem points_times : phase.points.map Prod.fst
    = ((reports (phase.run.trace phase.worker)).filterMap Report.time?).map seconds := by
  rw [points_worker, reports, List.filterMap_filterMap, List.map_filterMap, List.map_filterMap]
  apply List.filterMap_congr
  intro event _
  cases event with
  | write => rfl
  | print message => cases message <;> rfl

theorem points_keys : phase.points.map Prod.snd
    = (phase.run.trace phase.worker).filterMap Event.completedKeys := by
  rw [points_worker, List.map_filterMap]
  apply List.filterMap_congr
  intro event _
  cases event with
  | write => rfl
  | print message => cases message <;> rfl

/-- Times do not go back. -/
theorem points_byTime : phase.points.Pairwise fun point later => point.1 ≤ later.1 := by
  obtain ⟨writer, returns, reporting, _⟩ := doSimpleRandomWrite_reports phase.run.flags
    phase.run.baseKeys phase.worker (phase.run.outside phase.worker) phase.run.someBatch
    (phase.run.keys phase.worker)
  have trace : phase.run.trace phase.worker = writer.trace := by
    rw [WriteRun.trace, returns]
    rfl
  obtain ⟨calls, times, ascending, _⟩ := reporting.times
  have ordered : (phase.points.map Prod.fst).Pairwise (· ≤ ·) := by
    rw [points_times, trace]
    show (writer.times.map seconds).Pairwise _
    rw [times, List.map_map, List.pairwise_map]
    exact ascending.imp fun before => phase.forward phase.worker before.le
  exact List.pairwise_map.mp ordered

/-- The keys of the points are those that are due. -/
theorem points_due : phase.points.map Prod.snd
    = (due (writeCounts phase.run.flags phase.run.flags.num.toNat)).map
      (phase.run.baseKeys.toNat + ·) := by
  have share := phase.run.single_share phase.single phase.worker
  obtain ⟨_, _, _, progress⟩ := (phase.run.trace_spec phase.worker).sound (phase.ok _)
  rw [points_keys, progress, share, dueKeys_eq phase.fits]

/-- Keys rise, behind those of the phases before. -/
theorem points_byKeys : (phase.points.Pairwise fun point later => point.2 ≤ later.2) ∧
    ∀ point ∈ phase.points, phase.firstKey < point.2 ∧ point.2 ≤ phase.lastKey := by
  have keys := phase.points_due
  have counts : (due (writeCounts phase.run.flags phase.run.flags.num.toNat)).Pairwise (· < ·) :=
    (writeCounts_pairwise phase.run.flags phase.run.someBatch _).filter _
  constructor
  · have ordered : (phase.points.map Prod.snd).Pairwise (· ≤ ·) := by
      rw [keys, List.pairwise_map]
      exact counts.imp fun less => Nat.add_le_add_left less.le _
    exact List.pairwise_map.mp ordered
  · intro point member
    have listed : point.2 ∈ phase.points.map Prod.snd := List.mem_map_of_mem member
    rw [keys] at listed
    obtain ⟨count, known, same⟩ := List.mem_map.mp listed
    have small := le_of_mem_writeCounts (List.mem_filter.mp known).1
    have reached : IsDue count := of_decide_eq_true (List.mem_filter.mp known).2
    rw [← same]
    exact ⟨Nat.lt_add_of_pos_right reached.2, Nat.add_le_add_left small _⟩

theorem textBlocks_eq (unicode : Unicode) : textBlocks unicode phase.log = phase.blocks :=
  textBlocks_log unicode phase.run phase.holds

/-- The last of the user bytes. -/
theorem lastUser : ∃ last ∈ phase.blocks, phase.blocks.getLastD 0 = last ∧ 0 < last.user ∧
    ∀ block ∈ phase.blocks, block.user ≤ last.user := by
  obtain ⟨earlier, last, split⟩ := (List.eq_nil_or_concat phase.held.flatten).resolve_left phase.someBlocks
  rw [List.concat_eq_append] at split
  have member : last ∈ phase.held.flatten := by simp [split]
  have positive : 0 < last.userBytes := phase.written last member
  refine ⟨sample last, List.mem_map_of_mem member, ?_, UInt64.lt_iff_toNat_lt.mp positive, ?_⟩
  · rw [blocks, split, List.map_append, List.getLastD_eq_getLast?]
    simp
  · intro block known
    obtain ⟨tickers, knownTickers, rfl⟩ := List.mem_map.mp known
    have grown := phase.grows
    rw [split, List.pairwise_append] at grown
    rw [split] at knownTickers
    cases List.mem_append.mp knownTickers with
    | inl old => exact UInt64.le_iff_toNat_le.mp (grown.2.2 tickers old last List.mem_cons_self)
    | inr new => rw [List.mem_singleton.mp new]

/-- Counters and keys of 64 bits are far from the largest double. -/
theorem divides {baseKeys writtenKeys : ℕ} (baseFits : baseKeys < 2 ^ 64)
    (writtenFits : writtenKeys < 2 ^ 64) {block : Sample} (known : block ∈ phase.blocks) :
    Divides baseKeys writtenKeys (phase.blocks.getLastD 0).user 0 block := by
  have small : ∀ {value : ℚ}, 0 ≤ value → value ≤ 2 ^ 64 + 2 ^ 64 → Double.Fits value := by
    intro value nonneg atMost
    apply Double.fits_of_le
    rw [abs_of_nonneg nonneg]
    exact atMost.trans (by decide +kernel)
  obtain ⟨last, _, isLast, _, greatest⟩ := phase.lastUser
  have before := greatest block known
  obtain ⟨tickers, knownTickers, rfl⟩ := List.mem_map.mp known
  have user : 0 < tickers.userBytes.toNat := UInt64.lt_iff_toNat_lt.mp (phase.written _ knownTickers)
  have one : (1 : ℚ) ≤ (sample tickers).user := by exact_mod_cast user
  have flush : ((sample tickers).flush : ℚ) ≤ 2 ^ 64 := by exact_mod_cast (UInt64.toNat_lt _).le
  have compact : ((sample tickers).compact : ℚ) ≤ 2 ^ 64 := by exact_mod_cast (UInt64.toNat_lt _).le
  have written : (writtenKeys : ℚ) ≤ 2 ^ 64 := by exact_mod_cast writtenFits.le
  constructor
  · rw [zero_add]
    exact user
  · rw [zero_add, Sample.ratio]
    refine small (by positivity) ((div_le_self (by positivity) one).trans (by linarith))
  · have base : (baseKeys : ℚ) ≤ 2 ^ 64 := by exact_mod_cast baseFits.le
    refine small (by positivity) ?_
    push_cast
    linarith
  · rw [isLast]
    refine small (by positivity) ?_
    -- no block has more user bytes than the last one, so no key lies beyond the total
    have share : ((sample tickers).user : ℚ) / last.user ≤ 1 :=
      div_le_one_of_le₀ (by exact_mod_cast before) (by positivity)
    push_cast
    rw [mul_div_assoc]
    calc (writtenKeys : ℚ) * ((sample tickers).user / last.user)
      _ ≤ writtenKeys := mul_le_of_le_one_right (by positivity) share
      _ ≤ 2 ^ 64 + 2 ^ 64 := by linarith

theorem waSeries_eq (unicode : Unicode) (path : List Char) {baseKeys writtenKeys : ℕ}
    (baseFits : baseKeys < 2 ^ 64) (writtenFits : writtenKeys < 2 ^ 64) :
    waSeries unicode path phase.log baseKeys writtenKeys
      = pure (scaledX phase.blocks baseKeys writtenKeys, phase.blocks.map Sample.ratio) := by
  obtain ⟨last, _, isLast, positive, _⟩ := phase.lastUser
  have accepted : ¬ Refused (textBlocks unicode phase.log) := by
    rw [refused_iff, textBlocks_eq, isLast]
    exact positive.ne'
  have returns := @waSeries_returns unicode path phase.log baseKeys writtenKeys accepted
  rw [textBlocks_eq] at returns
  exact returns fun block known => phase.divides baseFits writtenFits known

/-- The blocks of a phase come from left to right, between its first and its last key. -/
theorem scaledX_rising (baseKeys writtenKeys : ℕ) :
    (scaledX phase.blocks baseKeys writtenKeys).Pairwise (· ≤ ·) ∧
    ∀ x ∈ scaledX phase.blocks baseKeys writtenKeys,
      (baseKeys : ℚ) / 1000000 ≤ x ∧ x ≤ (baseKeys + writtenKeys : ℚ) / 1000000 := by
  obtain ⟨last, _, isLast, positive, greatest⟩ := phase.lastUser
  have divisor : (0 : ℚ) < last.user := Nat.cast_pos.mpr positive
  have keys : (0 : ℚ) ≤ writtenKeys := Nat.cast_nonneg _
  unfold scaledX
  rw [isLast]
  constructor
  · rw [List.pairwise_map, blocks, List.pairwise_map]
    refine phase.grows.imp fun ordered => ?_
    have less : ((sample _).user : ℚ) ≤ ((sample _).user : ℚ) :=
      Nat.cast_le.mpr (UInt64.le_iff_toNat_le.mp ordered)
    push_cast
    gcongr
  · intro x member
    obtain ⟨block, known, rfl⟩ := List.mem_map.mp member
    have less : (block.user : ℚ) ≤ last.user := Nat.cast_le.mpr (greatest block known)
    have share : (writtenKeys : ℚ) * block.user / last.user ≤ writtenKeys :=
      div_le_of_le_mul₀ divisor.le keys (mul_le_mul_of_nonneg_left less keys)
    have nonneg : 0 ≤ (writtenKeys : ℚ) * block.user / last.user := by positivity
    push_cast
    constructor
    · gcongr
      linarith
    · gcongr

end PhaseRun

/-! ## Both phases -/

theorem sortPoints_eq {points : List (ℚ × ℕ)}
    (rising : points.Pairwise fun point later => point.1 ≤ later.1 ∧ point.2 ≤ later.2) :
    sortPoints points = points := by
  refine List.Pairwise.insertionSort_eq (rising.imp fun ordered => ?_)
  exact Prod.Lex.toLex_le_toLex'.2 ⟨ordered.1, fun _ => ordered.2⟩

/-- What one experiment leaves behind in one mode. -/
structure ModeRun (unicode : Unicode) (stamp : ℕ → ℚ) (phase1Keys phase2Keys : ℕ) where
  phase1 : PhaseRun
  phase2 : PhaseRun
  stats : SampledLog unicode
  empty : phase1.firstKey = 0
  keys1 : phase1.lastKey = phase1Keys
  behind : phase2.firstKey = phase1Keys
  keys2 : phase2.lastKey = phase1Keys + phase2Keys
  after : ∀ point ∈ phase1.points, ∀ later ∈ phase2.points, point.1 ≤ later.1
  someProgress : phase1.points ++ phase2.points ≠ []
  twoSamples : 2 ≤ (stats.samples stamp).length

namespace ModeRun

variable {unicode : Unicode} {stamp : ℕ → ℚ} {phase1Keys phase2Keys : ℕ}
  (mode : ModeRun unicode stamp phase1Keys phase2Keys)

def files : ModeFiles := ⟨mode.phase1.log, mode.phase2.log, mode.stats.content⟩

def progress : List (ℚ × ℕ) := mode.phase1.points ++ mode.phase2.points

def samples : List DeviceSample := sortSamples (mode.stats.samples stamp)

/-- The amplification of the store, block by block. -/
def alwaValues : List ℚ := mode.phase1.blocks.map Sample.ratio ++ mode.phase2.blocks.map Sample.ratio

/-- The amplification of the device; none before the first sample that counts. -/
def dlwaValues : List ℚ :=
  match mode.progress.head?, mode.samples.head? with
  | some point, some first => 1 :: (countedSamples point.1 first mode.samples).map first.ratio
  | _, _ => [1]

theorem range : ∀ point ∈ mode.progress, 0 < point.2 ∧ point.2 ≤ phase1Keys + phase2Keys := by
  obtain ⟨_, range1⟩ := mode.phase1.points_byKeys
  obtain ⟨_, range2⟩ := mode.phase2.points_byKeys
  rw [mode.empty, mode.keys1] at range1
  rw [mode.behind, mode.keys2] at range2
  intro point member
  cases List.mem_append.mp member with
  | inl early =>
    obtain ⟨above, below⟩ := range1 point early
    omega
  | inr late =>
    obtain ⟨above, below⟩ := range2 point late
    omega

theorem rising : mode.progress.Pairwise fun point later => point.1 ≤ later.1 ∧ point.2 ≤ later.2 := by
  obtain ⟨keys1, range1⟩ := mode.phase1.points_byKeys
  obtain ⟨keys2, range2⟩ := mode.phase2.points_byKeys
  have next : mode.phase1.lastKey = mode.phase2.firstKey := mode.keys1.trans mode.behind.symm
  rw [progress, List.pairwise_append]
  refine ⟨mode.phase1.points_byTime.and keys1, mode.phase2.points_byTime.and keys2, ?_⟩
  intro point member later laterMember
  refine ⟨mode.after point member later laterMember, ?_⟩
  exact (range1 point member).2.trans (next.le.trans (range2 later laterMember).1.le)

/-- Nothing has to be sorted: the second phase comes behind the first one. -/
theorem progressPoints_phases :
    progressPoints unicode [mode.phase1.log, mode.phase2.log] = pure mode.progress := by
  unfold progressPoints
  have files : [mode.phase1.log, mode.phase2.log].mapM (filePoints unicode)
      = pure [mode.phase1.points, mode.phase2.points] := by
    rw [List.mapM_cons, List.mapM_cons, mode.phase1.filePoints_eq, mode.phase2.filePoints_eq]
    rfl
  have flat : [mode.phase1.points, mode.phase2.points].flatten = mode.progress := by
    rw [List.flatten_cons, List.flatten_cons, List.flatten_nil, List.append_nil]
    rfl
  have some : mode.progress ≠ [] := mode.someProgress
  rw [files, pure_bind, flat, if_neg some, sortPoints_eq mode.rising]

theorem deviceSamples_eq {float : List Char → Except Raised ℚ}
    (reads : ∀ nanoseconds, float (pointed 9 nanoseconds) = .ok (stamp nanoseconds))
    (path : List Char) : deviceSamples unicode float path mode.stats.content = pure mode.samples := by
  unfold deviceSamples
  rw [fileSamples_content reads, pure_bind, if_neg (not_lt.mpr mode.twoSamples)]
  rfl

variable {npInterp : ℚ → ℚ → List (ℚ × ℚ) → ℚ → ℚ} (linear : PiecewiseLinear npInterp)

include linear

theorem alwa_measured : ∃ curve : ℚ → ℚ,
    (∀ targets, resample npInterp
        (scaledX mode.phase1.blocks 0 phase1Keys ++ scaledX mode.phase2.blocks phase1Keys phase2Keys)
        mode.alwaValues targets = pure (targets.map curve)) ∧
      Measured mode.alwaValues ((phase1Keys + phase2Keys : ℚ) / 1000000) curve := by
  obtain ⟨rising1, within1⟩ := mode.phase1.scaledX_rising 0 phase1Keys
  obtain ⟨rising2, within2⟩ := mode.phase2.scaledX_rising phase1Keys phase2Keys
  obtain ⟨last, member, _⟩ := mode.phase1.lastUser
  have each : (scaledX mode.phase1.blocks 0 phase1Keys
      ++ scaledX mode.phase2.blocks phase1Keys phase2Keys).length = mode.alwaValues.length := by
    simp [alwaValues, scaledX]
  have nonempty : mode.alwaValues ≠ [] := by
    have some : mode.phase1.blocks ≠ [] := List.ne_nil_of_mem member
    simp [alwaValues, some]
  have points : (scaledX mode.phase1.blocks 0 phase1Keys
      ++ scaledX mode.phase2.blocks phase1Keys phase2Keys).zip mode.alwaValues ≠ [] := by
    intro none
    rcases List.zip_eq_nil_iff.mp none with noX | noY
    · rw [noX] at each
      exact nonempty (List.eq_nil_of_length_eq_zero each.symm)
    · exact nonempty noY
  obtain ⟨curve, values, through⟩ := resample_curve linear points
  refine ⟨curve, values, through.measured each nonempty ?_ ?_⟩
  · refine List.pairwise_append.mpr ⟨by exact_mod_cast rising1, rising2, ?_⟩
    -- the first phase ends where the second one begins
    intro x early y late
    have before := (within1 x (by exact_mod_cast early)).2
    have behind := (within2 y late).1
    push_cast at before
    rw [zero_add] at before
    exact before.trans behind
  · intro x anywhere
    rcases List.mem_append.mp anywhere with early | late
    · have before := (within1 x (by exact_mod_cast early)).2
      have keys : (0 : ℚ) ≤ phase2Keys := Nat.cast_nonneg _
      push_cast at before
      linarith
    · exact (within2 x late).2

theorem dlwa_measured : ∃ x, dlwaCurve npInterp mode.progress mode.samples = pure (x, mode.dlwaValues) ∧
    ∃ curve : ℚ → ℚ,
      (∀ targets, resample npInterp x mode.dlwaValues targets = pure (targets.map curve)) ∧
      Measured mode.dlwaValues ((phase1Keys + phase2Keys : ℚ) / 1000000) curve := by
  have someProgress : mode.progress ≠ [] := mode.someProgress
  have someSamples : mode.samples ≠ [] := by
    apply List.ne_nil_of_length_pos
    rw [samples, sortSamples, (List.perm_insertionSort _ _).length_eq]
    exact lt_of_lt_of_le (by decide) mode.twoSamples
  have isFirst := List.head?_eq_some_head someProgress
  have isFirstSample := List.head?_eq_some_head someSamples
  have isLast := List.getLast?_eq_some_getLast someProgress
  have progressing : Progressing mode.progress (mode.progress.getLast someProgress) :=
    ⟨isLast, mode.rising.imp And.left, mode.rising.imp And.right⟩
  have someKeys := (mode.range _ (List.head_mem someProgress)).1
  have byTime : mode.samples.Pairwise fun sample later => sample.timestamp ≤ later.timestamp :=
    sortSamples_byTime _
  have values : mode.dlwaValues = 1 :: (countedSamples (mode.progress.head someProgress).1
      (mode.samples.head someSamples) mode.samples).map (mode.samples.head someSamples).ratio := by
    rw [dlwaValues, isFirst, isFirstSample]
  obtain ⟨rising, within⟩ := deviceCurve_rising linear progressing byTime
    (mode.progress.head someProgress).1 (mode.samples.head someSamples)
  have points : (0 :: (countedSamples (mode.progress.head someProgress).1
      (mode.samples.head someSamples) mode.samples).map fun sample =>
        keysAt npInterp mode.progress (mode.progress.getLast someProgress) sample / 1000000).zip
      mode.dlwaValues ≠ [] := by
    rw [values, List.zip_cons_cons]
    exact List.cons_ne_nil _ _
  obtain ⟨curve, resampled, through⟩ := resample_curve linear points
  rw [values] at resampled through ⊢
  refine ⟨_, deviceCurve_eq linear progressing isFirst someKeys isFirstSample, ?_⟩
  refine ⟨curve, resampled, through.measured (by simp) (List.cons_ne_nil _ _) rising ?_⟩
  intro position member
  refine (within position member).trans ?_
  have atMost := (mode.range _ (List.getLast_mem someProgress)).2
  gcongr
  exact_mod_cast atMost

/-- The two curves of a mode stay among what was measured, and end with the last of it. -/
theorem modeSeries_measured {float : List Char → Except Raised ℚ}
    (reads : ∀ nanoseconds, float (pointed 9 nanoseconds) = .ok (stamp nanoseconds))
    (directory name : List Char) : ∃ alwa dlwa : ℚ → ℚ,
    (∀ targets, modeSeries npInterp unicode float directory name mode.files phase1Keys phase2Keys targets
      = pure (targets.map alwa, targets.map dlwa)) ∧
    Measured mode.alwaValues ((phase1Keys + phase2Keys : ℚ) / 1000000) alwa ∧
    Measured mode.dlwaValues ((phase1Keys + phase2Keys : ℚ) / 1000000) dlwa := by
  obtain ⟨alwa, alwaValues, alwaMeasured⟩ := mode.alwa_measured linear
  obtain ⟨x, device, dlwa, dlwaValues, dlwaMeasured⟩ := mode.dlwa_measured linear
  refine ⟨alwa, dlwa, fun targets => ?_, alwaMeasured, dlwaMeasured⟩
  have keys1 : phase1Keys < 2 ^ 64 := mode.keys1 ▸ mode.phase1.fits
  have keys2 : phase1Keys + phase2Keys < 2 ^ 64 := mode.keys2 ▸ mode.phase2.fits
  have series1 := fun path => mode.phase1.waSeries_eq unicode path (by decide : 0 < 2 ^ 64) keys1
  have series2 := fun path =>
    mode.phase2.waSeries_eq unicode path keys1 (lt_of_le_of_lt (Nat.le_add_left _ _) keys2)
  rw [Nat.cast_zero] at series1
  unfold modeSeries files
  dsimp only
  rw [series1, pure_bind]
  dsimp only
  rw [series2, pure_bind]
  dsimp only
  rw [show mode.phase1.blocks.map Sample.ratio ++ mode.phase2.blocks.map Sample.ratio = mode.alwaValues
      from rfl, alwaValues, pure_bind, mode.progressPoints_phases, pure_bind,
    mode.deviceSamples_eq reads, pure_bind, device, pure_bind]
  dsimp only
  rw [dlwaValues, pure_bind]

end ModeRun

section Calm

/-- One worker, by a clock that stands still; the process prints a block. -/
def blockRun (baseKeys num : UInt64) (someKeys : num ≠ 0) (tickers : Tickers) : WriteRun :=
  { calmRun 1 num (by decide) someKeys with
    baseKeys
    others := [printApplicationWriteAmplification tickers] }

variable {baseKeys num : UInt64} {someKeys : num ≠ 0} {tickers : Tickers}

theorem blockRun_allOk : (blockRun baseKeys num someKeys tickers).AllOk := fun _ _ _ => rfl

def blockOf (tickers : Tickers) : Event → List Tickers
  | .print (.other _) => [tickers]
  | _ => []

/-- No half minute goes by, so that a worker prints no statistics. -/
theorem blockRun_message {tid : (blockRun baseKeys num someKeys tickers).Worker} {message : Message}
    (member : .print message ∈ (blockRun baseKeys num someKeys tickers).trace tid) :
    Plain progressMarker message ∧ Holds message (blockOf tickers (.print message)) ∧
      ∀ point ∈ reportedPoint (.print message), point.1 = 0 := by
  obtain ⟨_, _, messages, _⟩ :=
    ((blockRun baseKeys num someKeys tickers).trace_spec tid).sound (blockRun_allOk tid)
  obtain ⟨writer, returns, reporting, _⟩ := doSimpleRandomWrite_reports
    (blockRun baseKeys num someKeys tickers).flags baseKeys tid .calm
    (blockRun baseKeys num someKeys tickers).someBatch ((blockRun baseKeys num someKeys tickers).keys tid)
  have trace : (blockRun baseKeys num someKeys tickers).trace tid = writer.trace :=
    congrArg (fun run => (run.map Writer.trace).getD []) returns
  have none : writer.statistics = 0 := by
    have spaced := (reporting.spaced fun _ _ _ => le_rfl).1
    obtain ⟨_, call, _, same⟩ := reporting.spaced fun _ _ _ => le_rfl
    rw [same] at spaced
    have zero : ((0 : UInt64)).toNat = 0 := rfl
    simp only [Outside.calm, zero] at spaced
    omega
  have seen : ∀ {Seen : Type} {see : Report → Option Seen} {sight : Seen} (report : Report),
      message.report = some report → see report = some sight → sight ∈ writer.seen see := by
    intro Seen see sight report shown sees
    exact List.mem_filterMap.mpr ⟨report, List.mem_filterMap.mpr ⟨.print message, trace ▸ member, shown⟩, sees⟩
  cases messages message member with
  | inr total =>
    subst total
    exact ⟨trivial, ⟨trivial, rfl⟩, by simp [reportedPoint]⟩
  | inl sound =>
    cases message with
    | writeProgress time completedKeys disk =>
      have shown : time ∈ writer.times := seen (.time time) rfl rfl
      obtain ⟨calls, times, _⟩ := reporting.times
      rw [times] at shown
      obtain ⟨call, _, rfl⟩ := List.mem_map.mp shown
      refine ⟨(by decide : 0 < 10 ^ 6), ⟨(by decide : 0 < 10 ^ 6), rfl⟩, fun point same => ?_⟩
      cases same
      exact (by norm_num [seconds, Outside.calm] : seconds (Outside.calm.timeOfDay call) = 0)
    | stuck successCount status batchCount wbCount =>
      exact ⟨.inl sound, ⟨.inl sound, rfl⟩, by simp [reportedPoint]⟩
    | rocksdbStats stats tickers =>
      have shown : () ∈ writer.seen Report.statistics? := seen .statistics rfl rfl
      exact absurd none (List.length_pos_of_mem shown).ne'
    | writeError => cases sound
    | writeFailed => cases sound
    | finalWriteError => cases sound
    | other => cases sound
    | _ => exact ⟨trivial, ⟨trivial, rfl⟩, by simp [reportedPoint]⟩

theorem exists_phaseRun (fits : baseKeys.toNat + num.toNat < 2 ^ 64) (written : 0 < tickers.userBytes) :
    ∃ phase : PhaseRun, phase.run = blockRun baseKeys num someKeys tickers ∧
      (∀ point ∈ phase.points, point.1 = 0) ∧ ∀ block ∈ phase.blocks, block = sample tickers := by
  obtain ⟨state, reachable, finished, _⟩ :=
    WriteRun.progressLines_inTurn _ (@blockRun_allOk baseKeys num someKeys tickers)
  have block : ∀ event ∈ (blockRun baseKeys num someKeys tickers).traces none,
      event = .print (.other (printApplicationWriteAmplification tickers)) := by
    intro event member
    obtain ⟨text, known, rfl⟩ := List.mem_map.mp member
    rw [List.mem_singleton.mp known]
  have only : ∀ shown ∈ (state.done.map fun entry => blockOf tickers entry.2).flatten, shown = tickers := by
    intro shown member
    obtain ⟨list, listed, inside⟩ := List.mem_flatten.mp member
    obtain ⟨⟨_, event⟩, _, rfl⟩ := List.mem_map.mp listed
    cases event with
    | write => cases inside
    | print message =>
      cases message with
      | other => exact List.mem_singleton.mp inside
      | _ => cases inside
  have ended : Ended (printApplicationWriteAmplification tickers) :=
    ended_append [] '\n' (tickers_getLast tickers) (by simp)
  have printed : (none, Event.print (.other (printApplicationWriteAmplification tickers))) ∈ state.done := by
    rw [← mem_actionsOf, weaving_finished reachable finished]
    exact List.mem_singleton_self _
  have said : ∀ party message, (party, Event.print message) ∈ state.done →
      Plain progressMarker message ∧ Adds (.print message) (blockOf tickers (.print message)) ∧
        ∀ point ∈ reportedPoint (.print message), point.1 = 0 := by
    intro party message member
    have own := weaving_mem reachable member
    cases party with
    | none =>
      obtain rfl := Event.print.inj (block _ own)
      refine ⟨⟨silent_tickers tickers, ended⟩, ?_, by simp [reportedPoint]⟩
      exact .of_tickers (by decide : ¬ marker <:+: []) tickers
    | some tid =>
      exact blockRun_message own
  refine ⟨{ run := blockRun baseKeys num someKeys tickers, state, reachable, finished,
            single := rfl, ok := blockRun_allOk, fits
            forward := fun _ _ _ _ => le_rfl
            plain := fun party message member => (said party message member).1
            held := state.done.map fun entry => blockOf tickers entry.2
            holds := ?_, someBlocks := ?_, written := ?_, grows := ?_ }, rfl, ?_, ?_⟩
  · rw [List.forall₂_map_right_iff, List.forall₂_same]
    rintro ⟨party, event⟩ member
    cases event with
    | write => rfl
    | print message => exact (said party message member).2.1
  · intro none
    have shown : tickers ∈ (state.done.map fun entry => blockOf tickers entry.2).flatten :=
      List.mem_flatten.mpr ⟨_, List.mem_map_of_mem printed, List.mem_singleton_self _⟩
    rw [none] at shown
    cases shown
  · intro shown member
    rw [only shown member]
    exact written
  · refine List.pairwise_of_forall_mem_list fun shown member other otherMember => ?_
    rw [only shown member, only other otherMember]
    exact UInt64.le_refl _
  · intro point member
    obtain ⟨⟨party, event⟩, known, same⟩ := List.mem_filterMap.mp member
    cases event with
    | write => cases same
    | print message => exact (said party message known).2.2 point same
  · intro block member
    obtain ⟨shown, known, rfl⟩ := List.mem_map.mp member
    rw [only shown known]

/-- Two such phases, and a sampler that was refused once. -/
theorem exists_modeRun : ∃ mode : ModeRun .ascii (fun nanoseconds => (nanoseconds : ℚ) / 10 ^ 9) 10000 10000,
    ∀ value ∈ mode.alwaValues, 1 ≤ value ∧ value ≤ 3 / 2 := by
  obtain ⟨phase1, run1, still1, blocks1⟩ :=
    @exists_phaseRun 0 10000 (by decide) ⟨100, 40, 60⟩ (by decide) (by decide)
  obtain ⟨phase2, run2, still2, blocks2⟩ :=
    @exists_phaseRun 10000 10000 (by decide) ⟨200, 120, 180⟩ (by decide) (by decide)
  refine ⟨⟨phase1, phase2, refusedOnce, ?_, ?_, ?_, ?_, ?_, ?_, ?_⟩, ?_⟩
  · rw [PhaseRun.firstKey, run1]
    rfl
  · rw [PhaseRun.lastKey, run1]
    rfl
  · rw [PhaseRun.firstKey, run2]
    rfl
  · rw [PhaseRun.lastKey, run2]
    rfl
  · intro point member later laterMember
    rw [still1 point member, still2 later laterMember]
  · intro none
    have keys := phase1.points_due
    rw [(List.append_eq_nil_iff.mp none).1, run1] at keys
    exact absurd keys (by decide)
  · exact (by decide : 2 ≤ [(⟨1, 1024, 2048⟩ : DeviceSample), ⟨3, 4096, 8192⟩].length)
  · intro value member
    rcases List.mem_append.mp member with early | late
    · obtain ⟨block, known, rfl⟩ := List.mem_map.mp early
      rw [blocks1 block known]
      exact (by decide +kernel : 1 ≤ (sample ⟨100, 40, 60⟩).ratio ∧ (sample ⟨100, 40, 60⟩).ratio ≤ 3 / 2)
    · obtain ⟨block, known, rfl⟩ := List.mem_map.mp late
      rw [blocks2 block known]
      exact (by decide +kernel : 1 ≤ (sample ⟨200, 120, 180⟩).ratio ∧
        (sample ⟨200, 120, 180⟩).ratio ≤ 3 / 2)

end Calm

end FdpRocks.Experiment
