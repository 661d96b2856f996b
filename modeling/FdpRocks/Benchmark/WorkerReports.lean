import FdpRocks.Benchmark.WriteLoopSoundness

/-! # What a worker reports over its run

* `Reporting` — the bars, times and statistics printed so far, against the
  counters they depend on.
* `doSimpleRandomWrite_reports` — the reports of a whole run.
-/

namespace FdpRocks.Benchmark

open FdpRocks.Library.Double FdpRocks.Library.Loop

/-! ## Reports -/

inductive Report where
  | time (time : ℕ × ℕ)
  | bar (bar : Bar)
  | ops (done : ℕ)
  | statistics

def Message.report : Message → Option Report
  | .writeProgress time _ _ => some (.time time)
  | .progressBar bar => some (.bar bar)
  | .opsCompleted done => some (.ops done)
  | .rocksdbStats _ _ => some .statistics
  | _ => none

def Event.report : Event → Option Report
  | .write _ _ => none
  | .print message => message.report

def reports (trace : List Event) : List Report := trace.filterMap Event.report

def Report.time? : Report → Option (ℕ × ℕ)
  | .time shown => some shown
  | _ => none

def Report.bar? : Report → Option Bar
  | .bar shown => some shown
  | _ => none

def Report.ops? : Report → Option ℕ
  | .ops done => some done
  | _ => none

def Report.statistics? : Report → Option Unit
  | .statistics => some ()
  | _ => none

@[simp] theorem reports_append (earlier later : List Event) :
    reports (earlier ++ later) = reports earlier ++ reports later := List.filterMap_append

theorem reports_print (message : Message) : reports [.print message] = message.report.toList := by
  show [Event.print message].filterMap Event.report = (Event.print message).report.toList
  rw [List.filterMap_cons]
  cases (Event.print message).report <;> rfl

@[simp] theorem reports_write (batch : List UInt64) (status : Status) :
    reports [.write batch status] = [] := rfl

/-! ## One bar -/

/-- What a bar of a worker with `total` keys shows. -/
structure Bar.Sound (total : ℕ) (bar : Bar) : Prop where
  totalOps : bar.totalOps = total
  within : bar.done ≤ total
  percentage : |bar.percentage - bar.done / total * 100| ≤ 1 / 2 ^ 43
  atMost : 0 ≤ bar.percentage ∧ bar.percentage ≤ 100 ∧ bar.filled ≤ 50
  /-- Roundings may cost a cell, or give one. -/
  filled : bar.filled ≤ bar.done * 50 / total + 1 ∧ bar.done * 50 / total ≤ bar.filled + 1
  full : bar.done = total → bar.percentage = 100 ∧ bar.filled = 50
  idle : bar.opsPerSec ≤ 0 → bar.etaHours = 0 ∧ bar.etaMins = 0 ∧ bar.etaSecs = 0

section Share

variable {part whole : ℕ}

/-- The quotient of two counts, both of which are rounded before it is. -/
theorem rounded_share (some : 0 < whole) (within : part ≤ whole) :
    |rounded (rounded part / rounded whole) - (part : ℚ) / whole| ≤ 1 / 2 ^ 50 ∧
      0 ≤ rounded (rounded part / rounded whole) ∧ rounded (rounded part / rounded whole) ≤ 1 := by
  have one : (1 : ℚ) ≤ whole := by exact_mod_cast some
  have below : (part : ℚ) ≤ whole := by exact_mod_cast within
  have partNonneg : (0 : ℚ) ≤ part := Nat.cast_nonneg part
  have partError := rounded_error_of_le partNonneg below one
  have wholeError := rounded_error_of_le (zero_le_one.trans one) le_rfl one
  have ordered : rounded part ≤ rounded whole := rounded_mono partNonneg below
  have atLeast : (whole : ℚ) * 2 ≤ rounded whole * 3 := by linarith [(abs_le.mp wholeError).1]
  have positive : 0 < rounded whole := by linarith
  have quotientNonneg : 0 ≤ rounded part / rounded whole :=
    div_nonneg (rounded_nonneg partNonneg) positive.le
  have quotientLe : rounded part / rounded whole ≤ 1 := (div_le_one positive).mpr ordered
  -- both counts are off by the same share of the whole
  have quotientError : |rounded part / rounded whole - (part : ℚ) / whole| ≤ 3 / 2 ^ 52 := by
    have numerator : |rounded part * whole - rounded whole * part| ≤ 2 * whole / 2 ^ 52 * whole :=
      calc |rounded part * whole - rounded whole * part|
        _ = |(rounded part - part) * whole - (rounded whole - whole) * part| := by ring_nf
        _ ≤ |(rounded part - part) * whole| + |(rounded whole - whole) * part| := abs_sub _ _
        _ = |rounded part - part| * whole + |rounded whole - whole| * part := by
          rw [abs_mul, abs_mul, Nat.abs_cast, Nat.abs_cast]
        _ ≤ whole / 2 ^ 52 * whole + whole / 2 ^ 52 * whole := by gcongr
        _ = 2 * whole / 2 ^ 52 * whole := by ring
    have denominator : 0 < rounded whole * whole := by positivity
    rw [div_sub_div _ _ positive.ne' (by positivity), abs_div, abs_of_pos denominator,
      div_le_iff₀ denominator]
    calc |rounded part * whole - rounded whole * part|
      _ ≤ 2 * whole / 2 ^ 52 * whole := numerator
      _ = (whole * 2) * (whole / 2 ^ 52) := by ring
      _ ≤ (rounded whole * 3) * (whole / 2 ^ 52) := mul_le_mul_of_nonneg_right atLeast (by positivity)
      _ = 3 / 2 ^ 52 * (rounded whole * whole) := by ring
  have error := rounded_error_of_le quotientNonneg quotientLe le_rfl
  refine ⟨?_, rounded_nonneg quotientNonneg, ?_⟩
  · calc |rounded (rounded part / rounded whole) - (part : ℚ) / whole|
      _ ≤ |rounded (rounded part / rounded whole) - rounded part / rounded whole|
          + |rounded part / rounded whole - (part : ℚ) / whole| := abs_sub_le _ _ _
      _ ≤ 1 / 2 ^ 52 + 3 / 2 ^ 52 := add_le_add error quotientError
      _ = 1 / 2 ^ 50 := by norm_num
  · exact_mod_cast @rounded_le _ 1 quotientNonneg (by exact_mod_cast quotientLe) (by norm_num)

end Share

namespace Progress

variable {progress : Progress} {total : ℕ} (totalOps : progress.totalOps = total) (some : 0 < total)
  (within : progress.done ≤ total)

include totalOps some within

theorem percentage_near : |progress.percentage - (progress.done : ℚ) / total * 100| ≤ 1 / 2 ^ 43 ∧
    0 ≤ progress.percentage ∧ progress.percentage ≤ 100 := by
  obtain ⟨share, nonneg, atMost⟩ := rounded_share some within
  unfold percentage
  rw [totalOps]
  generalize rounded (rounded progress.done / rounded total) = quotient at share nonneg atMost ⊢
  have product : quotient * 100 ≤ 100 := by linarith
  have scaledNonneg : 0 ≤ quotient * 100 := by linarith
  have whole : rounded (quotient * 100) ≤ 100 := by
    exact_mod_cast @rounded_le _ 100 scaledNonneg (by exact_mod_cast product) (by norm_num)
  have error := abs_le.mp (rounded_error_of_le scaledNonneg product (by norm_num))
  rw [min_eq_left whole]
  rw [abs_le] at share
  refine ⟨abs_le.mpr ⟨?_, ?_⟩, rounded_nonneg scaledNonneg, whole⟩
  · linarith [error.1, share.1]
  · linarith [error.2, share.2]

/-- The cells before they are cut down to a whole number. -/
theorem cells_near :
    |rounded (rounded (progress.percentage / 100) * 50) - (progress.done : ℚ) / total * 50| ≤ 1 / 2 ^ 43 ∧
    0 ≤ rounded (rounded (progress.percentage / 100) * 50) ∧
    rounded (rounded (progress.percentage / 100) * 50) ≤ 50 := by
  obtain ⟨near, nonneg, atMost⟩ := percentage_near totalOps some within
  generalize progress.percentage = percentage at near nonneg atMost ⊢
  have share : percentage / 100 ≤ 1 := by linarith
  have shareNonneg : 0 ≤ percentage / 100 := by linarith
  have shareError := abs_le.mp (rounded_error_of_le shareNonneg share le_rfl)
  have one : rounded (percentage / 100) ≤ 1 := by
    exact_mod_cast @rounded_le _ 1 shareNonneg (by exact_mod_cast share) (by norm_num)
  have cellsNonneg : 0 ≤ rounded (percentage / 100) * 50 := by linarith [rounded_nonneg shareNonneg]
  have cells : rounded (percentage / 100) * 50 ≤ 50 := by linarith
  have cellsError := abs_le.mp (rounded_error_of_le cellsNonneg cells (by norm_num))
  rw [abs_le] at near
  refine ⟨abs_le.mpr ⟨?_, ?_⟩, rounded_nonneg cellsNonneg, ?_⟩
  · linarith [near.1, shareError.1, cellsError.1]
  · linarith [near.2, shareError.2, cellsError.2]
  · exact_mod_cast @rounded_le _ 50 cellsNonneg (by exact_mod_cast cells) (by norm_num)

/-- Next to a whole number of cells, the count may be off by one. -/
theorem filled_near :
    ⌊rounded (rounded (progress.percentage / 100) * 50)⌋₊ ≤ progress.done * 50 / total + 1 ∧
    progress.done * 50 / total ≤ ⌊rounded (rounded (progress.percentage / 100) * 50)⌋₊ + 1 := by
  obtain ⟨near, nonneg, _⟩ := cells_near totalOps some within
  generalize rounded (rounded (progress.percentage / 100) * 50) = cells at near nonneg ⊢
  have positive : (0 : ℚ) < total := by exact_mod_cast some
  have low : ((progress.done * 50 / total : ℕ) : ℚ) ≤ progress.done / total * 50 := by
    calc ((progress.done * 50 / total : ℕ) : ℚ)
      _ ≤ ((progress.done * 50 : ℕ) : ℚ) / total := Nat.cast_div_le
      _ = progress.done / total * 50 := by push_cast; ring
  have high : (progress.done : ℚ) / total * 50 < (progress.done * 50 / total : ℕ) + 1 := by
    have exact : progress.done * 50 < (progress.done * 50 / total + 1) * total := by
      rw [Nat.mul_comm _ total]
      exact Nat.lt_mul_div_succ _ some
    rw [div_mul_eq_mul_div, div_lt_iff₀ positive]
    exact_mod_cast exact
  -- the roundings move the cells by far less than one
  rw [abs_le] at near
  have tiny : (1 : ℚ) / 2 ^ 43 < 1 := by norm_num
  constructor
  · have below : ⌊cells⌋₊ < progress.done * 50 / total + 2 := by
      rw [Nat.floor_lt nonneg]
      push_cast
      linarith [near.2]
    exact Nat.lt_succ_iff.mp below
  · have floor := Nat.lt_floor_add_one cells
    have below : ((progress.done * 50 / total : ℕ) : ℚ) < ⌊cells⌋₊ + 2 := by linarith [near.1]
    exact Nat.lt_succ_iff.mp (by exact_mod_cast below)

/-- Twenty-nine cells less the roundings. -/
example : ({ Progress.begin 0 0 10000 with done := 5800 }.bar 0).filled = 28 := by decide +kernel

omit within in
theorem percentage_full (all : progress.done = total) : progress.percentage = 100 := by
  have positive : (0 : ℚ) < rounded total := by
    have one : rounded 1 ≤ rounded total := rounded_mono zero_le_one (by exact_mod_cast some)
    have exact := @rounded_intCast 1 (by norm_num)
    rw [Int.cast_one] at exact
    linarith
  rw [percentage, totalOps, all, div_self positive.ne']
  decide +kernel

end Progress

theorem Progress.bar_sound {progress : Progress} {total : ℕ} (totalOps : progress.totalOps = total)
    (some : total ≠ 0) (within : progress.done ≤ total) (now : UInt64) :
    (progress.bar now).Sound total := by
  have positive : 0 < total := Nat.pos_of_ne_zero some
  obtain ⟨percentage, nonneg, atMost⟩ := progress.percentage_near totalOps positive within
  obtain ⟨_, cellsNonneg, cellsAtMost⟩ := progress.cells_near totalOps positive within
  -- there are never more than fifty cells to cut off
  have few : ⌊rounded (rounded (progress.percentage / 100) * 50)⌋₊ ≤ 50 :=
    Nat.floor_le_of_le (by exact_mod_cast cellsAtMost)
  have filled : (progress.bar now).filled = ⌊rounded (rounded (progress.percentage / 100) * 50)⌋₊ :=
    min_eq_left few
  constructor
  case totalOps => exact totalOps
  case within => exact within
  case percentage => exact percentage
  case atMost => exact ⟨nonneg, atMost, min_le_right _ _⟩
  case filled =>
    rw [filled]
    exact progress.filled_near totalOps positive within
  case full =>
    intro all
    have whole := progress.percentage_full totalOps positive all
    refine ⟨whole, ?_⟩
    rw [filled, whole]
    decide +kernel
  case idle =>
    intro stopped
    have rate : ¬ 0 < progress.opsPerSec now := not_lt.mpr stopped
    simp [Progress.bar, rate]

/-! ## Reports so far -/

variable {flags : Flags} {baseKeys : UInt64} {tid total : ℕ} {outside : Outside}

namespace Writer

/-- The reports of one kind. -/
def seen {Seen : Type} (see : Report → Option Seen) (writer : Writer) : List Seen :=
  (reports writer.trace).filterMap see

def times (writer : Writer) : List (ℕ × ℕ) := writer.seen Report.time?

def bars (writer : Writer) : List Bar := writer.seen Report.bar?

def opsShown (writer : Writer) : List ℕ := writer.seen Report.ops?

/-- How often the statistics of RocksDB were printed. -/
def statistics (writer : Writer) : ℕ := (writer.seen Report.statistics?).length

theorem seen_print {Seen : Type} (see : Report → Option Seen) (message : Message) (writer : Writer) :
    (writer.print message).seen see = writer.seen see ++ (message.report.bind see).toList := by
  unfold seen
  show (reports (writer.trace ++ [.print message])).filterMap see = _
  rw [reports_append, reports_print, List.filterMap_append]
  congr 1
  cases message.report with
  | none => rfl
  | some report =>
    show [report].filterMap see = (see report).toList
    cases shown : see report <;> simp [shown]

structure Reporting (tid : ℕ) (outside : Outside) (total : ℕ) (writer : Writer) : Prop where
  totalOps : writer.progress.totalOps = total
  within : writer.progress.done ≤ total
  /-- The next boundary is the first multiple behind the count. -/
  boundary : 10000 ∣ writer.progress.next10kBoundary ∧
    writer.progress.done < writer.progress.next10kBoundary ∧
    writer.progress.next10kBoundary ≤ writer.progress.done + 10000
  times : ∃ calls : List ℕ, writer.times = calls.map outside.timeOfDay ∧ calls.Pairwise (· < ·) ∧
    ∀ call ∈ calls, call < writer.reads
  bars : ∀ bar ∈ writer.bars, bar.Sound total ∧ bar.done ≤ writer.progress.done
  rising : writer.bars.Pairwise fun bar later => bar.done ≤ later.done
  opsShown : total ≠ 0 → writer.opsShown = []
  silent : tid ≠ 0 → writer.statistics = 0
  spaced : (Monotone fun call => (outside.clock call).toNat) →
    30000000 * writer.statistics + (outside.clock 0).toNat
        ≤ writer.progress.lastRocksdbStatsTime.toNat ∧
      ∃ call < writer.reads, writer.progress.lastRocksdbStatsTime = outside.clock call

/-- Nothing is reported, and no counter that a report depends on changes. -/
structure Onward (before after : Writer) : Prop where
  reports : reports after.trace = reports before.trace
  reads : before.reads ≤ after.reads
  totalOps : after.progress.totalOps = before.progress.totalOps
  done : after.progress.done = before.progress.done
  boundary : after.progress.next10kBoundary = before.progress.next10kBoundary
  last : after.progress.lastRocksdbStatsTime = before.progress.lastRocksdbStatsTime

theorem Reporting.onward {before after : Writer} (reporting : Reporting tid outside total before)
    (onward : Onward before after) : Reporting tid outside total after := by
  have seen : ∀ {Seen : Type} (see : Report → Option Seen), after.seen see = before.seen see :=
    fun see => congrArg (List.filterMap see) onward.reports
  have statistics : after.statistics = before.statistics := congrArg List.length (seen _)
  obtain ⟨calls, sameTimes, ascending, read⟩ := reporting.times
  constructor
  case totalOps => rw [onward.totalOps, reporting.totalOps]
  case within => rw [onward.done]; exact reporting.within
  case boundary => rw [onward.boundary, onward.done]; exact reporting.boundary
  case times =>
    exact ⟨calls, (seen _).trans sameTimes, ascending,
      fun call member => (read call member).trans_le onward.reads⟩
  case bars => rw [Writer.bars, seen, onward.done]; exact reporting.bars
  case rising => rw [Writer.bars, seen]; exact reporting.rising
  case opsShown => rw [Writer.opsShown, seen]; exact reporting.opsShown
  case silent => rw [statistics]; exact reporting.silent
  case spaced =>
    intro forward
    obtain ⟨spaced, call, earlier, same⟩ := reporting.spaced forward
    rw [statistics, onward.last]
    exact ⟨spaced, call, earlier.trans_le onward.reads, same⟩

theorem seen_silent {Seen : Type} {see : Report → Option Seen} {message : Message} (writer : Writer)
    (silent : message.report.bind see = none) : (writer.print message).seen see = writer.seen see := by
  rw [seen_print, silent]
  exact List.append_nil _

theorem onward_print {message : Message} (silent : message.report = none) (writer : Writer) :
    Onward writer (writer.print message) := by
  refine ⟨?_, le_rfl, rfl, rfl, rfl, rfl⟩
  show reports (writer.trace ++ [.print message]) = _
  rw [reports_append, reports_print, silent]
  exact List.append_nil _

theorem onward_tick (writer : Writer) : Onward writer writer.tick :=
  ⟨rfl, Nat.le_succ _, rfl, rfl, rfl, rfl⟩

theorem Onward.trans {first second third : Writer} (before : Onward first second)
    (after : Onward second third) : Onward first third :=
  ⟨after.reports.trans before.reports, before.reads.trans after.reads,
    after.totalOps.trans before.totalOps, after.done.trans before.done,
    after.boundary.trans before.boundary, after.last.trans before.last⟩

theorem onward_checkStuck (status : Status) (batchCount : ℕ) (writer : Writer) :
    Onward writer (writer.checkStuck outside status batchCount) := by
  unfold checkStuck
  dsimp only
  split
  · split
    · have told := (onward_tick writer).trans (@onward_print
        (.stuck writer.successCount status batchCount writer.wb.length) rfl writer.tick)
      exact ⟨told.reports, told.reads, told.totalOps, told.done, told.boundary, told.last⟩
    · exact ⟨rfl, Nat.le_succ _, rfl, rfl, rfl, rfl⟩
  · exact onward_tick writer

theorem checkStuck_rest (status : Status) (batchCount : ℕ) (writer : Writer) :
    (writer.checkStuck outside status batchCount).rest = writer.rest := by
  unfold checkStuck
  dsimp only
  split
  · split <;> rfl
  · rfl

theorem onward_write (writer : Writer) : Onward writer (writer.write outside) := by
  refine ⟨?_, le_rfl, rfl, rfl, rfl, rfl⟩
  show reports (writer.trace ++ [.write _ _]) = _
  rw [reports_append, reports_write, List.append_nil]

/-! ### Bars -/

/-- What shows neither a time nor the statistics. -/
theorem Reporting.print {message : Message} {writer : Writer}
    (reporting : Reporting tid outside total writer)
    (noTime : message.report.bind Report.time? = none)
    (noStatistics : message.report.bind Report.statistics? = none)
    (noOps : total ≠ 0 → message.report.bind Report.ops? = none)
    (bar : ∀ bar ∈ message.report.bind Report.bar?, bar.Sound total ∧ bar.done = writer.progress.done) :
    Reporting tid outside total (writer.print message) := by
  have times := seen_silent writer noTime
  have statistics : (writer.print message).statistics = writer.statistics :=
    congrArg List.length (seen_silent writer noStatistics)
  have shown := @seen_print Bar Report.bar? message writer
  constructor
  case totalOps => exact reporting.totalOps
  case within => exact reporting.within
  case boundary => exact reporting.boundary
  case times =>
    obtain ⟨calls, same, rest⟩ := reporting.times
    exact ⟨calls, times.trans same, rest⟩
  case bars =>
    intro other member
    rw [Writer.bars, shown] at member
    cases List.mem_append.mp member with
    | inl earlier => exact reporting.bars other earlier
    | inr here =>
      obtain ⟨sound, done⟩ := bar other (Option.mem_toList.mp here)
      exact ⟨sound, done.le⟩
  case rising =>
    rw [Writer.bars, shown, List.pairwise_append]
    refine ⟨reporting.rising, ?_, fun other member last here => ?_⟩
    · cases message.report.bind Report.bar? <;> simp
    · rw [(bar last (Option.mem_toList.mp here)).2]
      exact (reporting.bars other member).2
  case opsShown => exact fun some => (seen_silent writer (noOps some)).trans (reporting.opsShown some)
  case silent => exact fun other => statistics.trans (reporting.silent other)
  case spaced =>
    rw [statistics]
    exact reporting.spaced

theorem Reporting.printProgressBar {writer : Writer} (reporting : Reporting tid outside total writer) :
    Reporting tid outside total (writer.printProgressBar outside) := by
  unfold Writer.printProgressBar
  split
  next none =>
    have zero : total = 0 := by rw [← reporting.totalOps, none]
    apply reporting.print rfl rfl (fun some => absurd zero some)
    intro bar isBar
    cases isBar
  next some =>
    have someTotal : total ≠ 0 := by rw [← reporting.totalOps]; exact some
    apply (reporting.onward (onward_tick writer)).print rfl rfl (fun _ => rfl)
    intro bar isBar
    cases isBar
    exact ⟨Progress.bar_sound reporting.totalOps someTotal reporting.within _, rfl⟩

/-! ### Steps -/

/-- A step that keeps the invariant takes no key and counts none. -/
def Moves (tid : ℕ) (outside : Outside) (total : ℕ) (before after : Writer) : Prop :=
  Reporting tid outside total before → Reporting tid outside total after ∧
    after.rest = before.rest ∧ after.progress.done = before.progress.done

theorem Moves.trans {first second third : Writer} (before : Moves tid outside total first second)
    (after : Moves tid outside total second third) : Moves tid outside total first third := by
  intro reporting
  obtain ⟨middle, rest, done⟩ := before reporting
  obtain ⟨last, restAfter, doneAfter⟩ := after middle
  exact ⟨last, restAfter.trans rest, doneAfter.trans done⟩

theorem moves_onward {before after : Writer} (onward : Onward before after)
    (rest : after.rest = before.rest) : Moves tid outside total before after :=
  fun reporting => ⟨reporting.onward onward, rest, onward.done⟩

theorem moves_printProgressBar (writer : Writer) :
    Moves tid outside total writer (writer.printProgressBar outside) := by
  intro reporting
  refine ⟨reporting.printProgressBar, ?_, ?_⟩
  · unfold Writer.printProgressBar
    split <;> rfl
  · unfold Writer.printProgressBar
    split <;> rfl

theorem moves_reportByCount (writer : Writer) :
    Moves tid outside total writer (writer.reportByCount outside) := by
  unfold reportByCount
  split
  · refine Moves.trans ?_ (moves_printProgressBar _)
    exact moves_onward ⟨rfl, le_rfl, rfl, rfl, rfl, rfl⟩ rfl
  · exact fun reporting => ⟨reporting, rfl, rfl⟩

theorem onward_nextReportTime (writer : Writer) (nextReportTime : ℕ) :
    Onward writer { writer.tick with progress := { writer.progress with nextReportTime } } :=
  ⟨rfl, Nat.le_succ _, rfl, rfl, rfl, rfl⟩

theorem moves_reportByTime (writer : Writer) :
    Moves tid outside total writer (writer.reportByTime flags outside) := by
  unfold reportByTime
  dsimp only
  split
  · exact fun reporting => ⟨reporting, rfl, rfl⟩
  · split
    · refine Moves.trans ?_ (moves_printProgressBar _)
      exact moves_onward (onward_nextReportTime writer _) rfl
    · exact moves_onward (onward_tick writer) rfl

theorem Reporting.late {writer : Writer} (reporting : Reporting tid outside total writer)
    (forward : Monotone fun call => (outside.clock call).toNat)
    (late : outside.clock writer.reads - writer.progress.lastRocksdbStatsTime ≥ 30000000) :
    writer.progress.lastRocksdbStatsTime.toNat + 30000000 ≤ (outside.clock writer.reads).toNat := by
  obtain ⟨_, call, earlier, same⟩ := reporting.spaced forward
  have ordered : writer.progress.lastRocksdbStatsTime ≤ outside.clock writer.reads := by
    rw [same]
    exact forward earlier.le
  have apart := UInt64.le_iff_toNat_le.mp late
  rw [UInt64.toNat_sub_of_le _ _ ordered] at apart
  have before := UInt64.le_iff_toNat_le.mp ordered
  have interval : (30000000 : UInt64).toNat = 30000000 := rfl
  omega

/-- The statistics of RocksDB come half a minute apart. -/
theorem moves_maybePrintRocksDBStats (writer : Writer) :
    Moves tid outside total writer (writer.maybePrintRocksDBStats tid outside) := by
  unfold maybePrintRocksDBStats
  dsimp only
  split
  next first =>
    split
    next late =>
      intro reporting
      refine ⟨?_, rfl, rfl⟩
      constructor
      case totalOps => exact reporting.totalOps
      case within => exact reporting.within
      case boundary => exact reporting.boundary
      case times =>
        obtain ⟨calls, same, ascending, read⟩ := reporting.times
        refine ⟨calls, (seen_silent _ rfl).trans same, ascending, fun call member => ?_⟩
        exact (read call member).trans_le (Nat.le_add_right _ 3)
      case bars =>
        rw [Writer.bars, seen_silent _ rfl]
        exact reporting.bars
      case rising =>
        rw [Writer.bars, seen_silent _ rfl]
        exact reporting.rising
      case opsShown => exact fun some => (seen_silent _ rfl).trans (reporting.opsShown some)
      case silent => exact fun other => absurd first other
      case spaced =>
        intro forward
        have apart := reporting.late forward late
        obtain ⟨spaced, _⟩ := reporting.spaced forward
        have more : writer.reads < writer.reads + 3 := Nat.lt_add_of_pos_right (by decide)
        refine ⟨?_, writer.reads, more, rfl⟩
        rw [Writer.statistics, seen_print, List.length_append]
        show 30000000 * (writer.statistics + 1) + _ ≤ (outside.clock writer.reads).toNat
        omega
    next => exact moves_onward (onward_tick writer) rfl
  next => exact fun reporting => ⟨reporting, rfl, rfl⟩

/-- A progress line takes the time of day anew. -/
theorem moves_reportProgress {line : Message} (silent : line.report = none) (writer : Writer) :
    Moves tid outside total writer (writer.reportProgress baseKeys outside line) := by
  have told : Onward writer ({ writer with reads := writer.reads + 2 }.print line) := by
    have printed := onward_print silent { writer with reads := writer.reads + 2 }
    exact ⟨printed.reports, Nat.le_add_right _ 2, rfl, rfl, rfl, rfl⟩
  intro reporting
  have middle := reporting.onward told
  refine ⟨?_, rfl, rfl⟩
  unfold Writer.reportProgress
  constructor
  case totalOps => exact reporting.totalOps
  case within => exact reporting.within
  case boundary => exact reporting.boundary
  case times =>
    obtain ⟨calls, same, ascending, read⟩ := reporting.times
    have before : ({ writer with reads := writer.reads + 2 }.print line).times = writer.times :=
      congrArg (List.filterMap Report.time?) told.reports
    refine ⟨calls ++ [writer.reads], ?_, ?_, ?_⟩
    · rw [Writer.times, seen_print, ← Writer.times, before, same, List.map_append]
      rfl
    · rw [List.pairwise_append]
      refine ⟨ascending, List.pairwise_singleton _ _, fun call member last here => ?_⟩
      rw [List.mem_singleton.mp here]
      exact read call member
    · intro call member
      have more : writer.reads < writer.reads + 2 := Nat.lt_add_of_pos_right (by decide)
      cases List.mem_append.mp member with
      | inl earlier => exact (read call earlier).trans more
      | inr here => rw [List.mem_singleton.mp here]; exact more
  case bars =>
    rw [Writer.bars, seen_silent _ rfl]
    exact middle.bars
  case rising =>
    rw [Writer.bars, seen_silent _ rfl]
    exact middle.rising
  case opsShown => exact fun some => (seen_silent _ rfl).trans (middle.opsShown some)
  case silent => exact fun other => (congrArg List.length (seen_silent _ rfl)).trans (middle.silent other)
  case spaced =>
    have statistics := congrArg List.length (@seen_silent _ Report.statistics? (.writeProgress
      (outside.timeOfDay writer.reads) ((baseKeys.toNat + writer.successCount) % 2 ^ 64)
      (outside.disk (writer.reads + 1))) ({ writer with reads := writer.reads + 2 }.print line) rfl)
    intro forward
    obtain ⟨spaced, last⟩ := middle.spaced forward
    refine ⟨?_, last⟩
    rw [Writer.statistics, statistics]
    exact spaced

/-! ### Batches -/

theorem crossBoundaries_eq (turns : ℕ) (writer : Writer) :
    (writer.crossBoundaries outside turns).rest = writer.rest ∧
    (writer.crossBoundaries outside turns).trace = writer.trace ∧
    (writer.crossBoundaries outside turns).reads = writer.reads + turns ∧
    (writer.crossBoundaries outside turns).progress.totalOps = writer.progress.totalOps ∧
    (writer.crossBoundaries outside turns).progress.done = writer.progress.done ∧
    (writer.crossBoundaries outside turns).progress.lastRocksdbStatsTime
      = writer.progress.lastRocksdbStatsTime ∧
    (writer.crossBoundaries outside turns).progress.next10kBoundary
      = writer.progress.next10kBoundary + 10000 * turns := by
  induction turns generalizing writer with
  | zero => exact ⟨rfl, rfl, rfl, rfl, rfl, rfl, rfl⟩
  | succ turns inductionHypothesis =>
    obtain ⟨rest, trace, reads, totalOps, done, last, boundary⟩ := inductionHypothesis
      { writer with progress := writer.progress.cross (outside.clock writer.reads) }.tick
    refine ⟨rest, trace, reads.trans ?_, totalOps, done, last, boundary.trans ?_⟩
    · exact Nat.add_right_comm _ 1 turns
    · show writer.progress.next10kBoundary + 10000 + 10000 * turns = _
      ring

/-- One turn of the loop over `next_10k_boundary_`, as the source has it. -/
def boundaryTurn (outside : Outside) (writer : Writer) : Turn Writer Writer :=
  if writer.progress.done ≥ writer.progress.next10kBoundary then
    .again { writer with progress := writer.progress.cross (outside.clock writer.reads) }.tick
  else .done writer

/-- The number of turns is known beforehand. -/
theorem crossBoundaries_loop {writer : Writer} {turns : ℕ} (count : writer.progress.crossings = turns)
    (near : writer.progress.next10kBoundary ≤ writer.progress.done + 10000) :
    run (boundaryTurn outside) (turns + 1) writer = some (writer.crossBoundaries outside turns) := by
  have crossings : (writer.progress.done + 10000 - writer.progress.next10kBoundary) / 10000 = turns :=
    count
  induction turns generalizing writer with
  | zero =>
    have below : ¬ writer.progress.done ≥ writer.progress.next10kBoundary := by omega
    have turn : boundaryTurn outside writer = .done writer := if_neg below
    exact run_done turn 0
  | succ turns inductionHypothesis =>
    have reached : writer.progress.done ≥ writer.progress.next10kBoundary := by omega
    have fewer : (writer.progress.done + 10000 - (writer.progress.next10kBoundary + 10000)) / 10000
        = turns := by omega
    have turn : boundaryTurn outside writer = .again
        { writer with progress := writer.progress.cross (outside.clock writer.reads) }.tick :=
      if_pos reached
    rw [run_again turn]
    refine inductionHypothesis fewer ?_ fewer
    show writer.progress.next10kBoundary + 10000 ≤ writer.progress.done + 10000
    omega

theorem Reporting.countBatch {writer : Writer} (reporting : Reporting tid outside total writer)
    {batch : ℕ} (room : writer.progress.done + batch ≤ total) :
    Reporting tid outside total (writer.countBatch outside batch) ∧
      (writer.countBatch outside batch).rest = writer.rest ∧
      (writer.countBatch outside batch).progress.done = writer.progress.done + batch := by
  let counted :=
    { writer with progress := { writer.progress with done := writer.progress.done + batch } }
  obtain ⟨rest, trace, reads, totalOps, done, last, boundary⟩ :=
    @crossBoundaries_eq outside counted.progress.crossings counted
  have same : writer.countBatch outside batch
      = counted.crossBoundaries outside counted.progress.crossings := rfl
  rw [same]
  have seen : ∀ {Seen : Type} (see : Report → Option Seen),
      (counted.crossBoundaries outside counted.progress.crossings).seen see = writer.seen see :=
    fun see => congrArg (fun trace => (reports trace).filterMap see) trace
  refine ⟨?_, rest, done⟩
  constructor
  case totalOps => exact totalOps.trans reporting.totalOps
  case within => rw [done]; exact room
  case boundary =>
    obtain ⟨⟨multiple, divides⟩, above, near⟩ := reporting.boundary
    have turns : counted.progress.crossings
        = (writer.progress.done + batch + 10000 - writer.progress.next10kBoundary) / 10000 := rfl
    have count : counted.progress.done = writer.progress.done + batch := rfl
    have before : counted.progress.next10kBoundary = writer.progress.next10kBoundary := rfl
    rw [boundary, done, count, before, turns]
    refine ⟨⟨multiple + (writer.progress.done + batch + 10000
      - writer.progress.next10kBoundary) / 10000, ?_⟩, ?_, ?_⟩
    · omega
    · omega
    · omega
  case times =>
    obtain ⟨calls, sameTimes, ascending, read⟩ := reporting.times
    refine ⟨calls, (seen _).trans sameTimes, ascending, fun call member => ?_⟩
    rw [reads]
    exact (read call member).trans_le (Nat.le_add_right _ _)
  case bars =>
    rw [Writer.bars, seen, done]
    intro bar member
    obtain ⟨sound, before⟩ := reporting.bars bar member
    exact ⟨sound, before.trans (Nat.le_add_right _ batch)⟩
  case rising => rw [Writer.bars, seen]; exact reporting.rising
  case opsShown => exact fun some => (seen _).trans (reporting.opsShown some)
  case silent => exact fun other => (congrArg List.length (seen _)).trans (reporting.silent other)
  case spaced =>
    intro forward
    obtain ⟨spaced, call, earlier, sameTime⟩ := reporting.spaced forward
    rw [Writer.statistics, seen, last, reads]
    exact ⟨spaced, call, earlier.trans_le (Nat.le_add_right _ _), sameTime⟩

theorem Reporting.finishedBatchOp {writer : Writer} (reporting : Reporting tid outside total writer)
    {batch : ℕ} (room : writer.progress.done + batch ≤ total) :
    Reporting tid outside total (writer.finishedBatchOp flags outside batch) ∧
      (writer.finishedBatchOp flags outside batch).rest = writer.rest ∧
      (writer.finishedBatchOp flags outside batch).progress.done = writer.progress.done + batch := by
  have called : Reporting tid outside total
      { writer with finishedOps := writer.finishedOps ++ [batch] } :=
    reporting.onward ⟨rfl, le_rfl, rfl, rfl, rfl, rfl⟩
  obtain ⟨counted, rest, done⟩ := called.countBatch room
  obtain ⟨last, restAfter, doneAfter⟩ :=
    ((moves_reportByCount _).trans (moves_reportByTime _)) counted
  exact ⟨last, restAfter.trans rest, doneAfter.trans done⟩

theorem moves_commit (writer : Writer) :
    Moves tid outside total writer (writer.commit baseKeys outside) := by
  unfold commit
  dsimp only
  split
  next ok =>
    have counted : Moves tid outside total writer
        { writer.write outside with
          successCount := (writer.write outside).successCount + writer.wb.length } :=
      moves_onward ⟨(onward_write writer).reports, le_rfl, rfl, rfl, rfl, rfl⟩ rfl
    refine Moves.trans (Moves.trans counted ?_) (moves_onward (onward_checkStuck _ _ _) ?_)
    · split
      · exact moves_reportProgress rfl _
      · exact fun reporting => ⟨reporting, rfl, rfl⟩
    · exact checkStuck_rest _ _ _
  next failed =>
    have told := ((onward_write writer).trans (onward_print (by rfl) _)).trans
      (@onward_print (.writeFailed (writer.write outside).successCount
        (outside.write writer.writes).text writer.wb.length) rfl
        ((writer.write outside).print (.writeError (writer.write outside).successCount
          (outside.write writer.writes).text)))
    exact moves_onward (told.trans (onward_checkStuck _ _ _)) (checkStuck_rest _ _ _)

theorem Reporting.put {writer : Writer} (reporting : Reporting tid outside total writer)
    (rest : List UInt64) (key : UInt64) :
    Reporting tid outside total ({ writer with rest }.put flags baseKeys outside key) ∧
      ({ writer with rest }.put flags baseKeys outside key).rest = rest ∧
      ({ writer with rest }.put flags baseKeys outside key).progress.done = writer.progress.done := by
  have added : Reporting tid outside total { writer with rest, wb := writer.wb ++ [key] } :=
    reporting.onward ⟨rfl, le_rfl, rfl, rfl, rfl, rfl⟩
  unfold Writer.put
  dsimp only
  split
  · exact moves_commit _ added
  · exact ⟨added, rfl, rfl⟩

theorem Reporting.fillBatch {writer : Writer} (reporting : Reporting tid outside total writer)
    (budget j : ℕ) :
    Reporting tid outside total (writer.fillBatch flags baseKeys outside budget j).2 ∧
      (writer.fillBatch flags baseKeys outside budget j).2.progress.done = writer.progress.done ∧
      (writer.fillBatch flags baseKeys outside budget j).1
        + (writer.fillBatch flags baseKeys outside budget j).2.rest.length
          = j + writer.rest.length := by
  induction budget generalizing writer j with
  | zero => exact ⟨reporting, rfl, rfl⟩
  | succ budget inductionHypothesis =>
    cases next : writer.rest with
    | nil =>
      rw [Writer.fillBatch, next]
      exact ⟨reporting, rfl, by rw [next]⟩
    | cons key rest =>
      obtain ⟨kept, shorter, same⟩ := @Reporting.put flags baseKeys _ _ _ _ reporting rest key
      obtain ⟨later, done, taken⟩ := inductionHypothesis kept (j + 1)
      rw [shorter] at taken
      rw [Writer.fillBatch, next]
      refine ⟨later, done.trans same, taken.trans ?_⟩
      rw [List.length_cons, Nat.add_assoc, Nat.add_comm 1]

/-- Between two turns, every key is counted or still to come. -/
structure Counting (tid : ℕ) (outside : Outside) (total : ℕ) (writer : Writer) : Prop where
  reporting : Reporting tid outside total writer
  counted : writer.progress.done + writer.rest.length = total

theorem Counting.writeTurn {writer after : Writer} (counting : Counting tid outside total writer)
    (turn : writer.writeTurn flags baseKeys tid outside = .again after) :
    Counting tid outside total after := by
  unfold Writer.writeTurn at turn
  split at turn
  next => cases turn
  next more =>
    obtain ⟨filled, done, taken⟩ := @Reporting.fillBatch flags baseKeys _ _ _ _ counting.reporting
      flags.batch.toNat 0
    have counted := counting.counted
    generalize writer.fillBatch flags baseKeys outside flags.batch.toNat 0 = result
      at turn filled done taken
    obtain ⟨j, full⟩ := result
    cases turn
    dsimp only at filled done taken
    have room : full.progress.done + j ≤ total := by omega
    obtain ⟨finished, rest, ops⟩ := @Reporting.finishedBatchOp flags _ _ _ _ filled j room
    obtain ⟨last, restAfter, doneAfter⟩ := moves_maybePrintRocksDBStats _ finished
    refine ⟨last, ?_⟩
    rw [restAfter, doneAfter, rest, ops]
    omega

theorem moves_finalFlush (writer : Writer) :
    Moves tid outside total writer (writer.finalFlush baseKeys outside) := by
  unfold finalFlush
  dsimp only
  split
  · exact fun reporting => ⟨reporting, rfl, rfl⟩
  · have counted : Moves tid outside total writer
        (if (outside.write writer.writes).ok then
          { writer.write outside with
            successCount := (writer.write outside).successCount + writer.wb.length }
        else (writer.write outside).print (.finalWriteError (writer.write outside).successCount
          (outside.write writer.writes).text writer.wb.length)) := by
      split
      · exact moves_onward ⟨(onward_write writer).reports, le_rfl, rfl, rfl, rfl, rfl⟩ rfl
      · exact moves_onward ((onward_write writer).trans (onward_print rfl _)) rfl
    have due : ∀ counted : Writer, Moves tid outside total counted
        (if IsDue counted.successCount then
          counted.reportProgress baseKeys outside
            (.finalFlush counted.successCount writer.wb.length (outside.write writer.writes).ok)
        else counted) := by
      intro counted
      split
      · exact moves_reportProgress rfl _
      · exact fun reporting => ⟨reporting, rfl, rfl⟩
    exact Moves.trans counted (due _)

theorem counting_start (keys : List UInt64) :
    Counting tid outside keys.length (start flags outside keys) where
  reporting := {
    totalOps := rfl
    within := Nat.zero_le _
    boundary := ⟨dvd_rfl, (by decide : 0 < 10000), (Nat.zero_add 10000).ge⟩
    times := ⟨[], rfl, List.Pairwise.nil, fun _ member => absurd member List.not_mem_nil⟩
    bars := fun _ member => absurd member List.not_mem_nil
    rising := List.Pairwise.nil
    opsShown := fun _ => rfl
    silent := fun _ => rfl
    spaced := by
      refine fun _ => ⟨?_, 0, Nat.zero_lt_succ 1, rfl⟩
      show 30000000 * 0 + (outside.clock 0).toNat ≤ _
      rw [Nat.mul_zero, Nat.zero_add]
      rfl }
  counted := Nat.zero_add _

/-- Behind the loop, the last bar shows all keys. -/
theorem Reporting.finish {writer : Writer} (reporting : Reporting tid outside total writer)
    (all : writer.progress.done = total) :
    Reporting tid outside total (writer.finish outside) ∧
      (total ≠ 0 → ∃ earlier last, (writer.finish outside).bars = earlier ++ [last] ∧
        last.done = total) := by
  have told := reporting.onward (@onward_print (.total writer.successCount) rfl writer)
  refine ⟨told.printProgressBar.onward (onward_print rfl _), fun some => ?_⟩
  have counts : (writer.print (.total writer.successCount)).progress.totalOps ≠ 0 := by
    rw [told.totalOps]
    exact some
  unfold Writer.finish Writer.printProgressBar
  rw [if_neg counts]
  refine ⟨(writer.print (.total writer.successCount)).bars,
    writer.progress.bar (outside.clock writer.reads), ?_, all⟩
  rw [Writer.bars, seen_silent _ rfl, seen_print]
  rfl

end Writer

/-! ## The whole run -/

section Run

variable (flags : Flags) (baseKeys : UInt64) (tid : ℕ) (outside : Outside)

theorem doSimpleRandomWrite_reports (positive : 0 < flags.batch.toNat) (keys : List UInt64) :
    ∃ writer, doSimpleRandomWrite flags baseKeys tid outside keys = some writer ∧
      Writer.Reporting tid outside keys.length writer ∧
      (keys.length ≠ 0 → ∃ earlier last, writer.bars = earlier ++ [last] ∧
        last.done = keys.length) := by
  obtain ⟨writer, returns, _, through⟩ := writeLoop_run flags baseKeys tid outside positive keys
  have counting : Writer.Counting tid outside keys.length writer := by
    refine run_invariant (Writer.writeTurn flags baseKeys tid outside)
      (Writer.Counting tid outside keys.length) _ (fun _ _ holds turn => holds.writeTurn turn) ?_
      (Writer.counting_start keys) returns
    intro state result holds turn
    unfold Writer.writeTurn at turn
    split at turn
    · cases turn
      exact holds
    · cases turn
  have counted := counting.counted
  rw [through, List.length_nil, Nat.add_zero] at counted
  obtain ⟨flushed, _, done⟩ := @Writer.moves_finalFlush baseKeys _ _ _ writer counting.reporting
  obtain ⟨reporting, last⟩ := flushed.finish (done.trans counted)
  exact ⟨_, congrArg (Option.map _) returns, reporting, last⟩

end Run

end FdpRocks.Benchmark
