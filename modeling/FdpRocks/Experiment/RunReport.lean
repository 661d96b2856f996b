import FdpRocks.Experiment.RunPhaseSoundness
import FdpRocks.Scripts.Throughput

/-! # The report of a whole run

What `RunBenchmark` merges and prints once all workers are done.

* `merged_done` — the shares of the workers add up.
* `merged_start`, `merged_finish` — from the first start to the last stop.
* `report_eq_line` — the line that is printed.
-/

namespace FdpRocks.Benchmark

open FdpRocks.Library.Numerals FdpRocks.Scripts

namespace WriteRun

variable (run : WriteRun)

/-- What the worker calls `FinishedBatchOp` with. -/
def operations (tid : run.Worker) : List ℕ :=
  ((doSimpleRandomWrite run.flags run.baseKeys tid (run.outside tid) (run.keys tid)).map
    Writer.finishedOps).getD []

/-- The times of `Start` and `Stop`, in microseconds. -/
structure Times where
  start : run.Worker → ℚ
  stop : run.Worker → ℚ
  forward : ∀ tid, start tid < stop tid

variable {run} (times : run.Times)

/-- `thread->stats` behind `Stop`. -/
def stats (tid : run.Worker) : Stats :=
  { Stats.begin (times.start tid) with done := (run.operations tid).sum }.stop (times.stop tid)

variable (run) in
def firstWorker : run.Worker := ⟨0, workerThreads_pos run.workers⟩

/-- What is merged into the first worker. -/
def otherStats : List Stats := (List.finRange _).tail.map (stats times)

def merged : Stats := Stats.mergeAll (stats times run.firstWorker) (otherStats times)

/-! ## Counts -/

theorem stats_done (tid : run.Worker) : (stats times tid).done = (run.keys tid).length := by
  obtain ⟨writer, returns, _, calls⟩ := doSimpleRandomWrite_total run.flags run.baseKeys tid
    (run.outside tid) run.someBatch (run.keys tid)
  have operations : run.operations tid = writer.finishedOps := by
    rw [WriteRun.operations, returns]
    rfl
  show (run.operations tid).sum = _
  rw [operations, calls.finished]

theorem allStats_eq :
    stats times run.firstWorker :: otherStats times = (List.finRange _).map (stats times) := by
  have first : List.finRange run.flags.workerThreads.toNat
      = run.firstWorker :: (List.finRange run.flags.workerThreads.toNat).tail := by
    have some := workerThreads_pos run.workers
    apply List.ext_getElem
    · simp
      omega
    · intro index early _
      cases index with
      | zero => simp [firstWorker]
      | succ index => simp
  exact (congrArg (List.map (stats times)) first).symm

/-- The shares add up to all keys. -/
theorem keys_total :
    ((List.finRange _).map fun tid => (run.keys tid).length).sum = run.flags.num.toNat := by
  have some := workerThreads_pos run.workers
  have last : ∀ tid : run.Worker, (tid : ℕ) = run.flags.workerThreads.toNat - 1 ↔
      tid = ⟨run.flags.workerThreads.toNat - 1, by omega⟩ :=
    fun tid => (@Fin.ext_iff _ tid ⟨_, _⟩).symm
  simp only [Experiment.share_eq, last]
  rw [← Fin.sum_univ_def, Finset.sum_add_distrib, Finset.sum_ite_eq' Finset.univ,
    if_pos (Finset.mem_univ _), Finset.sum_const, Finset.card_univ, Fintype.card_fin, smul_eq_mul]
  exact Nat.div_add_mod _ _

theorem merged_done : (merged times).done = run.flags.num.toNat := by
  rw [merged, Stats.mergeAll_done, allStats_eq, List.map_map, ← keys_total]
  congr 1
  exact List.map_congr_left fun tid _ => stats_done times tid

/-! ## Times -/

theorem merged_start : IsLeast (Set.range times.start) (merged times).start := by
  have least : (((stats times run.firstWorker).start :: (otherStats times).map Stats.start)).min?
      = some (merged times).start := by rw [merged, Stats.mergeAll_start, List.min?_cons']
  rw [← List.map_cons, allStats_eq, List.map_map, List.min?_eq_some_iff] at least
  simpa [stats, Stats.stop, Stats.begin, IsLeast, lowerBounds] using least

theorem merged_finish : IsGreatest (Set.range times.stop) (merged times).finish := by
  have greatest : (((stats times run.firstWorker).finish :: (otherStats times).map Stats.finish)).max?
      = some (merged times).finish := by rw [merged, Stats.mergeAll_finish, List.max?_cons']
  rw [← List.map_cons, allStats_eq, List.map_map, List.max?_eq_some_iff] at greatest
  simpa [stats, Stats.stop, IsGreatest, upperBounds] using greatest

theorem merged_forward : (merged times).start < (merged times).finish :=
  calc (merged times).start
    _ ≤ times.start run.firstWorker := (merged_start times).2 (Set.mem_range_self _)
    _ < times.stop run.firstWorker := times.forward _
    _ ≤ (merged times).finish := (merged_finish times).2 (Set.mem_range_self _)

/-- The printed rate, in millionths. -/
def shownRate : ℕ :=
  (roundHalfEven (run.flags.num.toNat / (((merged times).finish - (merged times).start) / 10 ^ 6)
    / 1024 / 1024 * 10 ^ 6)).toNat

def reportText : List Char := (merged times).report "randomwrite".toList

theorem reportText_eq : ∃ padding perOp : ℕ,
    reportText times = reportLine padding (pointed 3 perOp) (pointed 6 (shownRate times)) := by
  have done := merged_done times
  have some : 1 ≤ (merged times).done := by
    rw [done, Nat.one_le_iff_ne_zero]
    exact fun none => run.someKeys (UInt64.toNat_inj.mp none)
  obtain ⟨padding, perOp, line⟩ := report_eq some (merged_forward times)
  exact ⟨padding, perOp, by rw [reportText, line, done, shownRate]⟩

end WriteRun

end FdpRocks.Benchmark
