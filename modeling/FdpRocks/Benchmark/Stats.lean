import FdpRocks.Library.Numerals

/-! # `Stats`

The counters a worker keeps over its run, how `RunBenchmark` merges them, and
the line it reports.  Times are exact numbers of microseconds.
-/

namespace FdpRocks.Benchmark

open FdpRocks.Library.Numerals

structure Stats where
  done : ℕ
  start : ℚ
  finish : ℚ
  /-- Seconds between `start` and `finish`, summed over merged workers. -/
  seconds : ℚ
deriving DecidableEq

namespace Stats

/-- `Start` at time `now`, also what the constructor does. -/
def begin (now : ℚ) : Stats := ⟨0, now, now, 0⟩

/-- `Stop` at time `now`. -/
def stop (stats : Stats) (now : ℚ) : Stats :=
  { stats with finish := now, seconds := (now - stats.start) / 10 ^ 6 }

def merge (stats other : Stats) : Stats where
  done := stats.done + other.done
  seconds := stats.seconds + other.seconds
  start := if other.start < stats.start then other.start else stats.start
  finish := if other.finish > stats.finish then other.finish else stats.finish

/-- The line of `Report`.  An interval of no length has an infinite rate. -/
def report (stats : Stats) (name : List Char) : List Char :=
  let done : ℚ := if stats.done < 1 then 1 else stats.done
  let elapsed := (stats.finish - stats.start) / 10 ^ 6
  let throughput := done / elapsed
  padRight 12 name ++ " : ".toList
    ++ padLeft 11 (fixedPoint 3 (elapsed * 10 ^ 6 / done)) ++ " micros/op ".toList
    ++ (if elapsed = 0 then "inf".toList else fixedPoint 6 (throughput / 1024 / 1024))
    ++ " Mops/s\n".toList

/-! ## Merging -/

/-- The merge loop of `RunBenchmark`: workers `1` to `N - 1` into worker `0`. -/
def mergeAll (first : Stats) (others : List Stats) : Stats := others.foldl merge first

theorem merge_start (stats other : Stats) :
    (stats.merge other).start = min stats.start other.start := by
  by_cases earlier : other.start < stats.start
  · rw [merge, if_pos earlier, min_eq_right earlier.le]
  · rw [merge, if_neg earlier, min_eq_left (not_lt.mp earlier)]

theorem merge_finish (stats other : Stats) :
    (stats.merge other).finish = max stats.finish other.finish := by
  by_cases later : other.finish > stats.finish
  · rw [merge, if_pos later, max_eq_right later.le]
  · rw [merge, if_neg later, max_eq_left (not_lt.mp later)]

theorem mergeAll_done (first : Stats) (others : List Stats) :
    (mergeAll first others).done = ((first :: others).map done).sum := by
  induction others generalizing first with
  | nil => simp [mergeAll]
  | cons other others inductionHypothesis =>
    rw [mergeAll, List.foldl_cons, ← mergeAll, inductionHypothesis]
    simp [merge, Nat.add_assoc]

theorem mergeAll_start (first : Stats) (others : List Stats) :
    (mergeAll first others).start = (others.map start).foldl min first.start := by
  induction others generalizing first with
  | nil => rfl
  | cons other others inductionHypothesis =>
    rw [mergeAll, List.foldl_cons, ← mergeAll, inductionHypothesis, merge_start]
    rfl

theorem mergeAll_finish (first : Stats) (others : List Stats) :
    (mergeAll first others).finish = (others.map finish).foldl max first.finish := by
  induction others generalizing first with
  | nil => rfl
  | cons other others inductionHypothesis =>
    rw [mergeAll, List.foldl_cons, ← mergeAll, inductionHypothesis, merge_finish]
    rfl

/-! ## The rate behind the report -/

/-- Operations per second of the whole run: all operations, from the first start
    to the last finish. -/
def rate (first : Stats) (others : List Stats) : ℚ :=
  ((first :: others).map done).sum
    / (((others.map finish).foldl max first.finish - (others.map start).foldl min first.start)
      / 10 ^ 6)

theorem rate_eq (first : Stats) (others : List Stats) :
    rate first others = (mergeAll first others).done
      / (((mergeAll first others).finish - (mergeAll first others).start) / 10 ^ 6) := by
  rw [mergeAll_done, mergeAll_start, mergeAll_finish, rate]

theorem rate_pos {first : Stats} {others : List Stats}
    (someDone : 1 ≤ (mergeAll first others).done)
    (elapsed : (mergeAll first others).start < (mergeAll first others).finish) :
    0 < rate first others := by
  have counted : (0 : ℚ) < (mergeAll first others).done := by exact_mod_cast someDone
  rw [rate_eq]
  exact div_pos counted (div_pos (sub_pos.mpr elapsed) (by norm_num))

end Stats

end FdpRocks.Benchmark
