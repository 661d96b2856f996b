import FdpRocks.Library.Double

/-! # Progress reports of `Stats`

When a worker prints its progress bar, and what the bar says.  Each operation on
doubles is rounded; times are microseconds, which doubles have as they are.
-/

namespace FdpRocks.Benchmark

open FdpRocks.Library.Numerals FdpRocks.Library.Double

/-- The members of `Stats` that reports depend on, times in microseconds. -/
structure Progress where
  start : ℕ
  done : ℕ
  totalOps : ℕ
  nextReport : ℕ
  nextReportTime : ℕ
  lastRocksdbStatsTime : UInt64
  next10kBoundary : ℕ
  prev10kTime : ℕ
  curr10kTime : ℕ

/-- What `PrintProgressBar` computes for its line. -/
structure Bar where
  filled : ℕ
  percentage : ℚ
  done : ℕ
  totalOps : ℕ
  opsPerSec : ℚ
  etaHours : ℕ
  etaMins : ℕ
  etaSecs : ℕ

namespace Progress

/-- `Start` at time `now`, then `SetTotalOps`. -/
def begin (reportInterval : UInt64) (now : UInt64) (totalOps : ℕ) : Progress where
  start := now.toNat
  done := 0
  totalOps := totalOps
  nextReport := 100
  nextReportTime := now.toNat + reportInterval.toNat * 1000000
  lastRocksdbStatsTime := now
  next10kBoundary := 10000
  prev10kTime := 0
  curr10kTime := 0

/-- The turns that the loop over `next_10k_boundary_` takes. -/
def crossings (progress : Progress) : ℕ := (progress.done + 10000 - progress.next10kBoundary) / 10000

/-- One of these turns, at time `now`. -/
def cross (progress : Progress) (now : UInt64) : Progress :=
  { progress with
    prev10kTime := progress.curr10kTime
    curr10kTime := now.toNat
    next10kBoundary := progress.next10kBoundary + 10000 }

/-- The step from one report to the next grows with the count. -/
def raiseNextReport (progress : Progress) : Progress :=
  { progress with
    nextReport := progress.nextReport +
      if progress.nextReport < 1000 then 100
      else if progress.nextReport < 5000 then 500
      else if progress.nextReport < 10000 then 1000
      else if progress.nextReport < 50000 then 5000
      else if progress.nextReport < 100000 then 10000
      else if progress.nextReport < 500000 then 50000
      else 100000 }

/-- The rate over the last 10000 operations, or since the start. -/
def opsPerSec (progress : Progress) (now : UInt64) : ℚ :=
  let interval := rounded (progress.curr10kTime - progress.prev10kTime)
  let elapsed := rounded (rounded (now.toNat - progress.start) / 1000000)
  if 20000 ≤ progress.next10kBoundary ∧ 0 < progress.prev10kTime ∧ 0 < interval then
    rounded (10000 / rounded (interval / 1000000))
  else if 0 < elapsed then rounded (rounded progress.done / elapsed)
  else 0

/-- `(double)done_ / total_ops_ * 100.0`, and `100.0` at most. -/
def percentage (progress : Progress) : ℚ :=
  min (rounded (rounded (rounded progress.done / rounded progress.totalOps) * 100)) 100

/-- The bar of a worker that has a total. -/
def bar (progress : Progress) (now : UInt64) : Bar :=
  let opsPerSec := progress.opsPerSec now
  let remainingOps := rounded (progress.totalOps - progress.done : ℕ)
  let etaSeconds := if 0 < opsPerSec then rounded (remainingOps / opsPerSec) else 0
  let etaHours := ⌊rounded (etaSeconds / 3600)⌋₊
  let etaMins := ⌊rounded (rounded (etaSeconds - etaHours * 3600) / 60)⌋₊
  { filled := min ⌊rounded (rounded (progress.percentage / 100) * 50)⌋₊ 50
    percentage := progress.percentage
    done := progress.done
    totalOps := progress.totalOps
    opsPerSec := opsPerSec
    etaHours := etaHours
    etaMins := etaMins
    etaSecs := ⌊rounded (rounded (etaSeconds - etaHours * 3600) - etaMins * 60)⌋₊ }

end Progress

/-- `%0*d`. -/
def zeroPadded (width value : ℕ) : List Char :=
  List.replicate (width - (decimal value).length) '0' ++ decimal value

/-- The fifty characters between the brackets. -/
def Bar.cells (bar : Bar) : List Char :=
  (List.range 50).map fun cell =>
    if cell < bar.filled then '=' else if cell = bar.filled then '>' else ' '

def Bar.text (bar : Bar) : List Char :=
  ": [".toList ++ bar.cells ++ "] ".toList ++ fixedPoint 1 bar.percentage ++ "% (".toList
    ++ decimal bar.done ++ "/".toList ++ decimal bar.totalOps ++ ") | ".toList
    ++ fixedPoint 1 bar.opsPerSec ++ " ops/s | ETA: ".toList ++ zeroPadded 2 bar.etaHours
    ++ ":".toList ++ zeroPadded 2 bar.etaMins ++ ":".toList ++ zeroPadded 2 bar.etaSecs
    ++ "\r".toList

end FdpRocks.Benchmark
