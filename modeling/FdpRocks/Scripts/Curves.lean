import FdpRocks.Library.Interpolation

/-! # Curves of `results_to_wa_csv.py` and `legacy_logs_to_wa_csv.py`

`interpolate`, over exact numbers, and `dlwa_series`, over exact numbers or over
doubles.  `numpy.interp` is a parameter; its arguments are the left and the right
value, the knots and one target.
-/

namespace FdpRocks.Scripts

variable (npInterp : ℚ → ℚ → List (ℚ × ℚ) → ℚ → ℚ)

/-! ## `interpolate` -/

/-- `np.argsort (x, kind = "stable")`, applied to both arrays. -/
def stableOrder (points : List (ℚ × ℚ)) : List (ℚ × ℚ) :=
  points.insertionSort fun point other => point.1 ≤ other.1

def tolerance : ℚ := 1 / 1000000000

/-- The body of the loop: `unique_x` and `unique_y` side by side. -/
def addPoint (knots : List (ℚ × ℚ)) (point : ℚ × ℚ) : List (ℚ × ℚ) :=
  match knots.getLast? with
  | some last =>
    if |point.1 - last.1| < tolerance then knots.dropLast ++ [(last.1, point.2)]
    else knots ++ [point]
  | none => knots ++ [point]

def uniqueKnots (points : List (ℚ × ℚ)) : List (ℚ × ℚ) := (stableOrder points).foldl addPoint []

/-- Without `left` and `right` these are the first and the last value.  There is
    no interpolation through no points. -/
def interpolate (points : List (ℚ × ℚ)) (targets : List ℚ) : Option (List ℚ) := do
  let knots := uniqueKnots points
  let first ← knots.head?
  let last ← knots.getLast?
  return targets.map (npInterp first.2 last.2 knots)

/-! ## `dlwa_series` -/

/-- Counters are unsigned in the sampled output, but not used as such. -/
structure DeviceSample where
  timestamp : ℚ
  hbmw : ℤ
  mbmw : ℤ
deriving DecidableEq

section Series

-- What the arithmetic makes of a number: the nearest double, or for exact numbers
-- `some`.  There is none beyond the doubles, where Python refuses an integer.
variable (rounding : ℚ → Option ℚ)

/-- A division that is not by zero. -/
def divide (dividend divisor : ℚ) : Option ℚ :=
  if divisor = 0 then none else rounding (dividend / divisor)

/-- An entry of `counters - counters[0]`, of an array of doubles. -/
def counterDelta (first counter : ℤ) : Option ℚ := do
  let start ← rounding first
  let value ← rounding counter
  rounding (value - start)

/-- `progress_t` and `progress_k`: a point is a time and a number of completed
    keys. -/
def progressKnots (progress : List (ℚ × ℕ)) : Option (List (ℚ × ℚ)) :=
  progress.mapM fun point => (rounding point.2).map fun keys => (point.1, keys)

/-- The entries of `keys`, `host_delta` and `media_delta` for one sample. -/
structure DevicePoint where
  keys : ℚ
  hostDelta : ℚ
  mediaDelta : ℚ

/-- `last` is `progress_k[-1]`. -/
def devicePoint (knots : List (ℚ × ℚ)) (last : ℚ) (first sample : DeviceSample) :
    Option DevicePoint := do
  let hostDelta ← counterDelta rounding first.hbmw sample.hbmw
  let mediaDelta ← counterDelta rounding first.mbmw sample.mbmw
  return ⟨npInterp 0 last knots sample.timestamp, hostDelta, mediaDelta⟩

/-- The mask. -/
def DevicePoint.valid (point : DevicePoint) : Bool :=
  decide (point.hostDelta > 1024 * 1024) && decide (point.keys > 0)

def dlwaSeries (progress : List (ℚ × ℕ)) (samples : List DeviceSample) :
    Option (List ℚ × List ℚ) := do
  let knots ← progressKnots rounding progress
  let last ← knots.getLast?
  let first ← samples.head?
  let points ← samples.mapM (devicePoint npInterp rounding knots last.2 first)
  let valid := points.filter DevicePoint.valid
  let x ← valid.mapM fun point => rounding (point.keys / 1000000)
  let y ← valid.mapM fun point => divide rounding point.mediaDelta point.hostDelta
  return (0 :: x, 1 :: y)

/-- The legacy script sorts the points itself, by time and then by keys. -/
def dlwa (points : List (ℚ × ℕ)) (samples : List DeviceSample) : Option (List ℚ × List ℚ) :=
  if points = [] ∨ samples.length < 2 then none
  else
    dlwaSeries npInterp rounding
      (points.insertionSort fun point other => toLex point ≤ toLex other) samples

end Series

end FdpRocks.Scripts
