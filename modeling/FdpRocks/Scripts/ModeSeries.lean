import FdpRocks.Scripts.DeviceSamples
import FdpRocks.Scripts.ProgressPoints
import FdpRocks.Scripts.WaSeries

/-! # `results_to_wa_csv.py` as a whole

`mode_series` and `main`, from the contents of the log files to the rows of the
table, in exact numbers.  `numpy.interp` and `float` are parameters.
-/

namespace FdpRocks.Scripts

open FdpRocks.Library.PythonText

variable (npInterp : ℚ → ℚ → List (ℚ × ℚ) → ℚ → ℚ) (unicode : Unicode)
  (float : List Char → Except Raised ℚ)

/-- The files of one mode: two logs and the statistics. -/
structure ModeFiles where
  phase1 : List Char
  phase2 : List Char
  stats : List Char

/-- `directory / mode / name`. -/
def modeFile (directory mode name : List Char) : List Char :=
  directory ++ '/' :: mode ++ '/' :: name

/-- No curve goes through no points. -/
def resample (x y targets : List ℚ) : Script (List ℚ) :=
  match interpolate npInterp (x.zip y) targets with
  | some values => return values
  | none => throw (.valueError "array of sample points is empty".toList)

/-- `dlwa_series` without roundings; the mask keeps the divisors from zero. -/
def dlwaCurve (progress : List (ℚ × ℕ)) (samples : List DeviceSample) : Script (List ℚ × List ℚ) :=
  match dlwaSeries npInterp some progress samples with
  | some curve => return curve
  | none => throw .zeroDivisionError

def modeSeries (directory mode : List Char) (files : ModeFiles) (phase1Keys phase2Keys : ℤ)
    (targets : List ℚ) : Script (List ℚ × List ℚ) := do
  let (x1, y1) ← waSeries unicode (modeFile directory mode (mode ++ "_phase1.log".toList))
    files.phase1 0 phase1Keys
  let (x2, y2) ← waSeries unicode (modeFile directory mode (mode ++ "_phase2.log".toList))
    files.phase2 phase1Keys phase2Keys
  let alwa ← resample npInterp (x1 ++ x2) (y1 ++ y2) targets
  let progress ← progressPoints unicode [files.phase1, files.phase2]
  let samples ← deviceSamples unicode float (modeFile directory mode "fdp_stats.log".toList) files.stats
  let (dx, dy) ← dlwaCurve npInterp progress samples
  let dlwa ← resample npInterp dx dy targets
  return (alwa, dlwa)

/-- `np.arange (0, total + 1, step) / 1_000_000`. -/
def targetsOf (total step : ℤ) : Script (List ℚ) :=
  if step = 0 then throw .zeroDivisionError
  else return (List.range ⌈((total + 1 : ℤ) : ℚ) / step⌉.toNat).map fun index : ℕ =>
    (index * step : ℚ) / 1000000

/-- A row of the table. -/
structure Row where
  keys : ℚ
  alwaFdpRocks : ℚ
  alwaRocksdbFdp : ℚ
  dlwaFdpRocks : ℚ
  dlwaRocksdbFdp : ℚ
deriving DecidableEq

/-- `zip (targets, model_alwa, baseline_alwa, model_dlwa, baseline_dlwa)`. -/
def rowsOf (targets modelAlwa baselineAlwa modelDlwa baselineDlwa : List ℚ) : List Row :=
  (targets.zip (modelAlwa.zip (baselineAlwa.zip (modelDlwa.zip baselineDlwa)))).map
    fun (keys, modelAlwa, baselineAlwa, modelDlwa, baselineDlwa) =>
      ⟨keys, modelAlwa, baselineAlwa, modelDlwa, baselineDlwa⟩

/-- `main`, up to the rows that it writes. -/
def waTable (directory : List Char) (baseline model : ModeFiles) (phase1Keys phase2Keys step : ℤ) :
    Script (List Row) := do
  let targets ← targetsOf (phase1Keys + phase2Keys) step
  let (baselineAlwa, baselineDlwa) ← modeSeries npInterp unicode float directory "baseline".toList
    baseline phase1Keys phase2Keys targets
  let (modelAlwa, modelDlwa) ← modeSeries npInterp unicode float directory "model".toList
    model phase1Keys phase2Keys targets
  return rowsOf targets modelAlwa baselineAlwa modelDlwa baselineDlwa

end FdpRocks.Scripts
