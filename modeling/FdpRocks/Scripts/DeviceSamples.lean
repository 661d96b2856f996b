import FdpRocks.Library.Markers
import FdpRocks.Library.PythonText
import FdpRocks.Scripts.CurvesSoundness

/-! # `device_samples`

`sample_fdp_stats.sh` writes a line with the time and then whatever
`nvme fdp stats` prints; both converters split such a log at the lines again.
`float` is a parameter; it may raise.
-/

namespace FdpRocks.Scripts

open FdpRocks.Library.Numerals FdpRocks.Library.Pattern FdpRocks.Library.PythonText

def sampleMarker : List Char := "SAMPLE timestamp=".toList

def hbmwLabel : List Char := "HBMW):".toList

def mbmwLabel : List Char := "MBMW):".toList

variable (unicode : Unicode) (float : List Char → Except Raised ℚ)

/-! ## The converters -/

/-- `[\d,]`. -/
def digitOrComma (character : Char) : Bool := unicode.isDigit character || character = ','

/-- `HBMW_RE` and `MBMW_RE`. -/
def counterRe (label : List Char) : List Piece :=
  literals label ++ [.run 1 unicode.isSpace, .group 1 (digitOrComma unicode)]

/-- `int(match.group(1).replace(",", ""))`. -/
def counterValue (found : Match) : Script ℕ :=
  let digits := (found.groups.headD []).filter (· ≠ ',')
  if digits = [] then
    throw (.valueError "invalid literal for int() with base 10: ''".toList)
  else
    return unicode.int digits

/-- One turn of the loop over the chunks. -/
def readDevice (chunk : List Char) : Script (Option DeviceSample) :=
  let timestamp := chunk.takeWhile (· ≠ '\n')
  let rest := (chunk.dropWhile (· ≠ '\n')).tail
  match search (counterRe unicode hbmwLabel) rest, search (counterRe unicode mbmwLabel) rest with
  | some hbmw, some mbmw => do
    let time ← ExceptT.mk (some (float (unicode.strip timestamp)))
    let host ← counterValue unicode hbmw
    let media ← counterValue unicode mbmw
    return some ⟨time, host, media⟩
  | _, _ => return none

/-- What one file contributes. -/
def fileSamples (content : List Char) : Script (List DeviceSample) := do
  let chunks := (split sampleMarker 0 (universalNewlines content)).2
  let samples ← chunks.mapM (readDevice unicode float)
  return samples.reduceOption

/-- The order of the tuples. -/
def DeviceSample.key (sample : DeviceSample) : ℚ ×ₗ ℤ ×ₗ ℤ :=
  toLex (sample.timestamp, toLex (sample.hbmw, sample.mbmw))

/-- `sorted`. -/
def sortSamples (samples : List DeviceSample) : List DeviceSample :=
  samples.insertionSort fun sample later => sample.key ≤ later.key

/-- `device_samples` of `results_to_wa_csv.py`. -/
def deviceSamples (path content : List Char) : Script (List DeviceSample) := do
  let samples ← fileSamples unicode float content
  if samples.length < 2 then
    throw (.valueError ("Insufficient FDP samples in ".toList ++ path))
  else
    return sortSamples samples

/-- `device_samples` of `legacy_logs_to_wa_csv.py`, of several files. -/
def legacyDeviceSamples (contents : List (List Char)) : Script (List DeviceSample) := do
  let samples ← contents.mapM (fileSamples unicode float)
  return sortSamples samples.flatten

/-! ## The sampler -/

/-- One turn of `sample_fdp_stats.sh`: the time of `date +%s.%N`, and what `nvme`
    or `sudo` printed. -/
structure SamplerTurn where
  nanoseconds : ℕ
  output : List Char

def SamplerTurn.text (turn : SamplerTurn) : List Char :=
  sampleMarker ++ (pointed 9 turn.nanoseconds ++ '\n' :: turn.output)

/-- A log that turns are appended to. -/
def samplerLog (before : List Char) (turns : List SamplerTurn) : List Char :=
  before ++ turns.flatMap SamplerTurn.text

end FdpRocks.Scripts
