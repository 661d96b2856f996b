import FdpRocks.Library.Markers

/-! # `progress_points`

The progress lines of the benchmark as `results_to_wa_csv.py` reads them: times
and key counts of any number of logs, sorted.
-/

namespace FdpRocks.Scripts

open FdpRocks.Library.Numerals FdpRocks.Library.Pattern FdpRocks.Library.PythonText

def progressMarker : List Char := "[write-progress]".toList

variable (unicode : Unicode)

/-- `PROGRESS_RE`. -/
def writeProgressRe : List Piece :=
  literals progressMarker ++ .run 1 unicode.isSpace :: (literals "timestamp=".toList
    ++ .group 1 (digitOrPoint unicode) :: .run 1 unicode.isSpace
    :: (literals "completed_keys=".toList ++ [.group 1 unicode.isDigit]))

/-- `(float(match.group(1)), int(match.group(2)))`. -/
def progressPoint (found : Match) : Script (ℚ × ℕ) :=
  let timestamp := found.groups.getD 0 []
  match unicode.float timestamp with
  | some time => return (time, unicode.int (found.groups.getD 1 []))
  | none =>
    throw (.valueError ("could not convert string to float: '".toList ++ timestamp ++ ['\'']))

/-- What one file contributes. -/
def filePoints (content : List Char) : Script (List (ℚ × ℕ)) :=
  (findAll (writeProgressRe unicode) 0 (universalNewlines content)).mapM (progressPoint unicode)

/-- `sorted`, of pairs. -/
def sortPoints (points : List (ℚ × ℕ)) : List (ℚ × ℕ) :=
  points.insertionSort fun point later => toLex point ≤ toLex later

/-- `progress_points`, of files with these contents. -/
def progressPoints (contents : List (List Char)) : Script (List (ℚ × ℕ)) := do
  let points ← contents.mapM (filePoints unicode)
  if points.flatten = [] then
    throw (.valueError "No machine-readable progress samples found".toList)
  else
    return sortPoints points.flatten

end FdpRocks.Scripts
