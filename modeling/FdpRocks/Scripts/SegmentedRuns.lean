import FdpRocks.Library.Double
import FdpRocks.Scripts.WaBlocks

/-! # `segmented_alwa`

`legacy_logs_to_wa_csv.py` makes one write-amplification curve out of a
two-phase log and the logs of the runs that resumed its second phase.  Floats
are exact rationals, but Python raises where an integer has no double; files are
their decoded text.
-/

namespace FdpRocks.Scripts

open FdpRocks.Library FdpRocks.Library.Numerals FdpRocks.Library.Pattern FdpRocks.Library.PythonText

variable (unicode : Unicode)

/-! ## Positions and progress -/

/-- `PROGRESS_RE`. -/
def progressRe : List Piece :=
  literals "[timestamp=".toList
    ++ .group 1 (digitOrPoint unicode) :: .literal ']' :: .run 0 unicode.isSpace :: .literal '|'
    :: .run 0 unicode.isSpace :: .run 1 (· ≠ ':') :: .literal ':' :: .run 0 unicode.isSpace
    :: [.group 1 unicode.isDigit]

/-- `PHASE2_RE` behind its `^`. -/
def phase2Re : List Piece :=
  .run 0 (· ≠ '\n') :: (literals "2:".toList
    ++ .run 0 unicode.isSpace :: (literals "Phase2".toList
    ++ .run 1 unicode.isSpace :: [.literal '-']))

/-- Where a multiline `^` and then the pattern first match, from `position` on. -/
def searchLine (pattern : List Piece) (lineStart : Bool) (position : ℕ) :
    List Char → Option ℕ
  | [] => if lineStart ∧ (matchPieces pattern []).isSome then some position else none
  | head :: text =>
    if lineStart ∧ (matchPieces pattern (head :: text)).isSome then some position
    else searchLine pattern (head = '\n') (position + 1) text

def phase2Position (text : List Char) : Script ℕ :=
  match searchLine (phase2Re unicode) true 0 text with
  | some position => pure position
  | none => throw (.valueError "Phase2 marker not found".toList)

/-- `int(match.group(2))` of every match of `PROGRESS_RE`. -/
def progressValues (text : List Char) : List ℕ :=
  (findAll (progressRe unicode) 0 text).map fun found => unicode.int (found.groups.getD 1 [])

def lastProgress (text : List Char) (phase2 : Bool) : Script ℕ := do
  let split ← phase2Position unicode text
  let part := if phase2 then text.drop split else text.take split
  match (progressValues unicode part).getLast? with
  | some value => return value
  | none => throw (.valueError "No progress samples found".toList)

/-! ## Scaling one run -/

instance : Zero Sample := ⟨⟨0, 0, 0⟩⟩

instance : Add Sample :=
  ⟨fun sample other =>
    ⟨sample.user + other.user, sample.flush + other.flush, sample.compact + other.compact⟩⟩

/-- `/` of two integers. -/
def trueDivide (dividend : ℤ) (divisor : ℕ) : Script ℚ :=
  if divisor = 0 then throw .zeroDivisionError
  else if Double.Fits (dividend / divisor) then return dividend / divisor
  else throw .overflowError

/-- `base_keys + written_keys * user / final_user`; the sum is one of floats. -/
def keysReached (baseKeys writtenKeys : ℤ) (finalUser user : ℕ) : Script ℚ := do
  let share ← trueDivide (writtenKeys * user) finalUser
  if Double.Fits baseKeys then return baseKeys + share else throw .overflowError

/-- What one turn of the loop appends to `x` and to `y`. -/
def scaledPoint (baseKeys writtenKeys : ℤ) (finalUser : ℕ) (offset sample : Sample) :
    Script (ℚ × ℚ) := do
  let totalUser := offset.user + sample.user
  let totalWritten := offset.flush + sample.flush + offset.compact + sample.compact
  let reached ← keysReached baseKeys writtenKeys finalUser sample.user
  let ratio ← trueDivide totalWritten totalUser
  return (reached / 1000000, ratio)

/-- The arrays of x and y values, and the offset for the next run. -/
def scaledWa (blocks : List Sample) (baseKeys writtenKeys : ℤ) (offset : Sample) :
    Script (List ℚ × List ℚ × Sample) :=
  match blocks.getLast? with
  | none => throw (.valueError "No valid write-amplification blocks".toList)
  | some last =>
    if last.user ≤ 0 then
      throw (.valueError "No valid write-amplification blocks".toList)
    else do
      let points ← blocks.mapM (scaledPoint baseKeys writtenKeys last.user offset)
      return (points.map Prod.fst, points.map Prod.snd, offset + last)

/-! ## Stitching resumed runs -/

structure LogFile where
  path : List Char
  content : List Char

def LogFile.readText (file : LogFile) : List Char := universalNewlines file.content

/-- The variables of the loop over `resumes`. -/
structure Stitching where
  xParts : List (List ℚ)
  yParts : List (List ℚ)
  offset : Sample
  completed : ℤ

def resumeTurn (phase1Keys : ℤ) (state : Stitching) (resume : LogFile) : Script Stitching := do
  let resumeText := resume.readText
  match (progressValues unicode resumeText).getLast? with
  | none => throw (.valueError ("No resume progress in ".toList ++ resume.path))
  | some finish =>
    let blocks ← liftM (locatedBlocks unicode resumeText)
    let (x, y, offset) ← scaledWa (blocks.map Prod.snd) (phase1Keys + state.completed)
      (finish - state.completed) state.offset
    return ⟨state.xParts ++ [x], state.yParts ++ [y], offset, finish⟩

def segmentedAlwa (initial : LogFile) (resumes : List LogFile) (phase1Keys phase2Keys : ℤ) :
    Script (List ℚ × List ℚ) := do
  let text := initial.readText
  let split ← phase2Position unicode text
  let blocks ← liftM (locatedBlocks unicode text)
  let phase1 := (blocks.filter fun block => block.1 < split).map Prod.snd
  let phase2 := (blocks.filter fun block => block.1 ≥ split).map Prod.snd
  let (x1, y1, _) ← scaledWa phase1 0 (← lastProgress unicode text false) 0
  let completed ← lastProgress unicode text true
  let (x2, y2, offset) ← scaledWa phase2 phase1Keys completed 0
  let final ← resumes.foldlM (resumeTurn unicode phase1Keys) ⟨[x1, x2], [y1, y2], offset, completed⟩
  if final.completed ≠ phase2Keys then
    throw (.valueError ("Segmented Phase2 ended at ".toList ++ (toString final.completed).toList
      ++ ", expected ".toList ++ (toString phase2Keys).toList))
  else
    return (final.xParts.flatten, final.yParts.flatten)

end FdpRocks.Scripts
