import FdpRocks.Benchmark.WriteRun
import FdpRocks.Library.Pattern

/-! # The log checks of `run_phase`

`run_two_phase.sh` keeps all that the benchmark prints in one file, and searches
that file for the text of a good run and for the texts of a bad one.
-/

namespace FdpRocks.Benchmark

open FdpRocks.Library.Transition

def Event.text (tid : ℕ) : Event → List Char
  | .write _ _ => []
  | .print message => message.text tid

namespace WriteRun

variable (run : WriteRun)

/-- What one party adds to the log; only workers have a number. -/
def entryText : Option run.Worker × Event → List Char
  | (some tid, event) => event.text tid
  | (none, event) => event.text 0

/-- What `tee` has written after these actions. -/
def log (done : List (Option run.Worker × Event)) : List Char := done.flatMap run.entryText

/-- Every key of every worker was in a batch whose write returned OK. -/
def AllSubmitted (done : List (Option run.Worker × Event)) : Prop :=
  ∀ tid, (actionsOf (some tid) done).flatMap Event.submitted = run.keys tid

end WriteRun

end FdpRocks.Benchmark

namespace FdpRocks.Experiment

open FdpRocks.Library.Pattern

/-! ## Searched texts -/

/-- The pattern of the first `grep`; a count has no character that is special. -/
def totalLine (count : List Char) : List Char :=
  "Total ".toList ++ (count ++ " writes completed".toList)

def noSpaceLeft : List Char := "No space left".toList

def writeError : List Char := "Write ERROR".toList

def writeFailed : List Char := "Write FAILED".toList

/-- The alternatives of the second `grep`. -/
def errorTexts : List (List Char) := [noSpaceLeft, writeError, writeFailed]

/-! ## The checks -/

/-- What `fail` is called with. -/
inductive PhaseFailure where
  | incomplete (phase count : List Char)
  | errors (phase : List Char)

def PhaseFailure.message : PhaseFailure → List Char
  | incomplete phase count =>
    phase ++ " did not complete ".toList ++ count ++ " writes.".toList
  | errors phase => phase ++ " contains a write or capacity error.".toList

/-- The end of `run_phase`, on the finished log.  No searched text has a line
    break, so that a line holds it if and only if the log does. -/
def logChecks (phase count log : List Char) : Except PhaseFailure Unit :=
  if !contains log (totalLine count) then .error (.incomplete phase count)
  else if errorTexts.any (contains log) then .error (.errors phase)
  else .ok ()

end FdpRocks.Experiment
