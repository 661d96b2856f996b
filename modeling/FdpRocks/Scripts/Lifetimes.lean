import Mathlib

/-! # `parse_log` of `extract_p25_thresholds.py`

The lifetimes of table files, by level, from a RocksDB log.  A line is what
`MOVE_RE`, `EVENT_RE` and `json.loads` make of it.
-/

namespace FdpRocks.Scripts

/-! ## Lines -/

/-- The fields of an `EVENT_LOG_v1` object that the script asks for; `none` is a
    field that is absent or null. -/
structure LogEvent where
  event : Option String := none
  timeMicros : Option ℤ := none
  fileNumber : Option ℤ := none
  level : Option ℤ := none
  destinationLevel : Option ℤ := none
  inputFiles : Option (List ℤ) := none

inductive LogLine where
  /-- `Moved #fileNumber to level-destination … bytes`. -/
  | moved (fileNumber destination : ℕ)
  | event (fields : LogEvent)
  /-- No match, or no JSON behind `EVENT_LOG_v1`. -/
  | noise

/-! ## The pass over the lines -/

/-- The variables of the first loop; a dictionary that is iterated keeps its
    insertion order. -/
structure LogTables where
  created : List (ℤ × ℤ × ℤ) := []
  deleted : ℤ → Option ℤ := fun _ => none
  moved : ℤ → Bool := fun _ => false
  moveDestination : ℤ → Option ℤ := fun _ => none
  finalTime : ℤ := 0

namespace LogTables

/-- `moved.add`, with its destination. -/
def move (destination : ℤ) (tables : LogTables) (fileNumber : ℤ) : LogTables :=
  { tables with
    moved := Function.update tables.moved fileNumber true
    moveDestination := Function.update tables.moveDestination fileNumber (some destination) }

/-- `final_time = max (final_time, timestamp)`, if there is a timestamp. -/
def tick (tables : LogTables) : Option ℤ → LogTables
  | none => tables
  | some timestamp => { tables with finalTime := max tables.finalTime timestamp }

def create (tables : LogTables) (fileNumber timestamp : ℤ) (level : Option ℤ) : LogTables :=
  match level with
  | none => tables
  | some level =>
    if fileNumber ∈ tables.created.map Prod.fst then tables
    else { tables with created := tables.created ++ [(fileNumber, timestamp, level)] }

def delete (tables : LogTables) (fileNumber timestamp : ℤ) : LogTables :=
  { tables with deleted := Function.update tables.deleted fileNumber (some timestamp) }

/-- The body of the loop. -/
def line (tables : LogTables) : LogLine → LogTables
  | .noise => tables
  | .moved fileNumber destination => tables.move destination fileNumber
  | .event fields =>
    let ticked := tables.tick fields.timeMicros
    if fields.event = some "trivial_move" then
      match fields.destinationLevel with
      | none => ticked
      | some destination => (fields.inputFiles.getD []).foldl (move destination) ticked
    else
      match fields.fileNumber, fields.timeMicros with
      | some fileNumber, some timestamp =>
        if fields.event = some "table_file_creation" then
          ticked.create fileNumber timestamp fields.level
        else if fields.event = some "table_file_deletion" then ticked.delete fileNumber timestamp
        else ticked
      | _, _ => ticked

def lines (log : List LogLine) : LogTables := log.foldl line {}

end LogTables

/-! ## Lifetimes -/

variable (useMoveDestination : Bool)

/-- One turn of the second loop. -/
def addLifetime (tables : LogTables) (lifetimes : ℤ → List ℚ) (entry : ℤ × ℤ × ℤ) : ℤ → List ℚ :=
  let (fileNumber, createdAt, createdLevel) := entry
  let level :=
    if useMoveDestination then (tables.moveDestination fileNumber).getD createdLevel
    else createdLevel
  if ¬ useMoveDestination ∧ tables.moved fileNumber then lifetimes
  else if ¬ (1 ≤ level ∧ level < 6) then lifetimes
  else
    let deletedAt := (tables.deleted fileNumber).getD tables.finalTime
    let lifetime := ((deletedAt - createdAt : ℤ) : ℚ) / 1000000
    if lifetime ≥ 0 then Function.update lifetimes level (lifetimes level ++ [lifetime])
    else lifetimes

/-- The samples of each level. -/
def parseLog (log : List LogLine) : ℤ → List ℚ :=
  let tables := LogTables.lines log
  tables.created.foldl (addLifetime useMoveDestination tables) fun _ => []

end FdpRocks.Scripts
