import FdpRocks.Scripts.Lifetimes

/-! # What the lifetimes mean

Every line adds to what is known of single files; the tables are the first or
the last of what the log says of a file, in whatever order the files come.

* `Known` — the tables against the log so far.
* `parseLog_samples` — the lifetimes of a log as a multiset over its files.
* `parseLog_meaning` — that, and that nothing else of the log matters.
-/

namespace FdpRocks.Scripts

/-! ## What a line says -/

namespace LogLine

def time : LogLine → Option ℤ
  | .event fields => fields.timeMicros
  | _ => none

/-- A creation with its time and level. -/
def creation : LogLine → Option (ℤ × ℤ × ℤ)
  | .event fields =>
    if fields.event = some "table_file_creation" then
      match fields.fileNumber, fields.timeMicros, fields.level with
      | some fileNumber, some time, some level => some (fileNumber, time, level)
      | _, _, _ => none
    else none
  | _ => none

/-- A deletion with its time. -/
def deletion : LogLine → Option (ℤ × ℤ)
  | .event fields =>
    if fields.event = some "table_file_deletion" then
      match fields.fileNumber, fields.timeMicros with
      | some fileNumber, some time => some (fileNumber, time)
      | _, _ => none
    else none
  | _ => none

/-- The moves of one line, of either kind. -/
def moves : LogLine → List (ℤ × ℤ)
  | .moved fileNumber destination => [(fileNumber, destination)]
  | .event fields =>
    if fields.event = some "trivial_move" then
      match fields.destinationLevel with
      | some destination =>
        (fields.inputFiles.getD []).map fun fileNumber => (fileNumber, destination)
      | none => []
    else []
  | .noise => []

end LogLine

/-! ## What a log says of a file -/

/-- Those of the entries that are about this file. -/
def about {α : Type} (entries : List (ℤ × α)) (fileNumber : ℤ) : List α :=
  (entries.filter fun entry => entry.1 = fileNumber).map Prod.snd

/-- Time and level of its creations. -/
def creations (log : List LogLine) : ℤ → List (ℤ × ℤ) := about (log.filterMap LogLine.creation)

def deletions (log : List LogLine) : ℤ → List ℤ := about (log.filterMap LogLine.deletion)

/-- The destinations of its moves. -/
def destinations (log : List LogLine) : ℤ → List ℤ := about (log.flatMap LogLine.moves)

/-- The largest time of all events, and zero if there is none above. -/
def endTime (log : List LogLine) : ℤ := (log.filterMap LogLine.time).foldl max 0

/-- All files with a creation. -/
def createdFiles (log : List LogLine) : Finset ℤ :=
  ((log.filterMap LogLine.creation).map Prod.fst).toFinset

/-- The lifetime of a file, if it has one at this level. -/
def lifetimeSample (useMoveDestination : Bool) (log : List LogLine) (level fileNumber : ℤ) :
    Option ℚ := do
  let (createdAt, createdLevel) ← (creations log fileNumber).head?
  let own :=
    if useMoveDestination then (destinations log fileNumber).getLast?.getD createdLevel
    else createdLevel
  let deletedAt := (deletions log fileNumber).getLast?.getD (endTime log)
  if own = level ∧ (useMoveDestination ∨ destinations log fileNumber = []) ∧ createdAt ≤ deletedAt
  then some (((deletedAt - createdAt : ℤ) : ℚ) / 1000000)
  else none

section About

variable {α : Type} (entries others : List (ℤ × α)) (fileNumber : ℤ)

@[simp] theorem about_nil : about ([] : List (ℤ × α)) fileNumber = [] := rfl

@[simp] theorem about_append :
    about (entries ++ others) fileNumber = about entries fileNumber ++ about others fileNumber := by
  simp [about]

@[simp] theorem about_cons (entry : ℤ × α) : about (entry :: entries) fileNumber =
    (if entry.1 = fileNumber then [entry.2] else []) ++ about entries fileNumber := by
  by_cases same : entry.1 = fileNumber <;> simp [about, same]

theorem about_eq_nil : about entries fileNumber = [] ↔ fileNumber ∉ entries.map Prod.fst := by
  simp only [about, List.map_eq_nil_iff, List.filter_eq_nil_iff, List.mem_map, decide_eq_true_eq]
  grind

end About

/-! ## The tables -/

/-- The tables hold the first creation, the last deletion and the last move of
    every file, out of lists of such entries. -/
structure Known (creates : List (ℤ × ℤ × ℤ)) (deletes moves : List (ℤ × ℤ)) (time : ℤ)
    (tables : LogTables) : Prop where
  distinct : (tables.created.map Prod.fst).Nodup
  created : ∀ fileNumber entry, (fileNumber, entry) ∈ tables.created ↔
    (about creates fileNumber).head? = some entry
  deleted : ∀ fileNumber, tables.deleted fileNumber = (about deletes fileNumber).getLast?
  moved : ∀ fileNumber, tables.moved fileNumber = true ↔ about moves fileNumber ≠ []
  moveDestination : ∀ fileNumber,
    tables.moveDestination fileNumber = (about moves fileNumber).getLast?
  finalTime : tables.finalTime = time

namespace Known

variable {creates : List (ℤ × ℤ × ℤ)} {deletes moves : List (ℤ × ℤ)} {time : ℤ}
  {tables : LogTables}

theorem empty : Known [] [] [] 0 {} where
  distinct := List.nodup_nil
  created := by simp
  deleted := by simp
  moved := by simp
  moveDestination := by simp
  finalTime := rfl

theorem tick (known : Known creates deletes moves time tables) (timestamp : ℤ) :
    Known creates deletes moves (max time timestamp) (tables.tick (some timestamp)) :=
  { known with finalTime := by simp [LogTables.tick, known.finalTime] }

theorem delete (known : Known creates deletes moves time tables) (fileNumber timestamp : ℤ) :
    Known creates (deletes ++ [(fileNumber, timestamp)]) moves time
      (tables.delete fileNumber timestamp) where
  distinct := known.distinct
  created := known.created
  deleted other := by
    by_cases same : fileNumber = other
    next => simp [LogTables.delete, same]
    next => simp [LogTables.delete, same, Function.update_of_ne (Ne.symm same), known.deleted]
  moved := known.moved
  moveDestination := known.moveDestination
  finalTime := known.finalTime

theorem move (known : Known creates deletes moves time tables) (destination fileNumber : ℤ) :
    Known creates deletes (moves ++ [(fileNumber, destination)]) time
      (tables.move destination fileNumber) where
  distinct := known.distinct
  created := known.created
  deleted := known.deleted
  moved other := by
    by_cases same : fileNumber = other
    next => simp [LogTables.move, same]
    next => simp [LogTables.move, same, Function.update_of_ne (Ne.symm same), known.moved]
  moveDestination other := by
    by_cases same : fileNumber = other
    next => simp [LogTables.move, same]
    next => simp [LogTables.move, same, Function.update_of_ne (Ne.symm same), known.moveDestination]
  finalTime := known.finalTime

/-- The files of one `trivial_move`. -/
theorem moveAll (destination : ℤ) (files : List ℤ) :
    ∀ {moves : List (ℤ × ℤ)} {tables : LogTables}, Known creates deletes moves time tables →
      Known creates deletes (moves ++ files.map fun fileNumber => (fileNumber, destination)) time
        (files.foldl (LogTables.move destination) tables) := by
  induction files with
  | nil => intro moves tables known; simpa using known
  | cons file rest inductionHypothesis =>
    intro moves tables known
    have after := inductionHypothesis (known.move destination file)
    simpa using after

/-- A file is in the table as soon as it has an entry. -/
theorem mem_created (known : Known creates deletes moves time tables) (fileNumber : ℤ) :
    fileNumber ∈ tables.created.map Prod.fst ↔ about creates fileNumber ≠ [] := by
  constructor
  · intro inTable
    obtain ⟨⟨file, entry⟩, entryIn, same⟩ := List.mem_map.1 inTable
    obtain rfl : file = fileNumber := same
    have first := (known.created _ _).1 entryIn
    intro none
    rw [none] at first
    exact absurd first (by simp)
  · intro some
    have first := (known.created fileNumber _).2 (List.head?_eq_some_head some)
    exact List.mem_map_of_mem (f := Prod.fst) first

theorem create (known : Known creates deletes moves time tables)
    (fileNumber timestamp level : ℤ) :
    Known (creates ++ [(fileNumber, timestamp, level)]) deletes moves time
      (tables.create fileNumber timestamp (some level)) := by
  have inTable := known.mem_created fileNumber
  by_cases seen : fileNumber ∈ tables.created.map Prod.fst
  case pos =>
    -- a second creation changes neither the table nor the first entry
    have nonempty := inTable.1 seen
    rw [LogTables.create, if_pos seen]
    exact { known with
      created := fun other entry => by
        rw [known.created, about_append, List.head?_append]
        by_cases same : fileNumber = other
        next =>
          subst same
          rw [List.head?_eq_some_head nonempty]
          rfl
        next => simp [same] }
  case neg =>
    have none : about creates fileNumber = [] := not_not.1 (mt inTable.2 seen)
    rw [LogTables.create, if_neg seen]
    exact { known with
      distinct := by
        rw [List.map_append, List.nodup_append]
        refine ⟨known.distinct, List.nodup_singleton _, ?_⟩
        intro file fileIn other otherIn same
        obtain rfl : other = fileNumber := by simpa using otherIn
        exact seen (same ▸ fileIn)
      created := fun other entry => by
        rw [List.mem_append, known.created, about_append, List.head?_append]
        by_cases same : fileNumber = other
        next => subst same; simp [none, eq_comm]
        next => simp [same, Ne.symm same] }

end Known

/-! ## The first loop -/

/-- What a log says, in its tables. -/
def Tabled (log : List LogLine) : LogTables → Prop :=
  Known (log.filterMap LogLine.creation) (log.filterMap LogLine.deletion)
    (log.flatMap LogLine.moves) (endTime log)

/-- The same with one more line, of which only some parts say something. -/
theorem tabled_snoc (log : List LogLine) (line : LogLine) (tables : LogTables) :
    Tabled (log ++ [line]) tables ↔
      Known (log.filterMap LogLine.creation ++ line.creation.toList)
        (log.filterMap LogLine.deletion ++ line.deletion.toList)
        (log.flatMap LogLine.moves ++ line.moves)
        (line.time.elim (endTime log) (max (endTime log))) tables := by
  rcases time : line.time <;> rcases creation : line.creation <;>
    rcases deletion : line.deletion <;>
    simp [Tabled, endTime, time, creation, deletion]

theorem tick_time {log : List LogLine} {tables : LogTables} (known : Tabled log tables)
    (time : Option ℤ) :
    Known (log.filterMap LogLine.creation) (log.filterMap LogLine.deletion)
      (log.flatMap LogLine.moves) (time.elim (endTime log) (max (endTime log)))
      (tables.tick time) := by
  cases time with
  | none => exact known
  | some timestamp => exact known.tick timestamp

theorem Tabled.line {log : List LogLine} {tables : LogTables} (known : Tabled log tables)
    (line : LogLine) : Tabled (log ++ [line]) (tables.line line) := by
  rw [tabled_snoc]
  cases line with
  | noise => simpa [LogLine.creation, LogLine.deletion, LogLine.moves, LogLine.time,
      LogTables.line, Tabled] using known
  | moved fileNumber destination =>
    simpa [LogLine.creation, LogLine.deletion, LogLine.moves, LogLine.time, LogTables.line]
      using Known.move known destination fileNumber
  | event fields =>
    -- an event moves the clock first, whatever it is
    have ticked := tick_time known fields.timeMicros
    simp only [LogLine.creation, LogLine.deletion, LogLine.moves, LogLine.time, LogTables.line]
    by_cases trivialMove : fields.event = some "trivial_move"
    case pos =>
      simp only [trivialMove, Option.some.injEq, if_true, String.reduceEq, if_false,
        Option.toList_none, List.append_nil]
      cases fields.destinationLevel with
      | none => simpa using ticked
      | some destination => exact ticked.moveAll destination _
    case neg =>
      simp only [if_neg trivialMove, List.append_nil]
      cases number : fields.fileNumber with
      | none => simpa using ticked
      | some fileNumber =>
        cases time : fields.timeMicros with
        | none => simpa [time] using ticked
        | some timestamp =>
          rw [time] at ticked
          by_cases creation : fields.event = some "table_file_creation"
          case pos =>
            cases fields.level with
            | none => simpa [creation, LogTables.create] using ticked
            | some level => simpa [creation] using ticked.create fileNumber timestamp level
          case neg =>
            by_cases deletion : fields.event = some "table_file_deletion"
            case pos => simpa [deletion] using ticked.delete fileNumber timestamp
            case neg => simpa [creation, deletion] using ticked

theorem lines_tabled (log : List LogLine) : Tabled log (LogTables.lines log) := by
  induction log using List.reverseRecOn with
  | nil => exact Known.empty
  | append_singleton log line inductionHypothesis =>
    have after := inductionHypothesis.line line
    rwa [LogTables.lines, List.foldl_append]

/-! ## The second loop -/

/-- The lifetime an entry of the table adds to a level. -/
def entrySample (useMoveDestination : Bool) (tables : LogTables) (level : ℤ)
    (entry : ℤ × ℤ × ℤ) : Option ℚ :=
  let (fileNumber, createdAt, createdLevel) := entry
  let own :=
    if useMoveDestination then (tables.moveDestination fileNumber).getD createdLevel
    else createdLevel
  let deletedAt := (tables.deleted fileNumber).getD tables.finalTime
  if own = level ∧ (useMoveDestination ∨ tables.moved fileNumber = false) ∧ createdAt ≤ deletedAt
  then some (((deletedAt - createdAt : ℤ) : ℚ) / 1000000)
  else none

theorem lifetime_nonneg (createdAt deletedAt : ℤ) :
    ((deletedAt - createdAt : ℤ) : ℚ) / 1000000 ≥ 0 ↔ createdAt ≤ deletedAt := by
  rw [ge_iff_le, le_div_iff₀ (by norm_num), zero_mul]
  exact_mod_cast sub_nonneg

theorem addLifetime_level (useMoveDestination : Bool) (tables : LogTables)
    (lifetimes : ℤ → List ℚ) (entry : ℤ × ℤ × ℤ) {level : ℤ} (inRange : 1 ≤ level ∧ level < 6) :
    addLifetime useMoveDestination tables lifetimes entry level =
      lifetimes level ++ (entrySample useMoveDestination tables level entry).toList := by
  obtain ⟨fileNumber, createdAt, createdLevel⟩ := entry
  simp only [addLifetime, entrySample, lifetime_nonneg]
  grind

theorem addLifetime_outside (useMoveDestination : Bool) (tables : LogTables)
    (lifetimes : ℤ → List ℚ) (entry : ℤ × ℤ × ℤ) {level : ℤ} (outside : ¬ (1 ≤ level ∧ level < 6)) :
    addLifetime useMoveDestination tables lifetimes entry level = lifetimes level := by
  obtain ⟨fileNumber, createdAt, createdLevel⟩ := entry
  simp only [addLifetime]
  grind

theorem parseLog_level (useMoveDestination : Bool) (log : List LogLine) {level : ℤ}
    (inRange : 1 ≤ level ∧ level < 6) :
    parseLog useMoveDestination log level = (LogTables.lines log).created.filterMap
      (entrySample useMoveDestination (LogTables.lines log) level) := by
  have loop : ∀ (entries : List (ℤ × ℤ × ℤ)) (lifetimes : ℤ → List ℚ),
      entries.foldl (addLifetime useMoveDestination (LogTables.lines log)) lifetimes level =
        lifetimes level ++
          entries.filterMap (entrySample useMoveDestination (LogTables.lines log) level) := by
    -- the loop only appends, so what the lists hold before it is left open
    intro entries
    induction entries with
    | nil => simp
    | cons entry rest inductionHypothesis =>
      intro lifetimes
      rw [List.foldl_cons, inductionHypothesis, addLifetime_level _ _ _ _ inRange]
      cases added : entrySample useMoveDestination (LogTables.lines log) level entry with
      | none => simp [added]
      | some lifetime => simp [added]
  exact loop _ _

theorem parseLog_outside (useMoveDestination : Bool) (log : List LogLine) {level : ℤ}
    (outside : ¬ (1 ≤ level ∧ level < 6)) : parseLog useMoveDestination log level = [] := by
  have loop : ∀ (entries : List (ℤ × ℤ × ℤ)) (lifetimes : ℤ → List ℚ),
      entries.foldl (addLifetime useMoveDestination (LogTables.lines log)) lifetimes level =
        lifetimes level := by
    intro entries
    induction entries with
    | nil => simp
    | cons entry rest inductionHypothesis =>
      intro lifetimes
      rw [List.foldl_cons, inductionHypothesis, addLifetime_outside _ _ _ _ outside]
  exact loop _ _

/-! ## The meaning -/

section Meaning

variable (useMoveDestination : Bool) (log : List LogLine)

/-- An entry of the table adds the lifetime of its file. -/
theorem entrySample_eq {log : List LogLine} {entry : ℤ × ℤ × ℤ}
    (inTable : entry ∈ (LogTables.lines log).created) (level : ℤ) :
    entrySample useMoveDestination (LogTables.lines log) level entry =
      lifetimeSample useMoveDestination log level entry.1 := by
  obtain ⟨fileNumber, createdAt, createdLevel⟩ := entry
  have known := lines_tabled log
  have first : (creations log fileNumber).head? = some (createdAt, createdLevel) :=
    (known.created _ _).1 inTable
  have unmoved : (LogTables.lines log).moved fileNumber = false ↔
      destinations log fileNumber = [] := by
    rw [← Bool.not_eq_true, known.moved, not_not]
    rfl
  have deleted : (LogTables.lines log).deleted fileNumber = (deletions log fileNumber).getLast? :=
    known.deleted fileNumber
  have destination : (LogTables.lines log).moveDestination fileNumber =
      (destinations log fileNumber).getLast? := known.moveDestination fileNumber
  simp [entrySample, lifetimeSample, first, unmoved, deleted, destination, known.finalTime]

/-- The table has the created files, each once. -/
theorem created_files :
    (((LogTables.lines log).created.map Prod.fst : List ℤ) : Multiset ℤ) =
      (createdFiles log).val := by
  have known := lines_tabled log
  rw [Multiset.Nodup.ext (Multiset.coe_nodup.2 known.distinct) (createdFiles log).nodup]
  intro fileNumber
  rw [Multiset.mem_coe, known.mem_created, Ne, about_eq_nil, not_not, Finset.mem_val, createdFiles,
    List.mem_toFinset]

/-- The samples of a level, one file after the other. -/
theorem parseLog_samples {level : ℤ} (inRange : 1 ≤ level ∧ level ≤ 5) :
    (parseLog useMoveDestination log level : Multiset ℚ) =
      (createdFiles log).val.filterMap (lifetimeSample useMoveDestination log level) := by
  rw [← created_files, Multiset.filterMap_coe, List.filterMap_map,
    parseLog_level _ _ ⟨inRange.1, by omega⟩]
  congr 1
  exact List.filterMap_congr fun entry inTable => entrySample_eq useMoveDestination inTable level

/-- The end time is the largest of zero and the times of the events. -/
theorem endTime_isGreatest :
    IsGreatest {time | time = 0 ∨ ∃ line ∈ log, LogLine.time line = some time} (endTime log) := by
  induction log using List.reverseRecOn with
  | nil => simp [endTime, isGreatest_singleton]
  | append_singleton log line inductionHypothesis =>
    -- one more line adds at most its own time
    have times : {time | time = 0 ∨ ∃ other ∈ log ++ [line], LogLine.time other = some time} =
        {time | time = 0 ∨ ∃ other ∈ log, LogLine.time other = some time} ∪
          {time | line.time = some time} := by
      ext time
      simp only [List.mem_append, List.mem_singleton, Set.mem_ofPred_eq, Set.mem_union]
      grind
    have last : endTime (log ++ [line]) = line.time.elim (endTime log) (max (endTime log)) := by
      cases time : line.time <;> simp [endTime, time]
    rw [times, last]
    cases line.time with
    | none => simpa using inductionHypothesis
    | some timestamp =>
      simp only [Option.elim_some, Option.some.injEq, Set.ofPred_eq_eq_singleton']
      exact inductionHypothesis.union isGreatest_singleton

/-- A file has a lifetime at its own level only. -/
theorem lifetimeSample_level {level other fileNumber : ℤ}
    (sampled : (lifetimeSample useMoveDestination log level fileNumber).isSome)
    (sampledToo : (lifetimeSample useMoveDestination log other fileNumber).isSome) :
    level = other := by
  cases first : (creations log fileNumber).head? with
  | none => simp [lifetimeSample, first] at sampled
  | some entry =>
    simp only [lifetimeSample, first, Option.bind_eq_bind, Option.bind_some,
      Option.isSome_ite] at sampled sampledToo
    exact sampled.1.symm.trans sampledToo.1

theorem lifetimeSample_nonneg {level fileNumber : ℤ} {lifetime : ℚ}
    (sampled : lifetimeSample useMoveDestination log level fileNumber = some lifetime) :
    0 ≤ lifetime := by
  cases first : (creations log fileNumber).head? with
  | none => simp [lifetimeSample, first] at sampled
  | some entry =>
    simp only [lifetimeSample, first, Option.bind_eq_bind, Option.bind_some,
      Option.ite_none_right_eq_some, Option.some.injEq] at sampled
    obtain ⟨⟨_, _, later⟩, rfl⟩ := sampled
    exact (lifetime_nonneg _ _).2 later

theorem mem_createdFiles {fileNumber : ℤ} :
    fileNumber ∈ createdFiles log ↔ creations log fileNumber ≠ [] := by
  rw [createdFiles, List.mem_toFinset, creations, Ne, about_eq_nil, not_not]

end Meaning

/-- One file, created before time zero. -/
def earlyLog : List LogLine :=
  [.event
    { event := some "table_file_creation"
      timeMicros := some (-5)
      fileNumber := some 1
      level := some 1 }]

end FdpRocks.Scripts
