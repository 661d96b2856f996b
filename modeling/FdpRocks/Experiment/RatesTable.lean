import FdpRocks.Experiment.ReportLog
import FdpRocks.Experiment.Sweep
import FdpRocks.Library.Double

/-! # `results_to_csv.py`

The table of the rates, from the logs that a sweep has left behind.

* `selectedWorkloads_readFields` — the script selects the workloads of the sweep.
* `resultsToCsv_measured` — the cells of the table are the rates of the runs, or the
  script names the first run in which a write has failed.
-/

namespace FdpRocks.Experiment

open FdpRocks.Benchmark FdpRocks.Library FdpRocks.Library.Numerals FdpRocks.Library.PythonText
open FdpRocks.Library.Pattern FdpRocks.Scripts

/-! ## The script -/

def knownWorkloads : List (List Char) :=
  ["uniform".toList, "s0.5".toList, "s1.5".toList, "s3".toList]

inductive TableFailure where
  | unknownWorkloads (names : List (List Char))
  | fileNotFound (path : List Char)
  | raised (raised : Raised)
deriving DecidableEq

def TableFailure.message : TableFailure → List Char
  | unknownWorkloads names => "Unknown workloads: ".toList ++ ", ".toList.intercalate names
  | fileNotFound path => "[Errno 2] No such file or directory: '".toList ++ path ++ ['\'']
  | raised (.valueError message) => message
  | raised .zeroDivisionError => "division by zero".toList
  | raised .overflowError => "integer division result too large for a float".toList

/-- `workloads`, of `--workloads`. -/
def selectedWorkloads (unicode : Unicode) (text : List Char) : List (List Char) :=
  ((text.splitOn ',').map unicode.strip).filter (· ≠ [])

/-- The log of the second phase under the root of the results. -/
def phase2Log (root workload : List Char) (mode : Mode) : List Char :=
  file (modeDir root workload mode) (mode.text ++ "_phase2.log".toList)

/-- The first column of the table. -/
def label (workload : List Char) : List Char :=
  if workload = "uniform".toList then "Uniform".toList else "Zipf_".toList ++ workload

def ratesHeader : List (List Char) :=
  ["workload".toList, "rocksdb_nofdp_kops".toList, "rocksdb_fdp_kops".toList,
    "fdp_rocks_kops".toList]

/-- The modes in the order of the columns. -/
def ratedModes : List Mode := [.nofdp, .baseline, .model]

section Table

variable (unicode : Unicode) (read : List Char → Option (List Char)) (root : List Char)

def rateCell (path : List Char) : Except TableFailure (List Char) :=
  match read path with
  | none => .error (.fileNotFound path)
  | some text =>
    match throughput unicode path (universalNewlines text) with
    | .error raised => .error (.raised raised)
    | .ok value => .ok (fixedPoint 3 value)

def ratesRow (workload : List Char) : Except TableFailure (List (List Char)) := do
  let cells ← ratedModes.mapM fun mode => rateCell unicode read (phase2Log root workload mode)
  return label workload :: cells

/-- `main`, up to the rows that it writes. -/
def resultsToCsv (text : List Char) : Except TableFailure (List (List (List Char))) :=
  let workloads := selectedWorkloads unicode text
  let unknown := (workloads.filter (· ∉ knownWorkloads)).dedup
  if unknown ≠ [] then .error (.unknownWorkloads (unknown.insertionSort (· ≤ ·)))
  else do
    let rows ← workloads.mapM (ratesRow unicode read root)
    return ratesHeader :: rows

end Table

/-- It is the log that the experiment has written. -/
theorem phase2Log_eq (root outputRoot workload : List Char) (mode : Mode) (env : Variables)
    (dbDir keyOrderDir count distribution keyFile : List Char) :
    (phaseCall root (env.assign .outputDir (modeDir outputRoot workload mode)) mode .phase2 dbDir
      keyOrderDir count distribution keyFile).log = phase2Log outputRoot workload mode := by
  have some : modeDir outputRoot workload mode ≠ [] := by simp [modeDir, file]
  have directory : outputDir root (env.assign .outputDir (modeDir outputRoot workload mode))
      = modeDir outputRoot workload mode := by
    simp [outputDir, Variables.orWord, Variables.assign, orElse, some]
  have name : '_' :: Phase.text .phase2 ++ ".log".toList = "_phase2.log".toList := rfl
  show file (outputDir root _) (mode.text ++ ('_' :: Phase.text .phase2) ++ ".log".toList) = _
  rw [directory, List.append_assoc, name]
  rfl

/-! ## The selection -/

theorem known_ne_nil {workload : List Char} (known : workload ∈ knownWorkloads) : workload ≠ [] := by
  fin_cases known <;> decide

theorem isSpace_visible (unicode : Unicode) {text : List Char}
    (visible : (text.all fun character => character.toNat < 128 && !isAsciiSpace character) = true) :
    ∀ character ∈ text, unicode.isSpace character = false := by
  intro character member
  have shown := List.all_eq_true.mp visible character member
  rw [Bool.and_eq_true, decide_eq_true_eq, Bool.not_eq_true'] at shown
  exact (unicode.isSpace_ascii character shown.1).trans shown.2

theorem strip_known (unicode : Unicode) {workload : List Char} (known : workload ∈ knownWorkloads) :
    unicode.strip workload = workload := by
  apply trim_kept
  apply isSpace_visible
  fin_cases known <;> decide

theorem known_of_lookUp {workload : List Char} (found : (lookUp workload).isSome) :
    workload ∈ knownWorkloads := by
  obtain ⟨entry, same⟩ := Option.isSome_iff_exists.mp found
  obtain ⟨earlier, later, split, _⟩ := List.lookup_eq_some_iff.mp same
  have member : workload ∈ workloadTable.map Prod.fst := by simp [split]
  exact member

theorem selectedWorkloads_readFields (unicode : Unicode) {text : List Char} (oneLine : '\n' ∉ text)
    (known : ∀ workload ∈ readFields text, workload ∈ knownWorkloads) :
    selectedWorkloads unicode text = readFields text := by
  have whole : text.takeWhile (· ≠ '\n') = text := by
    rw [List.takeWhile_eq_self_iff]
    intro character member
    simpa using fun same : character = '\n' => oneLine (same ▸ member)
  have kept : ((readFields text).map unicode.strip).filter (· ≠ []) = readFields text := by
    have same : (readFields text).map unicode.strip = readFields text := by
      conv_rhs => rw [← List.map_id (readFields text)]
      exact List.map_congr_left fun workload member => strip_known unicode (known workload member)
    rw [same, List.filter_eq_self]
    intro workload member
    simpa using known_ne_nil (known workload member)
  have fields : text.splitOn ',' = readFields text ∨ text.splitOn ',' = readFields text ++ [[]] := by
    unfold readFields
    dsimp only
    rw [whole]
    split
    next empty =>
      right
      obtain ⟨earlier, same⟩ := List.getLast?_eq_some_iff.mp empty
      rw [same, List.dropLast_concat]
    next => exact .inl rfl
  unfold selectedWorkloads
  rcases fields with same | same
  · rw [same, kept]
  · rw [same, List.map_append, List.filter_append, kept]
    simp [Unicode.strip]

/-! ## The cells -/

/-- A number of thousandths is printed as it is. -/
theorem fixedPoint_thousandths (number : ℕ) : fixedPoint 3 ((number : ℚ) / 1000) = pointed 3 number := by
  have nonneg : (0 : ℚ) ≤ (number : ℚ) / 1000 := by positivity
  have whole : (number : ℚ) / 1000 * 10 ^ 3 = number := by ring
  have exact : roundHalfEven (number : ℚ) = number := by exact_mod_cast roundHalfEven_intCast number
  rw [fixedPoint_nonneg nonneg, whole, exact, Int.toNat_natCast]

section Cells

variable {unicode : Unicode} {read : List Char → Option (List Char)} {path : List Char}
  {reported : ReportedRun} (known : read path = some reported.log)

include known

theorem rateCell_ok (ok : reported.run.AllOk) :
    rateCell unicode read path = .ok (pointed 3 reported.shown) := by
  unfold rateCell
  rw [known]
  dsimp only
  rw [(reported.throughput_log unicode path).1 ok]
  exact congrArg Except.ok (fixedPoint_thousandths _)

theorem rateCell_fault (fault : ¬ reported.run.AllOk) : rateCell unicode read path
    = .error (.raised (.valueError ("Failed run: ".toList ++ path))) := by
  unfold rateCell
  rw [known]
  dsimp only
  rw [(reported.throughput_log unicode path).2 fault]

end Cells

/-! ## The table -/

section Measured

variable (unicode : Unicode) {read : List Char → Option (List Char)} {root text : List Char}
  {runs : List Char → Mode → ReportedRun} {workload : List Char}

/-- The row of a workload without a fault. -/
def measuredRow (runs : List Char → Mode → ReportedRun) (workload : List Char) : List (List Char) :=
  label workload :: ratedModes.map fun mode => pointed 3 (runs workload mode).shown

theorem ratesRow_ok
    (logs : ∀ mode ∈ ratedModes, read (phase2Log root workload mode) = some (runs workload mode).log)
    (ok : ∀ mode ∈ ratedModes, (runs workload mode).run.AllOk) :
    ratesRow unicode read root workload = .ok (measuredRow runs workload) := by
  have cells : ratedModes.mapM (fun mode => rateCell unicode read (phase2Log root workload mode))
      = .ok (ratedModes.map fun mode => pointed 3 (runs workload mode).shown) :=
    mapM_of_forall fun mode member => rateCell_ok (logs mode member) (ok mode member)
  rw [ratesRow, cells]
  rfl

theorem ratesRow_fault {earlier later : List Mode} {mode : Mode}
    (logs : ∀ mode ∈ ratedModes, read (phase2Log root workload mode) = some (runs workload mode).log)
    (split : ratedModes = earlier ++ mode :: later)
    (ok : ∀ mode ∈ earlier, (runs workload mode).run.AllOk) (fault : ¬ (runs workload mode).run.AllOk) :
    ratesRow unicode read root workload
      = .error (.raised (.valueError ("Failed run: ".toList ++ phase2Log root workload mode))) := by
  have member : ∀ other ∈ earlier ++ mode :: later, other ∈ ratedModes := fun _ known => split ▸ known
  have cells : ratedModes.mapM (fun mode => rateCell unicode read (phase2Log root workload mode))
      = .error (.raised (.valueError ("Failed run: ".toList ++ phase2Log root workload mode))) := by
    rw [split]
    apply mapM_error
    · intro other known
      exact ⟨_, rateCell_ok (logs other (member _ (List.mem_append_left _ known))) (ok other known)⟩
    · exact rateCell_fault (logs mode (member _ (by simp))) fault
  rw [ratesRow, cells]
  rfl

/-- After a sweep over these workloads, the table has a row for each of them, in their
    order, and in its cells the rates of the second phases: all keys of the run by the
    time from the first start to the last stop.  A failed write anywhere leaves no
    table, and the script names the first log that has it; the logs that `run_phase`
    accepts have none. -/
theorem resultsToCsv_measured (oneLine : '\n' ∉ text)
    (swept : ∀ workload ∈ readFields text, (lookUp workload).isSome)
    (logs : ∀ workload ∈ readFields text, ∀ mode ∈ ratedModes,
      read (phase2Log root workload mode) = some (runs workload mode).log) :
    ((∀ workload ∈ readFields text, ∀ mode ∈ ratedModes, (runs workload mode).run.AllOk) →
      resultsToCsv unicode read root text
        = .ok (ratesHeader :: (readFields text).map (measuredRow runs))) ∧
    (∀ before workload after earlier mode later, readFields text = before ++ workload :: after →
      ratedModes = earlier ++ mode :: later →
      (∀ other ∈ before, ∀ mode ∈ ratedModes, (runs other mode).run.AllOk) →
      (∀ mode ∈ earlier, (runs workload mode).run.AllOk) → ¬ (runs workload mode).run.AllOk →
      resultsToCsv unicode read root text
        = .error (.raised (.valueError ("Failed run: ".toList ++ phase2Log root workload mode)))) ∧
    ∀ workload ∈ readFields text, ∀ mode ∈ ratedModes,
      (∀ phase count, logChecks phase count (runs workload mode).log = .ok () →
        (runs workload mode).run.AllOk) ∧
      ∃ first last : ℚ, IsLeast (Set.range (runs workload mode).times.start) first ∧
        IsGreatest (Set.range (runs workload mode).times.stop) last ∧
        (runs workload mode).shown = (roundHalfEven ((runs workload mode).run.flags.num.toNat
          / ((last - first) / 10 ^ 6) / 1024 / 1024 * 10 ^ 6)).toNat := by
  have known : ∀ workload ∈ readFields text, workload ∈ knownWorkloads :=
    fun workload member => known_of_lookUp (swept workload member)
  have table : resultsToCsv unicode read root text
      = (readFields text).mapM (ratesRow unicode read root) >>= fun rows => .ok (ratesHeader :: rows) := by
    have none : ((readFields text).filter (· ∉ knownWorkloads)).dedup = [] := by
      rw [List.dedup_eq_nil, List.filter_eq_nil_iff]
      intro workload member
      simpa using known workload member
    unfold resultsToCsv
    dsimp only
    rw [selectedWorkloads_readFields unicode oneLine known, none, if_neg (not_not.mpr rfl)]
    rfl
  refine ⟨fun ok => ?_, ?_, fun workload member mode rated => ⟨?_, ?_⟩⟩
  · rw [table, mapM_of_forall fun workload member =>
      ratesRow_ok unicode (logs workload member) (ok workload member)]
    rfl
  · intro before workload after earlier mode later split modes ok okEarlier fault
    have here : workload ∈ readFields text := by simp [split]
    have fails := ratesRow_fault unicode (logs workload here) modes okEarlier fault
    rw [table, split]
    rw [mapM_error _ fails]
    · rfl
    · intro other member
      have listed : other ∈ readFields text := by simp [split, member]
      exact ⟨_, ratesRow_ok unicode (logs other listed) (ok other member)⟩
  · intro phase count accepted
    by_contra fault
    have error := log_fault (runs workload mode).reachable (runs workload mode).finished fault
    exact (logChecks_ok_iff.mp accepted).2 writeError (by simp [errorTexts]) error
  · exact ⟨_, _, WriteRun.merged_start _, WriteRun.merged_finish _, rfl⟩

end Measured

/-! ## A calm sweep -/

section Calm

theorem reportText_quiet {run : WriteRun} (times : run.Times) (num : ℕ) :
    Quiet num (WriteRun.reportText times) ∧ Ended (WriteRun.reportText times) := by
  obtain ⟨padding, perOp, line⟩ := WriteRun.reportText_eq times
  have letters : Lacks ['T', 'E', 'N'] (WriteRun.reportText times) := by
    rw [line]
    intro character member
    fin_cases member <;> apply not_mem_reportLine <;> decide
  refine ⟨quiet_of_lacks (by simp) (by simp) (by simp) letters, ?_⟩
  rw [line]
  intro last isLast
  unfold reportLine at isLast
  simp only [List.getLast?_append, List.getLast?_cons] at isLast
  cases isLast
  simp

/-- Two seconds for all workers. -/
def twoSeconds (run : WriteRun) : run.Times := ⟨fun _ => 0, fun _ => 2000000, fun _ => by norm_num⟩

/-- The report is all that the rest of the process prints. -/
def reporting (run : WriteRun) (times : run.Times) : WriteRun :=
  { run with others := [WriteRun.reportText times] }

theorem reporting_allOk {run : WriteRun} (ok : run.AllOk) (times : run.Times) :
    (reporting run times).AllOk := ok

theorem exists_reportedRun : ∃ reported : ReportedRun, reported.run.AllOk ∧
    reported.run.flags.num = 20000 ∧ (∀ tid, reported.times.start tid = 0) ∧
    ∀ tid, reported.times.stop tid = 2000000 := by
  have calm : (calmRun 1 20000 (by decide) (by decide)).AllOk := fun _ _ _ => rfl
  have ok := reporting_allOk calm (twoSeconds _)
  obtain ⟨state, reachable, finished, _⟩ := WriteRun.progressLines_inTurn _ ok
  refine ⟨⟨reporting _ (twoSeconds _), twoSeconds _, state, reachable, finished, ⟨?_, ?_⟩, [], [], rfl,
    by simp, ?_⟩, ok, rfl, fun _ => rfl, fun _ => rfl⟩
  · intro text member
    rw [List.mem_singleton.mp member]
    exact reportText_quiet _ _
  · intro _ _ _ none
    cases none
  · intro _ _ _ none
    cases none

theorem resultsToCsv_measured_calm : ∃ read : List Char → Option (List Char),
    resultsToCsv .ascii read "results".toList "uniform,s3".toList = .ok [ratesHeader,
      ["Uniform".toList, "9.537".toList, "9.537".toList, "9.537".toList],
      ["Zipf_s3".toList, "9.537".toList, "9.537".toList, "9.537".toList]] := by
  obtain ⟨reported, ok, num, starts, stops⟩ := exists_reportedRun
  have fields : readFields "uniform,s3".toList = ["uniform".toList, "s3".toList] := by decide
  have swept : ∀ workload ∈ readFields "uniform,s3".toList, (lookUp workload).isSome := by
    rw [fields]
    decide
  obtain ⟨table, _, rates⟩ := @resultsToCsv_measured .ascii (fun _ => some reported.log) "results".toList
    "uniform,s3".toList (fun _ _ => reported) (by decide) swept fun _ _ _ _ => rfl
  have rows := table fun _ _ _ _ => ok
  obtain ⟨_, first, last, ⟨⟨_, isFirst⟩, _⟩, ⟨⟨_, isLast⟩, _⟩, shown⟩ :=
    rates "uniform".toList (fields ▸ List.mem_cons_self) .nofdp List.mem_cons_self
  rw [starts] at isFirst
  rw [stops] at isLast
  have rate : reported.shown = 9537 := by
    rw [shown, ← isFirst, ← isLast, num]
    decide +kernel
  have cell : pointed 3 9537 = "9.537".toList := by decide
  have row : ∀ workload, measuredRow (fun _ _ => reported) workload
      = [label workload, "9.537".toList, "9.537".toList, "9.537".toList] := by
    intro workload
    rw [← cell, ← rate]
    rfl
  rw [fields, List.map_cons, List.map_cons, List.map_nil, row, row] at rows
  exact ⟨_, rows⟩

end Calm

end FdpRocks.Experiment
