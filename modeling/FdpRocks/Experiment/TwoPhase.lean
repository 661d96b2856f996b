import FdpRocks.Experiment.Preflight
import FdpRocks.Experiment.RunPhase
import FdpRocks.Library.Programs

/-! # `run_two_phase.sh`

One experiment in one mode: the guard, the erasure, the two phases of the
benchmark and the copy of RocksDB's log.  What the scripts of an experiment do
outside of the shell is a `Command`.
-/

namespace FdpRocks.Experiment

open FdpRocks.Library.Programs

/-! ## Variables -/

/-- The variables that the scripts or the benchmark look at.  The long names of
    the benchmark's are without their `ROCKSDB_` and `ROCKSDB_TOO_FAR_BUDGET_`. -/
inductive Variable where
  | fdpDevice | fdpMountPoint | fdpDbDir | fdpMinFreeGib | confirmEraseDb
  | benchmark | outputDir | outputRoot | workloads | collectFdpStats | keyDatasetDir
  | phase1KeyFile | phase2KeyFile | phase2Distribution | phase1Keys | phase2Keys
  | workerThreads | valueSize | compactionPriority
  | enablePhase2 | phase2UseBuffer | phase2Rewrite | collectFeatures | mlPredict
  | enableCustomCompaction | hashHandle | phase2RegisterMetadata | trivialMoveRewrite
  | compactionPri | tooFarThresholdsSec | tooFarBudget | schedule | adaptive
  | adaptiveProbeKn | adaptiveProbeSlotSec | adaptiveExploitSec | adaptiveMinBytes
  | adaptiveProbeShrink | adaptiveProbeAdvance | adaptiveProbeSlotCompactions
  | adaptiveProbeMetric | adaptiveFdpStatsFile | adaptiveFdpNvme | adaptiveFdpFromDbPath
  | baseKeys
deriving DecidableEq

/-- The environment of a process. -/
abbrev Variables : Type := Variable → Option (List Char)

namespace Variables

variable (env : Variables)

/-- `${NAME:-word}`. -/
def orWord (name : Variable) (word : List Char) : List Char := orElse (env name) word

/-- `export`, or an assignment in front of a command. -/
def assign (name : Variable) (value : List Char) : Variables :=
  Function.update env name (some value)

/-- The variables that `preflight.sh` looks at. -/
def guard : Environment where
  fdpDevice := env .fdpDevice
  fdpMountPoint := env .fdpMountPoint
  fdpDbDir := env .fdpDbDir
  fdpMinFreeGib := env .fdpMinFreeGib
  confirmEraseDb := env .confirmEraseDb

end Variables

/-! ## Commands -/

inductive Phase where
  | phase1
  | phase2
deriving DecidableEq

def Phase.text : Phase → List Char
  | phase1 => "phase1".toList
  | phase2 => "phase2".toList

inductive Mode where
  | baseline
  | model
  | gear
  | nofdp
deriving DecidableEq

def Mode.text : Mode → List Char
  | baseline => "baseline".toList
  | model => "model".toList
  | gear => "gear".toList
  | nofdp => "nofdp".toList

/-- `directory/name`. -/
def file (directory name : List Char) : List Char := directory ++ ('/' :: name)

/-- One start of the benchmark: its environment, its flags, and the log of `tee`. -/
structure Call where
  mode : Mode
  phase : Phase
  env : Variables
  program : List Char
  workerThreads : List Char
  dbPath : List Char
  num : List Char
  valueSize : List Char
  batch : List Char
  keyDistribution : List Char
  keySort : List Char
  keyOrderDir : List Char
  keyFilePath : List Char
  log : List Char

/-- What is known of a command by its exit status only. -/
inductive Tool where
  /-- `test -x`, `test -f` and `test -r`. -/
  | isExecutable (path : List Char)
  | isFile (path : List Char)
  | isReadable (path : List Char)
  | makeDirectory (path : List Char)
  /-- `rm -rf "directory/"*`. -/
  | erase (directory : List Char)
  | copy (source target : List Char)
  /-- `sample_fdp_stats.sh` in the background, and the `kill` and `wait` for it. -/
  | startSampler (log : List Char)
  | stopSampler
  /-- One more sample, at the end of the same log. -/
  | sampleOnce (log : List Char)
  | hasStats (log : List Char)
  | extractThresholds (log output : List Char)
  | extractGearTimeline (progressLog rocksdbLog output : List Char)
  | resultsToCsv (resultsRoot workloads output : List Char)
  | resultsToWaCsv (workloadDir phase1Keys phase2Keys output : List Char)
  | plot (kind data output : List Char)
deriving DecidableEq

inductive Command where
  | run (tool : Tool)
  /-- `preflight.sh` looks at the machine. -/
  | inspect
  /-- The benchmark, piped into `tee`. -/
  | benchmark (call : Call)
  /-- `cat`. -/
  | readFile (path : List Char)

/-- The benchmark answers with the status of the pipeline and with the log. -/
@[reducible] def Command.Answer : Command → Type
  | .run _ => Bool
  | .inspect => Host
  | .benchmark _ => Bool × List Char
  | .readFile _ => Option (List Char)

/-- What `fail` is called with, and what else ends a script. -/
inductive Failure where
  | thresholdsRequired (mode : Mode)
  | notBuilt (benchmark : List Char)
  | noPhase1KeyFile
  | noPhase2KeyFile
  | notConfirmed
  | preflight (refusal : Refusal)
  | phase (failure : PhaseFailure)
  | noRocksdbLog (dbDir : List Char)
  | keyDatasetDirNotSet
  | phase1KeyFileNotSet
  | noStats (mode : Mode) (workload : List Char)
  | modeFailed (mode : Mode) (workload : List Char)
  | unknownWorkload (workload : List Char)
  | missingWorkload (path : List Char)
  | usage
  | gearFailed
  /-- `set -u`. -/
  | unbound (name : Variable)
  /-- `set -e`. -/
  | command

/-- The text of `fail`; other ends have messages of their own. -/
def Failure.message : Failure → List Char
  | thresholdsRequired mode =>
    "ROCKSDB_TOO_FAR_THRESHOLDS_SEC is required for ".toList ++ mode.text ++ " mode.".toList
  | notBuilt benchmark => "Benchmark is not built: ".toList ++ benchmark
  | noPhase1KeyFile => "PHASE1_KEY_FILE is missing.".toList
  | noPhase2KeyFile => "PHASE2_KEY_FILE is missing.".toList
  | notConfirmed => "Set CONFIRM_ERASE_DB=YES after verifying FDP_DB_DIR.".toList
  | preflight refusal => refusal.message
  | phase failure => failure.message
  | noRocksdbLog dbDir => "RocksDB LOG was not produced in ".toList ++ dbDir ++ ".".toList
  | keyDatasetDirNotSet => "KEY_DATASET_DIR is not set.".toList
  | phase1KeyFileNotSet => "PHASE1_KEY_FILE is not set.".toList
  | noStats mode workload =>
    "FDP statistics were not collected for ".toList ++ file mode.text workload ++ ".".toList
  | modeFailed mode workload => file mode.text workload ++ " failed.".toList
  | unknownWorkload workload => "Unknown workload: ".toList ++ workload
  | missingWorkload path => "Missing workload: ".toList ++ path
  | usage => "Usage: run_gear.sh uniform|s0.5|s1.5|s3".toList
  | gearFailed => "Gear run failed.".toList
  | unbound _ => []
  | command => []

abbrev Script : Type → Type := Program Command.Answer Failure

abbrev History : Type := List (Deed Command.Answer)

namespace Script

def status (tool : Tool) : Script Bool := .ask (.run tool) .returned

/-- A command under `set -e`. -/
def perform (tool : Tool) : Script Unit := do
  if ← status tool then pure () else .exited .command

/-- `test condition || fail message`. -/
def demand (condition : Bool) (failure : Failure) : Script Unit :=
  if condition then pure () else .exited failure

/-- `${NAME}` under `set -u`. -/
def expand (env : Variables) (name : Variable) : Script (List Char) :=
  match env name with
  | some value => pure value
  | none => .exited (.unbound name)

def launch (call : Call) : Script (Bool × List Char) := .ask (.benchmark call) .returned

/-- `$(cat path)` under `set -e`, without the newlines at the end. -/
def substitute (path : List Char) : Script (List Char) :=
  .ask (.readFile path) fun
    | some content => pure (content.rdropWhile (· = '\n'))
    | none => .exited .command

/-- `preflight.sh` under `set -e`. -/
def guard (env : Variables) : Script Cleared :=
  .ask .inspect fun host =>
    match Experiment.preflight host env.guard with
    | .ok cleared => pure cleared
    | .error refusal => .exited (.preflight refusal)

end Script

open Script

/-! ## The script -/

/-- What the `case` over the mode sets. -/
structure ModeSettings where
  customCompaction : List Char
  hashHandle : List Char
  trivialRewrite : List Char
  fixedBudget : List Char
  adaptiveGear : List Char

section TwoPhase

variable (root : List Char) (env : Variables)

def Mode.settings : Mode → ModeSettings
  | baseline => ⟨['0'], ['0'], ['0'], [], ['0']⟩
  | model => ⟨['1'], ['0'], ['1'], env.orWord .tooFarBudget "100/100".toList, ['0']⟩
  | gear => ⟨['1'], ['0'], ['1'], [], ['1']⟩
  | nofdp => ⟨['0'], ['2'], ['0'], [], ['0']⟩

/-- Modes that go by the lifetimes of a baseline run. -/
def Mode.needsThresholds : Mode → Bool
  | baseline | nofdp => false
  | model | gear => true

def phase1Keys : List Char := env.orWord .phase1Keys "50000000".toList

def phase2Keys : List Char := env.orWord .phase2Keys "100000000".toList

/-- The arguments of `env`. -/
def assignments (settings : ModeSettings) (baseKeys : List Char) : List (Variable × List Char) :=
  [(.enablePhase2, ['1']), (.phase2UseBuffer, ['0']), (.phase2Rewrite, ['0']),
    (.collectFeatures, ['0']), (.mlPredict, ['0']),
    (.enableCustomCompaction, settings.customCompaction), (.hashHandle, settings.hashHandle),
    (.phase2RegisterMetadata, ['1']), (.trivialMoveRewrite, settings.trivialRewrite),
    (.compactionPri, env.orWord .compactionPriority "BCS".toList),
    (.tooFarThresholdsSec, env.orWord .tooFarThresholdsSec []),
    (.tooFarBudget, settings.fixedBudget), (.schedule, []), (.adaptive, settings.adaptiveGear),
    (.adaptiveProbeKn, env.orWord .adaptiveProbeKn "0/10,5/10,10/10".toList),
    (.adaptiveProbeSlotSec, env.orWord .adaptiveProbeSlotSec "10".toList),
    (.adaptiveExploitSec, env.orWord .adaptiveExploitSec "60".toList),
    (.adaptiveMinBytes, env.orWord .adaptiveMinBytes ['0']),
    (.adaptiveProbeShrink, env.orWord .adaptiveProbeShrink ['1']),
    (.adaptiveProbeAdvance, env.orWord .adaptiveProbeAdvance "wall".toList),
    (.adaptiveProbeSlotCompactions, env.orWord .adaptiveProbeSlotCompactions "30".toList),
    (.adaptiveProbeMetric, env.orWord .adaptiveProbeMetric "bps".toList),
    (.adaptiveFdpStatsFile, env.orWord .adaptiveFdpStatsFile []),
    (.adaptiveFdpNvme, env.orWord .adaptiveFdpNvme []),
    (.adaptiveFdpFromDbPath, env.orWord .adaptiveFdpFromDbPath ['0']),
    (.baseKeys, baseKeys)]

def outputDir : List Char := env.orWord .outputDir (file root "results/full".toList)

def benchmarkPath : List Char :=
  env.orWord .benchmark (file root "src/benchmark/rocksdb_bench".toList)

/-- The command that `run_phase` builds. -/
def phaseCall (mode : Mode) (phase : Phase) (dbDir keyOrderDir count distribution keyFile : List Char) :
    Call :=
  let baseKeys := if phase = .phase2 then phase1Keys env else ['0']
  { mode, phase
    env := (assignments env (mode.settings env) baseKeys).foldl
      (fun env entry => env.assign entry.1 entry.2) env
    program := benchmarkPath root env
    workerThreads := env.orWord .workerThreads ['1']
    dbPath := dbDir
    num := count
    valueSize := env.orWord .valueSize "800".toList
    batch := "10000".toList
    keyDistribution := distribution
    keySort := "random".toList
    keyOrderDir
    keyFilePath := keyFile
    log := file (outputDir root env) (mode.text ++ ('_' :: phase.text) ++ ".log".toList) }

/-- `run_phase`. -/
def runPhase (mode : Mode) (phase : Phase) (count distribution keyFile : List Char) :
    Script Unit := do
  let dbDir ← expand env .fdpDbDir
  let keyOrderDir ← expand env .keyDatasetDir
  let (ok, log) ← launch
    (phaseCall root env mode phase dbDir keyOrderDir count distribution keyFile)
  demand ok .command
  match logChecks phase.text count log with
  | .ok () => pure ()
  | .error failure => .exited (.phase failure)

def runTwoPhase (mode : Mode) : Script Unit := do
  demand (!mode.needsThresholds || env.orWord .tooFarThresholdsSec [] ≠ [])
    (.thresholdsRequired mode)
  let phase1KeyFile := env.orWord .phase1KeyFile []
  let phase2KeyFile := env.orWord .phase2KeyFile []
  demand (← status (.isExecutable (benchmarkPath root env)))
    (.notBuilt (benchmarkPath root env))
  demand (← status (.isFile phase1KeyFile)) .noPhase1KeyFile
  demand (← status (.isFile phase2KeyFile)) .noPhase2KeyFile
  demand (env .confirmEraseDb = some "YES".toList) .notConfirmed
  let _ ← guard env
  perform (.makeDirectory (outputDir root env))
  let dbDir ← expand env .fdpDbDir
  demand (dbDir ≠ []) (.unbound .fdpDbDir)
  perform (.erase dbDir)
  runPhase root env mode .phase1 (phase1Keys env) "uniform".toList phase1KeyFile
  runPhase root env mode .phase2 (phase2Keys env)
    (env.orWord .phase2Distribution "uniform".toList) phase2KeyFile
  demand (← status (.isReadable (file dbDir "LOG".toList))) (.noRocksdbLog dbDir)
  perform (.copy (file dbDir "LOG".toList) (file (outputDir root env) "rocksdb.LOG".toList))

end TwoPhase

end FdpRocks.Experiment
