import FdpRocks.Experiment.TwoPhase

/-! # `run_figure6.sh` and `run_gear.sh`

The scripts that run several experiments, hand the thresholds of the baseline
to the others, and sample the device meanwhile.  Signals are left out.
-/

namespace FdpRocks.Experiment

open FdpRocks.Library.Pattern FdpRocks.Library.Programs Script

/-! ## Workloads -/

/-- `FILES` and `DISTRIBUTIONS`. -/
def workloadTable : List (List Char × List Char × List Char) :=
  [("uniform".toList, "keys_num_100000000_threads_1_dist_uniform_shuf_tid_0.bin".toList,
      "uniform".toList),
    ("s0.5".toList, "keys_num_100000000_threads_1_dist_zipfian_s055_shuf_tid_0.bin".toList,
      "zipfian".toList),
    ("s1.5".toList, "keys_num_100000000_threads_1_dist_zipfian_s100_shuf_tid_0.bin".toList,
      "zipfian".toList),
    ("s3".toList, "keys_num_100000000_threads_1_dist_zipfian_s250_shuf_tid_0.bin".toList,
      "zipfian".toList)]

/-- The key file and the distribution of a workload. -/
def lookUp (workload : List Char) : Option (List Char × List Char) :=
  List.lookup workload workloadTable

/-- `IFS=',' read -r -a`: the fields of the first line, without an empty last one. -/
def readFields (text : List Char) : List (List Char) :=
  let fields := (text.takeWhile (· ≠ '\n')).splitOn ','
  if fields.getLast? = some [] then fields.dropLast else fields

/-- `case ",text," in *,word,*)`. -/
def selects (text word : List Char) : Bool :=
  contains (',' :: text ++ [',']) (',' :: word ++ [','])

/-! ## One mode of a workload -/

section Sweep

variable (root : List Char) (env : Variables)

/-- `COLLECT_STATS`. -/
def collects : Bool := env.orWord .collectFdpStats ['1'] = ['1']

def modeDir (outputRoot workload : List Char) (mode : Mode) : List Char :=
  file (file outputRoot workload) mode.text

def statsLog (directory : List Char) : List Char := file directory "fdp_stats.log".toList

/-- A run of `run_two_phase.sh` that may fail. -/
def tryTwoPhase (directory : List Char) (mode : Mode) : Script Bool := do
  match ← (runTwoPhase root (env.assign .outputDir directory) mode).attempt with
  | .ok () => pure true
  | .error _ => pure false

/-- `run_mode`. -/
def runMode (outputRoot workload : List Char) (mode : Mode) : Script Unit := do
  let output := modeDir outputRoot workload mode
  perform (.makeDirectory output)
  if collects env then
    let _ ← status (.startSampler (statsLog output))
    let ok ← tryTwoPhase root env output mode
    let _ ← status .stopSampler
    let _ ← expand env .fdpDevice
    perform (.sampleOnce (statsLog output))
    demand (← status (.hasStats (statsLog output))) (.noStats mode workload)
    demand ok (.modeFailed mode workload)
  else
    demand (← tryTwoPhase root env output mode) (.modeFailed mode workload)

/-! ## Thresholds -/

def thresholdFile (outputRoot workload : List Char) : List Char :=
  file (file outputRoot workload) "p25.txt".toList

/-- Both scripts make the file out of the log of the baseline, and read it. -/
def baselineThresholds (outputRoot workload : List Char) : Script (List Char) := do
  perform (.extractThresholds
    (file (modeDir outputRoot workload .baseline) "rocksdb.LOG".toList)
    (thresholdFile outputRoot workload))
  substitute (thresholdFile outputRoot workload)

/-! ## `run_figure6.sh` -/

/-- The body of the loop; the variables it exports stay for the next workload. -/
def sweepWorkload (keyDatasetDir outputRoot : List Char) (env : Variables) (workload : List Char) :
    Script Variables := do
  match lookUp workload with
  | none => .exited (.unknownWorkload workload)
  | some (keyFile, distribution) =>
    let env := (env.assign .phase2KeyFile (file keyDatasetDir keyFile)).assign
      .phase2Distribution distribution
    demand (← status (.isFile (file keyDatasetDir keyFile)))
      (.missingWorkload (file keyDatasetDir keyFile))
    runMode root env outputRoot workload .baseline
    let thresholds ← baselineThresholds outputRoot workload
    let env := env.assign .tooFarThresholdsSec thresholds
    runMode root env outputRoot workload .model
    runMode root env outputRoot workload .nofdp
    pure env

/-- The curves of one workload, if it was selected. -/
def plotWorkload (outputRoot selected workload name : List Char) : Script Unit :=
  if selects selected workload then do
    let data := file outputRoot (name ++ ".csv".toList)
    perform (.resultsToWaCsv (file outputRoot workload) (phase1Keys env) (phase2Keys env) data)
    perform (.plot "wa".toList data (file outputRoot name))
  else pure ()

def runFigure6 : Script Unit := do
  let outputRoot := env.orWord .outputRoot (file root "results/figure6".toList)
  let selected := env.orWord .workloads "uniform,s0.5,s1.5,s3".toList
  demand (env.orWord .keyDatasetDir [] ≠ []) .keyDatasetDirNotSet
  demand (env.orWord .phase1KeyFile [] ≠ []) .phase1KeyFileNotSet
  perform (.makeDirectory outputRoot)
  let last ← (readFields selected).foldlM
    (sweepWorkload root (env.orWord .keyDatasetDir []) outputRoot) env
  let data := file outputRoot "figure6a.csv".toList
  perform (.resultsToCsv outputRoot selected data)
  perform (.plot "throughput".toList data (file outputRoot "figure6a".toList))
  if collects env then
    plotWorkload last outputRoot selected "uniform".toList "figure6b".toList
    plotWorkload last outputRoot selected "s3".toList "figure6c".toList
  else pure ()

/-! ## `run_gear.sh` -/

/-- The baseline for the thresholds, if none were given. -/
def gearThresholds (outputRoot workload : List Char) : Script Variables :=
  if env.orWord .tooFarThresholdsSec [] = [] then do
    runTwoPhase root (env.assign .outputDir (modeDir outputRoot workload .baseline)) .baseline
    let thresholds ← baselineThresholds outputRoot workload
    pure (env.assign .tooFarThresholdsSec thresholds)
  else pure env

def runGear (workload : List Char) : Script Unit := do
  let outputRoot := env.orWord .outputRoot (file root "results/gear".toList)
  match lookUp workload with
  | none => .exited .usage
  | some (keyFile, distribution) =>
    let keyDatasetDir := env.orWord .keyDatasetDir []
    demand (keyDatasetDir ≠ []) .keyDatasetDirNotSet
    let phase2KeyFile := env.orWord .phase2KeyFile (file keyDatasetDir keyFile)
    let env := (env.assign .phase2KeyFile phase2KeyFile).assign .phase2Distribution
      (env.orWord .phase2Distribution distribution)
    demand (← status (.isFile phase2KeyFile)) (.missingWorkload phase2KeyFile)
    let gearDir := modeDir outputRoot workload .gear
    perform (.makeDirectory (modeDir outputRoot workload .baseline))
    perform (.makeDirectory gearDir)
    let env ← gearThresholds root env outputRoot workload
    if collects env then
      let _ ← status (.startSampler (statsLog gearDir))
    let ok ← tryTwoPhase root env gearDir .gear
    if collects env then
      let _ ← status .stopSampler
    demand ok .gearFailed
    perform (.extractGearTimeline (file gearDir "gear_phase2.log".toList)
      (file gearDir "rocksdb.LOG".toList) (file gearDir "gear_timeline.csv".toList))

end Sweep

end FdpRocks.Experiment
