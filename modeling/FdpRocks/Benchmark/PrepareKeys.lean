import FdpRocks.Benchmark.KeyGeneration

/-! # `PrepareShuffledKeys`

Two passes over the threads: the first loads whatever key-order files it can
and checks their counts, the second generates and saves the vectors that are
still empty.  The passes communicate through the vectors and `all_loaded` only.
-/

namespace FdpRocks.Benchmark

open FdpRocks.Library.Words FdpRocks.Library.Loop

/-- The values `tid` takes in `for (uint32_t tid = 0; tid < FLAGS_worker_threads; ++tid)`. -/
def threadIds (flags : Flags) : List UInt32 :=
  (List.range flags.workerThreads.toNat).map UInt32.ofNat

def keysPerThread (flags : Flags) : UInt64 :=
  flags.num / flags.workerThreads.toUInt64

def remainder (flags : Flags) : UInt64 :=
  flags.num % flags.workerThreads.toUInt64

/-- `expected_count` of the first pass and `thread_key_count` of the second. -/
def expectedCount (flags : Flags) (tid : UInt32) : UInt64 :=
  if tid = flags.workerThreads - 1 then
    keysPerThread flags + remainder flags
  else
    keysPerThread flags

/-! ## First pass -/

def loadThread (flags : Flags) (host : Host) (fileSystem : FileSystem) (tid : UInt32) : Loaded :=
  let loaded := loadKeysFromFile flags host fileSystem tid.toInt32 []
  if loaded.ok ∧ loaded.keys.length ≠ (expectedCount flags tid).toNat then
    ⟨false, [], loaded.stderr ++
      ["Warning: Thread " ++ toString tid ++ " loaded " ++ toString loaded.keys.length
        ++ " keys, but expected " ++ toString (expectedCount flags tid) ++ ". Regenerating...\n"]⟩
  else
    loaded

/-! ## Second pass -/

def generateThread (library : RandomLibrary) (flags : Flags) (fuel : Nat) (tid : UInt32) :
    Option Generated :=
  let threadKeyCount := expectedCount flags tid
  if flags.keyDistribution = "uniform" then
    generateUniformKeys library flags fuel (keysPerThread flags) threadKeyCount tid
  else if flags.keyDistribution = "zipfian" then
    some ⟨generateZipfianKeys library flags tid.toInt32 threadKeyCount,
      "Thread " ++ toString tid ++ ": generated " ++ toString threadKeyCount
        ++ " keys (zipfian, key space [0, " ++ toString (zipfianKeySpace flags) ++ "])\n"⟩
  else
    some ⟨generateHotspotZipfianKeys library flags tid threadKeyCount,
      "Thread " ++ toString tid ++ ": generated " ++ toString threadKeyCount
        ++ " keys (hotspot_zipfian, 60 hotspots, key space [0, 60000000])\n"⟩

structure SecondPass where
  shuffledKeys : List (List UInt64)
  generatedBy : List UInt32
  unsaved : List UInt32
  fileSystem : FileSystem
  stderr : List String

/-- The second pass over the remaining threads, each with the vector the first
    pass left it.  `none` means a generation loop that outlasts the fuel. -/
def generatePass (library : RandomLibrary) (flags : Flags) (host : Host) (fuel : Nat) :
    List (UInt32 × List UInt64) → FileSystem → Option SecondPass
  | [], fileSystem => some ⟨[], [], [], fileSystem, []⟩
  | (tid, keys) :: rest, fileSystem =>
    if keys = [] then do
      let generated ← generateThread library flags fuel tid
      let saved := saveKeysToFile flags host fileSystem tid.toInt32 generated.keys
      let warning :=
        if saved.ok then []
        else ["Warning: Failed to save key order for thread " ++ toString tid ++ "\n"]
      let later ← generatePass library flags host fuel rest saved.fileSystem
      return ⟨generated.keys :: later.shuffledKeys, tid :: later.generatedBy,
        if saved.ok then later.unsaved else tid :: later.unsaved, later.fileSystem,
        generated.stderr :: (saved.stderr ++ warning ++ later.stderr)⟩
    else do
      let later ← generatePass library flags host fuel rest fileSystem
      return { later with shuffledKeys := keys :: later.shuffledKeys }

/-! ## The whole function -/

structure KeyPlan where
  /-- `shuffled_keys_`, by thread. -/
  shuffledKeys : List (List UInt64)
  /-- Whether the function left through its "all key orders loaded" exit. -/
  allLoaded : Bool
  /-- The threads whose vectors were generated, and those whose save failed. -/
  generatedBy : List UInt32
  unsaved : List UInt32
  fileSystem : FileSystem
  stderr : List String

inductive Ending where
  /-- `exit (1)`. -/
  | exited (stderr : List String)
  /-- An integer division by zero threads. -/
  | divisionFault
  | returned (plan : KeyPlan)

def acceptedDistribution (flags : Flags) : Bool :=
  flags.keyDistribution ∈ ["uniform", "zipfian", "hotspot_zipfian"]

def prepareHeader (flags : Flags) : List String :=
  ["Preparing shuffled key arrays for " ++ toString flags.workerThreads ++ " threads...\n",
    "Key distribution: " ++ flags.keyDistribution ++ "\n",
    "Key order directory: " ++ flags.keyOrderDir ++ "\n"]

def prepareShuffledKeys (library : RandomLibrary) (flags : Flags) (host : Host) (fuel : Nat)
    (fileSystem : FileSystem) : Option Ending :=
  if ¬ acceptedDistribution flags then
    some (.exited ["Error: Invalid key_distribution: " ++ flags.keyDistribution
      ++ ". Must be 'uniform', 'zipfian', or 'hotspot_zipfian'\n"])
  else if flags.workerThreads = 0 then
    some .divisionFault
  else
    let loaded := (threadIds flags).map (loadThread flags host fileSystem)
    let stderr := prepareHeader flags ++ loaded.flatMap Loaded.stderr
    if loaded.all Loaded.ok then
      some (.returned ⟨loaded.map Loaded.keys, true, [], [], fileSystem,
        stderr ++ ["All key orders loaded from files. Using fixed key order.\n"]⟩)
    else do
      let pass ← generatePass library flags host fuel
        ((threadIds flags).zip (loaded.map Loaded.keys)) fileSystem
      return .returned ⟨pass.shuffledKeys, false, pass.generatedBy, pass.unsaved, pass.fileSystem,
        stderr ++ "Generating new key orders...\n" :: pass.stderr⟩

end FdpRocks.Benchmark
