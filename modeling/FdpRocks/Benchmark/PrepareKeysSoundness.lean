import FdpRocks.Benchmark.KeyGenerationSoundness
import FdpRocks.Benchmark.PrepareKeys

/-! # What the two passes of `PrepareShuffledKeys` do

* `share_le`, `share_last` — the threads' shares of `1..num_`, without wrapping.
* `generateThread_total`, `generateThread_length` — generation returns the
  expected number of keys.
* `loadThread_ok`, `loadThread_failed` — what the first pass hands over.
* `generatePass_keys`, `generatePass_total`, `generatePass_other`,
  `generatePass_content` — the vectors and the files after the second pass.
* `prepareShuffledKeys_cases` — the exits of the whole function.
-/

namespace FdpRocks.Benchmark

open FdpRocks.Library.Words FdpRocks.Library.Loop

/-! ## Threads and their shares -/

/-- The file a thread's vector is loaded from and saved to. -/
abbrev keyFile (flags : Flags) (tid : UInt32) : String :=
  getKeyOrderFilePath flags tid.toInt32

theorem mem_threadIds {flags : Flags} {tid : UInt32} :
    tid ∈ threadIds flags ↔ tid.toNat < flags.workerThreads.toNat := by
  constructor
  · intro member
    obtain ⟨index, bound, rfl⟩ := List.mem_map.mp member
    rw [List.mem_range] at bound
    rw [UInt32.toNat_ofNat_of_lt' (Nat.lt_trans bound flags.workerThreads.toNat_lt)]
    exact bound
  · intro bound
    exact List.mem_map.mpr ⟨tid.toNat, List.mem_range.mpr bound, UInt32.ofNat_toNat⟩

theorem threadIds_nodup (flags : Flags) : (threadIds flags).Nodup := by
  refine List.Nodup.map_on ?_ List.nodup_range
  intro left leftBound right rightBound same
  rw [List.mem_range] at leftBound rightBound
  have values := congrArg UInt32.toNat same
  rwa [UInt32.toNat_ofNat_of_lt' (Nat.lt_trans leftBound flags.workerThreads.toNat_lt),
    UInt32.toNat_ofNat_of_lt' (Nat.lt_trans rightBound flags.workerThreads.toNat_lt)] at values

@[simp] theorem threadIds_length (flags : Flags) :
    (threadIds flags).length = flags.workerThreads.toNat := by
  simp [threadIds]

theorem keyFile_injective {flags : Flags} (generated : flags.keyFilePath = "") {left right : UInt32}
    (same : keyFile flags left = keyFile flags right) : left = right := by
  have signed := getKeyOrderFilePath_injective generated same
  simpa using congrArg Int32.toUInt32 signed

@[simp] theorem keysPerThread_toNat (flags : Flags) :
    (keysPerThread flags).toNat = flags.num.toNat / flags.workerThreads.toNat := by
  simp [keysPerThread]

@[simp] theorem remainder_toNat (flags : Flags) :
    (remainder flags).toNat = flags.num.toNat % flags.workerThreads.toNat := by
  simp [remainder]

theorem workerThreads_pos {flags : Flags} (workers : flags.workerThreads ≠ 0) :
    0 < flags.workerThreads.toNat := by
  rw [Nat.pos_iff_ne_zero, ne_eq, ← UInt32.toNat_zero, UInt32.toNat_inj]
  exact workers

theorem eq_last_iff {flags : Flags} (workers : flags.workerThreads ≠ 0) (tid : UInt32) :
    tid = flags.workerThreads - 1 ↔ tid.toNat = flags.workerThreads.toNat - 1 := by
  have positive := workerThreads_pos workers
  have last : (flags.workerThreads - 1).toNat = flags.workerThreads.toNat - 1 := by
    rw [UInt32.toNat_sub_of_le _ _ (by rw [UInt32.le_iff_toNat_le, UInt32.toNat_one]; exact positive),
      UInt32.toNat_one]
  rw [← last, UInt32.toNat_inj]

theorem expectedCount_toNat {flags : Flags} (workers : flags.workerThreads ≠ 0) (tid : UInt32) :
    (expectedCount flags tid).toNat = flags.num.toNat / flags.workerThreads.toNat
      + if tid.toNat = flags.workerThreads.toNat - 1
        then flags.num.toNat % flags.workerThreads.toNat else 0 := by
  unfold expectedCount
  by_cases last : tid = flags.workerThreads - 1
  · rw [if_pos last, if_pos ((eq_last_iff workers tid).mp last), UInt64.toNat_add,
      keysPerThread_toNat, remainder_toNat]
    apply Nat.mod_eq_of_lt
    have split := Nat.div_add_mod flags.num.toNat flags.workerThreads.toNat
    have fewer := Nat.le_mul_of_pos_left (flags.num.toNat / flags.workerThreads.toNat)
      (workerThreads_pos workers)
    have := flags.num.toNat_lt
    omega
  · rw [if_neg last, if_neg (fun same => last ((eq_last_iff workers tid).mpr same)),
      keysPerThread_toNat, Nat.add_zero]

theorem workers_of_mem {flags : Flags} {tid : UInt32} (member : tid ∈ threadIds flags) :
    flags.workerThreads ≠ 0 := by
  have bound := mem_threadIds.mp member
  intro none
  simp [none] at bound

/-- The shares of the threads before `tid`, and its own, fit into `num_`. -/
theorem share_le {flags : Flags} {tid : UInt32} (member : tid ∈ threadIds flags) :
    tid.toNat * (flags.num.toNat / flags.workerThreads.toNat) + (expectedCount flags tid).toNat
      ≤ flags.num.toNat := by
  have bound := mem_threadIds.mp member
  have split := Nat.div_add_mod flags.num.toNat flags.workerThreads.toNat
  rw [expectedCount_toNat (workers_of_mem member)]
  by_cases last : tid.toNat = flags.workerThreads.toNat - 1
  · rw [if_pos last]
    have threads : flags.workerThreads.toNat = tid.toNat + 1 := by omega
    rw [threads, Nat.add_mul] at split
    rw [threads]
    omega
  · rw [if_neg last]
    have earlier := Nat.mul_le_mul_right (flags.num.toNat / flags.workerThreads.toNat)
      (show tid.toNat + 1 ≤ flags.workerThreads.toNat by omega)
    rw [Nat.add_mul] at earlier
    omega

/-! ## Generation -/

theorem uniformStart_toNat {flags : Flags} {tid : UInt32} (member : tid ∈ threadIds flags) :
    (uniformStart (keysPerThread flags) tid).toNat
      = tid.toNat * (flags.num.toNat / flags.workerThreads.toNat) + 1 := by
  have share := share_le member
  have numBound := flags.num.toNat_lt
  rw [expectedCount_toNat (workers_of_mem member)] at share
  -- The start can only reach `2 ^ 64` after a share of zero keys, and then it is 1.
  have fits : tid.toNat * (flags.num.toNat / flags.workerThreads.toNat) + 1 < 2 ^ 64 := by
    rcases Nat.eq_zero_or_pos (flags.num.toNat / flags.workerThreads.toNat) with none | some
    · rw [none]; omega
    · omega
  simp only [uniformStart, UInt64.toNat_add, UInt64.toNat_mul, UInt32.toNat_toUInt64,
    keysPerThread_toNat, UInt64.toNat_one]
  rw [Nat.mod_eq_of_lt (by omega : tid.toNat * _ < 2 ^ 64), Nat.mod_eq_of_lt fits]

theorem uniformEnd_toNat {flags : Flags} {tid : UInt32} (member : tid ∈ threadIds flags) :
    (uniformEnd (keysPerThread flags) (expectedCount flags tid) tid).toNat
      = tid.toNat * (flags.num.toNat / flags.workerThreads.toNat)
        + (expectedCount flags tid).toNat := by
  have share := share_le member
  have numBound := flags.num.toNat_lt
  have regroup : uniformEnd (keysPerThread flags) (expectedCount flags tid) tid
      = tid.toUInt64 * keysPerThread flags + expectedCount flags tid := by
    unfold uniformEnd uniformStart
    grind
  rw [regroup]
  simp only [UInt64.toNat_add, UInt64.toNat_mul, UInt32.toNat_toUInt64, keysPerThread_toNat]
  rw [Nat.mod_eq_of_lt (by omega : tid.toNat * _ < 2 ^ 64), Nat.mod_eq_of_lt (by omega)]

/-- The vector a thread gets when its keys are generated. -/
def generatedKeys (library : RandomLibrary) (flags : Flags) (fuel : Nat) (tid : UInt32) :
    List UInt64 :=
  ((generateThread library flags fuel tid).map Generated.keys).getD []

theorem generatedKeys_of_some {library : RandomLibrary} {flags : Flags} {fuel : Nat} {tid : UInt32}
    {generated : Generated} (generates : generateThread library flags fuel tid = some generated) :
    generatedKeys library flags fuel tid = generated.keys := by
  simp [generatedKeys, generates]

/-- No flag but these four has a say in what a thread generates. -/
theorem generateThread_congr (library : RandomLibrary) {flags other : Flags}
    (num : flags.num = other.num) (threads : flags.workerThreads = other.workerThreads)
    (distribution : flags.keyDistribution = other.keyDistribution) {tid : UInt32}
    (sorted : flags.keyDistribution = "uniform" →
      sortKeys library flags tid = sortKeys library other tid) (fuel : Nat) :
    (generateThread library flags fuel tid).map Generated.keys
      = (generateThread library other fuel tid).map Generated.keys := by
  have share : keysPerThread flags = keysPerThread other := by
    rw [keysPerThread, keysPerThread, num, threads]
  have count : expectedCount flags tid = expectedCount other tid := by
    rw [expectedCount, expectedCount, share, remainder, remainder, num, threads]
  rw [generateThread, generateThread, ← distribution, share, count]
  split
  next uniform => simp [generateUniformKeys, sorted uniform, Option.map_bind]
  next =>
    split
    · simp [generateZipfianKeys, zipfianKeySpace, num]
    · simp [generateHotspotZipfianKeys, num, threads]

/-- A range that stops short of the largest 64-bit value is generated whole. -/
theorem generateUniformKeys_run (library : RandomLibrary) {flags : Flags} {tid : UInt32}
    (member : tid ∈ threadIds flags)
    (bounded : tid.toNat * (flags.num.toNat / flags.workerThreads.toNat)
      + (expectedCount flags tid).toNat < 2 ^ 64 - 1)
    {fuel : Nat} (enough : (expectedCount flags tid).toNat < fuel) :
    ∃ generated, generateUniformKeys library flags fuel (keysPerThread flags)
        (expectedCount flags tid) tid = some generated ∧
      generated.keys = sortKeys library flags tid
        (keyRange (tid.toNat * (flags.num.toNat / flags.workerThreads.toNat) + 1)
          (expectedCount flags tid).toNat) := by
  have last := uniformEnd_toNat member
  have first := uniformStart_toNat member
  have loop := uniformKeys_run (by rw [last]; exact bounded) (expectedCount flags tid).toNat
    (uniformStart (keysPerThread flags) tid) [] fuel (by omega) enough
  rw [first, List.nil_append] at loop
  dsimp only [generateUniformKeys]
  rw [loop]
  exact ⟨_, rfl, rfl⟩

theorem generateThread_total (library : RandomLibrary) {flags : Flags} {tid : UInt32}
    (member : tid ∈ threadIds flags)
    (bounded : flags.keyDistribution = "uniform" →
      tid.toNat * (flags.num.toNat / flags.workerThreads.toNat)
        + (expectedCount flags tid).toNat < 2 ^ 64 - 1)
    {fuel : Nat} (enough : flags.num.toNat < fuel) :
    ∃ generated, generateThread library flags fuel tid = some generated := by
  have share := share_le member
  unfold generateThread
  by_cases uniform : flags.keyDistribution = "uniform"
  · have enoughHere : (expectedCount flags tid).toNat < fuel := by omega
    obtain ⟨generated, returns, _⟩ :=
      generateUniformKeys_run library member (bounded uniform) enoughHere
    exact ⟨generated, by rw [if_pos uniform]; exact returns⟩
  · rw [if_neg uniform]
    split
    · exact ⟨_, rfl⟩
    · exact ⟨_, rfl⟩

/-- A uniform range that ends at the largest 64-bit value is never finished. -/
theorem generateThread_diverges (library : RandomLibrary) {flags : Flags} {tid : UInt32}
    (member : tid ∈ threadIds flags) (uniform : flags.keyDistribution = "uniform")
    (largest : tid.toNat * (flags.num.toNat / flags.workerThreads.toNat)
      + (expectedCount flags tid).toNat = 2 ^ 64 - 1) (fuel : Nat) :
    generateThread library flags fuel tid = none := by
  dsimp only [generateThread, generateUniformKeys]
  rw [if_pos uniform, uniformKeys_diverges (by rw [uniformEnd_toNat member]; exact largest)]
  rfl

theorem generateThread_length {library : RandomLibrary} {flags : Flags} {fuel : Nat} {tid : UInt32}
    (member : tid ∈ threadIds flags) {generated : Generated}
    (generates : generateThread library flags fuel tid = some generated) :
    generated.keys.length = (expectedCount flags tid).toNat := by
  have share := share_le member
  have numBound := flags.num.toNat_lt
  by_cases uniform : flags.keyDistribution = "uniform"
  · rcases Nat.lt_or_ge (tid.toNat * (flags.num.toNat / flags.workerThreads.toNat)
        + (expectedCount flags tid).toNat) (2 ^ 64 - 1) with bounded | largest
    · -- The loop finished, so it finished with the result that enough fuel gives.
      have enough : (expectedCount flags tid).toNat <
          max fuel ((expectedCount flags tid).toNat + 1) := by omega
      obtain ⟨whole, returns, keys⟩ := generateUniformKeys_run library member bounded enough
      dsimp only [generateThread, generateUniformKeys] at generates returns
      rw [if_pos uniform] at generates
      obtain ⟨range, finishes, equal⟩ := Option.bind_eq_some_iff.mp generates
      rw [run_mono finishes (Nat.le_max_left _ _)] at returns
      cases equal
      cases returns
      rw [keys, (sortKeys_perm library flags tid _).length_eq, keyRange_length]
    · rw [generateThread_diverges library member uniform (by omega) fuel] at generates
      cases generates
  · dsimp only [generateThread] at generates
    rw [if_neg uniform] at generates
    split at generates
    · cases generates
      exact generateZipfianKeys_length library flags _ _
    · cases generates
      apply generateHotspotZipfianKeys_length
      rw [UInt64.toNat_mul, UInt32.toNat_toUInt64, UInt64.toNat_div, UInt32.toNat_toUInt64,
        Nat.mod_eq_of_lt (by omega)]
      omega

/-! ## First pass -/

theorem loadThread_ok {flags : Flags} {host : Host} {fileSystem : FileSystem} {tid : UInt32}
    (accepted : (loadThread flags host fileSystem tid).ok = true) :
    ∃ bytes, fileSystem.content (keyFile flags tid) = some bytes ∧
      bytes.length = 8 * (expectedCount flags tid).toNat ∧
      (loadThread flags host fileSystem tid).keys
        = decodeWords host.order (expectedCount flags tid).toNat bytes := by
  unfold loadThread at accepted ⊢
  dsimp only at accepted ⊢
  split at accepted
  · cases accepted
  next counted =>
    obtain ⟨bytes, content, aligned, keys⟩ := loadKeysFromFile_inv accepted
    have count : bytes.length / 8 = (expectedCount flags tid).toNat := by
      by_contra different
      exact counted ⟨accepted, by rw [keys, decodeWords_length]; exact different⟩
    rw [if_neg counted]
    exact ⟨bytes, content, by omega, by rw [keys, count]⟩

theorem loadThread_failed {flags : Flags} {host : Host} {fileSystem : FileSystem} {tid : UInt32}
    (rejected : (loadThread flags host fileSystem tid).ok = false) :
    (loadThread flags host fileSystem tid).keys = [] := by
  unfold loadThread at rejected ⊢
  dsimp only at rejected ⊢
  split at rejected
  next mismatch => rw [if_pos mismatch]
  next counted =>
    rw [if_neg counted]
    exact loadKeysFromFile_failed rejected

/-- A readable file of the expected length is accepted as it stands. -/
theorem loadThread_sound {flags : Flags} {host : Host} {fileSystem : FileSystem} {tid : UInt32}
    {bytes : List UInt8} (content : fileSystem.content (keyFile flags tid) = some bytes)
    (sound : host.reading (keyFile flags tid) = .sound)
    (size : bytes.length = 8 * (expectedCount flags tid).toNat) :
    (loadThread flags host fileSystem tid).ok = true ∧
      (loadThread flags host fileSystem tid).keys
        = decodeWords host.order (expectedCount flags tid).toNat bytes := by
  obtain ⟨loads, keys⟩ := loadKeysFromFile_sound content sound (by omega) []
  have count : bytes.length / 8 = (expectedCount flags tid).toNat := by omega
  rw [count] at keys
  unfold loadThread
  dsimp only
  rw [if_neg (by rw [keys, decodeWords_length]; simp)]
  exact ⟨loads, keys⟩

/-! ## Second pass -/

variable {library : RandomLibrary} {flags : Flags} {host : Host} {fuel : Nat}

/-- One thread of the second pass that generates, with the pass over the rest. -/
structure Generates (library : RandomLibrary) (flags : Flags) (host : Host) (fuel : Nat)
    (tid : UInt32) (rest : List (UInt32 × List UInt64)) (fileSystem : FileSystem)
    (generated : Generated) (later pass : SecondPass) : Prop where
  generates : generateThread library flags fuel tid = some generated
  continues : generatePass library flags host fuel rest
    (saveKeysToFile flags host fileSystem tid.toInt32 generated.keys).fileSystem = some later
  shuffledKeys : pass.shuffledKeys = generated.keys :: later.shuffledKeys
  generatedBy : pass.generatedBy = tid :: later.generatedBy
  files : pass.fileSystem = later.fileSystem
  saves : pass.unsaved = [] →
    (saveKeysToFile flags host fileSystem tid.toInt32 generated.keys).ok = true ∧
      later.unsaved = []

theorem generatePass_empty {tid : UInt32} {rest : List (UInt32 × List UInt64)}
    {fileSystem : FileSystem} {pass : SecondPass}
    (returns : generatePass library flags host fuel ((tid, []) :: rest) fileSystem = some pass) :
    ∃ generated later, Generates library flags host fuel tid rest fileSystem generated later pass := by
  simp only [generatePass, if_true, Option.bind_eq_bind, Option.bind_eq_some_iff] at returns
  obtain ⟨generated, generates, later, continues, equal⟩ := returns
  cases equal
  refine ⟨generated, later, generates, continues, rfl, rfl, rfl, ?_⟩
  intro saved
  cases ok : (saveKeysToFile flags host fileSystem tid.toInt32 generated.keys).ok with
  | true => simpa [ok] using saved
  | false => simp [ok] at saved

/-- One thread of the second pass that keeps its loaded vector. -/
theorem generatePass_kept {tid : UInt32} {keys : List UInt64} (loaded : keys ≠ [])
    {rest : List (UInt32 × List UInt64)} {fileSystem : FileSystem} {pass : SecondPass}
    (returns : generatePass library flags host fuel ((tid, keys) :: rest) fileSystem = some pass) :
    ∃ later, generatePass library flags host fuel rest fileSystem = some later ∧
      pass = { later with shuffledKeys := keys :: later.shuffledKeys } := by
  simp only [generatePass, if_neg loaded, Option.bind_eq_bind, Option.bind_eq_some_iff] at returns
  obtain ⟨later, continues, equal⟩ := returns
  exact ⟨later, continues, (Option.some.inj equal).symm⟩

/-- What holds of every pass: of none, and one thread more, which generates or
    keeps its vector. -/
theorem generatePass_induction
    {motive : List (UInt32 × List UInt64) → FileSystem → SecondPass → Prop}
    (none : ∀ fileSystem pass, generatePass library flags host fuel [] fileSystem = some pass →
      motive [] fileSystem pass)
    (generates : ∀ tid rest fileSystem generated later pass,
      Generates library flags host fuel tid rest fileSystem generated later pass →
      motive rest (saveKeysToFile flags host fileSystem tid.toInt32 generated.keys).fileSystem later →
      motive ((tid, []) :: rest) fileSystem pass)
    (keeps : ∀ tid keys rest fileSystem later, keys ≠ [] → motive rest fileSystem later →
      motive ((tid, keys) :: rest) fileSystem
        { later with shuffledKeys := keys :: later.shuffledKeys })
    {entries : List (UInt32 × List UInt64)} {fileSystem : FileSystem} {pass : SecondPass}
    (returns : generatePass library flags host fuel entries fileSystem = some pass) :
    motive entries fileSystem pass := by
  induction entries generalizing fileSystem pass with
  | nil => exact none fileSystem pass returns
  | cons entry rest inductionHypothesis =>
    obtain ⟨tid, keys⟩ := entry
    by_cases empty : keys = []
    · subst empty
      obtain ⟨generated, later, step⟩ := generatePass_empty returns
      exact generates tid rest fileSystem generated later pass step (inductionHypothesis step.continues)
    · obtain ⟨later, continues, rfl⟩ := generatePass_kept empty returns
      exact keeps tid keys rest fileSystem later empty (inductionHypothesis continues)

theorem generatePass_total {entries : List (UInt32 × List UInt64)}
    (generates : ∀ entry ∈ entries, entry.2 = [] →
      ∃ generated, generateThread library flags fuel entry.1 = some generated)
    (fileSystem : FileSystem) :
    ∃ pass, generatePass library flags host fuel entries fileSystem = some pass := by
  induction entries generalizing fileSystem with
  | nil => exact ⟨_, rfl⟩
  | cons entry rest inductionHypothesis =>
    obtain ⟨tid, keys⟩ := entry
    have restGenerates := inductionHypothesis
      (fun entry member => generates entry (List.mem_cons_of_mem _ member))
    by_cases empty : keys = []
    · obtain ⟨generated, returned⟩ := generates _ List.mem_cons_self empty
      obtain ⟨later, continues⟩ := restGenerates
        (saveKeysToFile flags host fileSystem tid.toInt32 generated.keys).fileSystem
      simp only at returned
      simp [generatePass, empty, returned, continues]
    · obtain ⟨later, continues⟩ := restGenerates fileSystem
      simp [generatePass, empty, continues]

theorem generatePass_generates {entries : List (UInt32 × List UInt64)} {fileSystem : FileSystem}
    {pass : SecondPass}
    (returns : generatePass library flags host fuel entries fileSystem = some pass) :
    ∀ entry ∈ entries, entry.2 = [] →
      ∃ generated, generateThread library flags fuel entry.1 = some generated := by
  refine generatePass_induction (motive := fun entries _ _ => ∀ entry ∈ entries, entry.2 = [] →
    ∃ generated, generateThread library flags fuel entry.1 = some generated) ?none ?generates ?keeps
    returns
  case none => simp
  case generates =>
    intro tid rest fileSystem generated later pass step earlier
    simpa using ⟨⟨generated, step.generates⟩, by simpa using earlier⟩
  case keeps =>
    intro tid keys rest fileSystem later loaded earlier
    simpa [loaded] using earlier

/-- Loaded vectors stay, empty ones become what their thread generates; neither
    the files nor the host have a say. -/
theorem generatePass_keys {entries : List (UInt32 × List UInt64)} {fileSystem : FileSystem}
    {pass : SecondPass}
    (returns : generatePass library flags host fuel entries fileSystem = some pass) :
    pass.shuffledKeys = entries.map fun entry =>
      if entry.2 = [] then generatedKeys library flags fuel entry.1 else entry.2 := by
  refine generatePass_induction (motive := fun entries _ pass => pass.shuffledKeys = entries.map
    fun entry => if entry.2 = [] then generatedKeys library flags fuel entry.1 else entry.2)
    ?none ?generates ?keeps returns
  case none =>
    intro fileSystem pass returns
    cases returns
    rfl
  case generates =>
    intro tid rest fileSystem generated later pass step earlier
    simp [step.shuffledKeys, earlier, generatedKeys_of_some step.generates]
  case keeps =>
    intro tid keys rest fileSystem later loaded earlier
    simp [loaded, earlier]

theorem generatePass_generatedBy {entries : List (UInt32 × List UInt64)} {fileSystem : FileSystem}
    {pass : SecondPass}
    (returns : generatePass library flags host fuel entries fileSystem = some pass) :
    pass.generatedBy = (entries.filter fun entry => entry.2 = []).map Prod.fst := by
  refine generatePass_induction (motive := fun entries _ pass => pass.generatedBy =
    (entries.filter fun entry => entry.2 = []).map Prod.fst) ?none ?generates ?keeps returns
  case none =>
    intro fileSystem pass returns
    cases returns
    rfl
  case generates =>
    intro tid rest fileSystem generated later pass step earlier
    simp [step.generatedBy, earlier]
  case keeps =>
    intro tid keys rest fileSystem later loaded earlier
    simp [loaded, earlier]

/-- Only the files of the threads that generate can change. -/
theorem generatePass_other {entries : List (UInt32 × List UInt64)} {fileSystem : FileSystem}
    {pass : SecondPass} {path : String}
    (returns : generatePass library flags host fuel entries fileSystem = some pass)
    (other : ∀ entry ∈ entries, entry.2 = [] → path ≠ keyFile flags entry.1) :
    pass.fileSystem.content path = fileSystem.content path := by
  refine generatePass_induction (motive := fun entries fileSystem pass =>
    (∀ entry ∈ entries, entry.2 = [] → path ≠ keyFile flags entry.1) →
      pass.fileSystem.content path = fileSystem.content path) ?none ?generates ?keeps returns other
  case none =>
    intro fileSystem pass returns _
    cases returns
    rfl
  case generates =>
    intro tid rest fileSystem generated later pass step earlier other
    have restOther := fun entry member => other entry (List.mem_cons_of_mem _ member)
    rw [step.files, earlier restOther, saveKeysToFile_other (other _ List.mem_cons_self rfl)]
  case keeps =>
    intro tid keys rest fileSystem later _ earlier other
    exact earlier fun entry member => other entry (List.mem_cons_of_mem _ member)

/-- With a file of its own for every thread and no failed save, each thread that
    generates ends up with its file complete. -/
theorem generatePass_content {entries : List (UInt32 × List UInt64)} {fileSystem : FileSystem}
    {pass : SecondPass}
    (returns : generatePass library flags host fuel entries fileSystem = some pass)
    (separate : (entries.map fun entry => keyFile flags entry.1).Nodup)
    (saved : pass.unsaved = []) :
    ∀ entry ∈ entries, entry.2 = [] → pass.fileSystem.content (keyFile flags entry.1)
      = some (encodeWords host.order (generatedKeys library flags fuel entry.1)) := by
  have content := @generatePass_induction library flags host fuel (fun entries _ pass =>
    (entries.map fun entry => keyFile flags entry.1).Nodup → pass.unsaved = [] →
      ∀ entry ∈ entries, entry.2 = [] → pass.fileSystem.content (keyFile flags entry.1)
        = some (encodeWords host.order (generatedKeys library flags fuel entry.1)))
    ?none ?generates ?keeps _ _ _ returns
  exact content separate saved
  case none =>
    intro _ _ _ _ _ entry member
    cases member
  case generates =>
    intro tid rest fileSystem generated later pass step earlier separate saved entry member empty
    rw [List.map_cons, List.nodup_cons] at separate
    obtain ⟨fresh, separateRest⟩ := separate
    obtain ⟨headSaved, restSaved⟩ := step.saves saved
    rw [step.files]
    cases List.mem_cons.mp member with
    | inl head =>
      -- The threads after this one write other files.
      subst head
      rw [generatePass_other step.continues, generatedKeys_of_some step.generates]
      · exact saveKeysToFile_ok headSaved
      · intro other otherMember _ same
        exact fresh (same ▸ List.mem_map_of_mem otherMember)
    | inr behind => exact earlier separateRest restSaved entry behind empty
  case keeps =>
    intro tid keys rest fileSystem later loaded earlier separate saved entry member empty
    rw [List.map_cons, List.nodup_cons] at separate
    cases List.mem_cons.mp member with
    | inl head =>
      subst head
      exact absurd empty loaded
    | inr behind => exact earlier separate.2 saved entry behind empty

/-! ## The whole function -/

/-- The vectors after the first pass, each beside its thread. -/
def firstPass (flags : Flags) (host : Host) (fileSystem : FileSystem) :
    List (UInt32 × List UInt64) :=
  (threadIds flags).zip
    (((threadIds flags).map (loadThread flags host fileSystem)).map Loaded.keys)

theorem firstPass_eq (flags : Flags) (host : Host) (fileSystem : FileSystem) :
    firstPass flags host fileSystem
      = (threadIds flags).map fun tid => (tid, (loadThread flags host fileSystem tid).keys) := by
  rw [firstPass, List.map_map, ← List.map_prod_left_eq_zip]
  rfl

theorem mem_firstPass {fileSystem : FileSystem} {entry : UInt32 × List UInt64}
    (member : entry ∈ firstPass flags host fileSystem) :
    entry.1 ∈ threadIds flags ∧ entry.2 = (loadThread flags host fileSystem entry.1).keys := by
  rw [firstPass_eq] at member
  obtain ⟨tid, known, rfl⟩ := List.mem_map.mp member
  exact ⟨known, rfl⟩

theorem firstPass_mem {fileSystem : FileSystem} {tid : UInt32} (member : tid ∈ threadIds flags) :
    (tid, (loadThread flags host fileSystem tid).keys) ∈ firstPass flags host fileSystem := by
  rw [firstPass_eq]
  exact List.mem_map_of_mem member

/-- Every thread that loaded nothing generates its vector. -/
theorem secondPass_generates {fileSystem start : FileSystem} {pass : SecondPass}
    (second : generatePass library flags host fuel (firstPass flags host fileSystem) start
      = some pass)
    {tid : UInt32} (member : tid ∈ threadIds flags)
    (empty : (loadThread flags host fileSystem tid).keys = []) :
    ∃ generated, generateThread library flags fuel tid = some generated := by
  have generates := generatePass_generates second (tid, _) (firstPass_mem member)
  exact generates empty

/-- Both ways out of a call that returns. -/
theorem prepareShuffledKeys_cases {fileSystem : FileSystem} {plan : KeyPlan}
    (returns : prepareShuffledKeys library flags host fuel fileSystem = some (.returned plan)) :
    acceptedDistribution flags = true ∧ flags.workerThreads ≠ 0 ∧
      (plan.allLoaded = true ∧
          (∀ tid ∈ threadIds flags, (loadThread flags host fileSystem tid).ok = true) ∧
          plan.shuffledKeys
            = (threadIds flags).map (fun tid => (loadThread flags host fileSystem tid).keys) ∧
          plan.generatedBy = [] ∧ plan.fileSystem = fileSystem ∨
        plan.allLoaded = false ∧
          (∃ tid ∈ threadIds flags, (loadThread flags host fileSystem tid).ok = false) ∧
          plan.shuffledKeys = (threadIds flags).map (fun tid =>
            if (loadThread flags host fileSystem tid).keys = []
            then generatedKeys library flags fuel tid
            else (loadThread flags host fileSystem tid).keys) ∧
          ∃ pass, generatePass library flags host fuel (firstPass flags host fileSystem) fileSystem
              = some pass ∧
            plan.generatedBy = pass.generatedBy ∧ plan.unsaved = pass.unsaved ∧
            plan.fileSystem = pass.fileSystem) := by
  unfold prepareShuffledKeys at returns
  split at returns
  · cases returns
  next distribution =>
    rw [not_not] at distribution
    split at returns
    · cases returns
    next workers =>
      refine ⟨distribution, workers, ?_⟩
      dsimp only at returns
      split at returns
      next loaded =>
        left
        cases returns
        rw [List.all_map, List.all_eq_true] at loaded
        exact ⟨rfl, loaded, by rw [List.map_map]; rfl, rfl, rfl⟩
      next missing =>
        right
        obtain ⟨pass, second, equal⟩ := Option.bind_eq_some_iff.mp returns
        cases equal
        rw [List.all_map, List.all_eq_true] at missing
        push Not at missing
        obtain ⟨tid, member, rejected⟩ := missing
        refine ⟨rfl, ⟨tid, member, by simpa using rejected⟩, ?_, pass, second, rfl, rfl, rfl⟩
        have vectors := @generatePass_keys _ _ _ _ (firstPass flags host fileSystem) _ _ second
        rw [firstPass_eq, List.map_map] at vectors
        exact vectors

theorem prepareShuffledKeys_loaded {fileSystem : FileSystem}
    (distribution : acceptedDistribution flags = true) (workers : flags.workerThreads ≠ 0)
    (loaded : ∀ tid ∈ threadIds flags, (loadThread flags host fileSystem tid).ok = true) :
    ∃ plan, prepareShuffledKeys library flags host fuel fileSystem = some (.returned plan) ∧
      plan.allLoaded = true := by
  have all : ((threadIds flags).map (loadThread flags host fileSystem)).all Loaded.ok = true := by
    rw [List.all_map, List.all_eq_true]
    exact loaded
  simp [prepareShuffledKeys, distribution, workers, all]

theorem prepareShuffledKeys_total {fileSystem : FileSystem}
    (distribution : acceptedDistribution flags = true) (workers : flags.workerThreads ≠ 0)
    (generates : ∀ entry ∈ firstPass flags host fileSystem, entry.2 = [] →
      ∃ generated, generateThread library flags fuel entry.1 = some generated) :
    ∃ plan, prepareShuffledKeys library flags host fuel fileSystem = some (.returned plan) := by
  obtain ⟨pass, second⟩ := @generatePass_total library flags host fuel _ generates fileSystem
  unfold prepareShuffledKeys
  rw [if_neg (by simp [distribution]), if_neg workers]
  dsimp only
  split
  · exact ⟨_, rfl⟩
  · exact ⟨_, by rw [show (threadIds flags).zip _ = firstPass flags host fileSystem from rfl, second]; rfl⟩

end FdpRocks.Benchmark
