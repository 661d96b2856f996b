import FdpRocks.Benchmark.PrepareKeysSoundness

/-! # The key-order directory as a cache

With generated file names the directory is a cache of what the generators
produce.  `prepareShuffledKeys_heals` says that it can be cut off anywhere
without changing a result, and that one run whose saves succeed repairs it.
-/

namespace FdpRocks.Benchmark

open FdpRocks.Library.Words

/-- Every thread's file is missing or holds the beginning of the right bytes. -/
def PartialCache (flags : Flags) (host : Host) (fileSystem : FileSystem)
    (vectors : List (List UInt64)) : Prop :=
  ∀ entry ∈ (threadIds flags).zip vectors,
    fileSystem.content (keyFile flags entry.1) = none ∨
      ∃ bytes, fileSystem.content (keyFile flags entry.1) = some bytes ∧
        bytes <+: encodeWords host.order entry.2

def CompleteCache (flags : Flags) (host : Host) (fileSystem : FileSystem)
    (vectors : List (List UInt64)) : Prop :=
  ∀ entry ∈ (threadIds flags).zip vectors,
    fileSystem.content (keyFile flags entry.1) = some (encodeWords host.order entry.2)

/-- A beginning of the right length is the whole. -/
theorem decodeWords_prefix {order : ByteOrder} {bytes : List UInt8} {words : List UInt64}
    (beginning : bytes <+: encodeWords order words) (size : bytes.length = 8 * words.length) :
    bytes = encodeWords order words :=
  beginning.eq_of_length (by rw [size, encodeWords_length])

theorem mem_zip_map {α β : Type} {ids : List α} {value : α → β} {entry : α × β} :
    entry ∈ ids.zip (ids.map value) ↔ entry.1 ∈ ids ∧ entry.2 = value entry.1 := by
  rw [← List.map_prod_left_eq_zip, List.mem_map]
  constructor
  · rintro ⟨id, member, rfl⟩
    exact ⟨member, rfl⟩
  · rintro ⟨member, equal⟩
    exact ⟨entry.1, member, by rw [← equal]⟩

section

variable {library : RandomLibrary} {flags : Flags} {host : Host} {fuel : Nat}

/-! ## The run from an empty directory -/

theorem fresh_vectors {fileSystem : FileSystem}
    (missing : ∀ tid ∈ threadIds flags, fileSystem.content (keyFile flags tid) = none)
    {fresh : KeyPlan}
    (returns : prepareShuffledKeys library flags host fuel fileSystem = some (.returned fresh)) :
    fresh.shuffledKeys = (threadIds flags).map (generatedKeys library flags fuel) ∧
      ∀ tid ∈ threadIds flags, ∃ generated,
        generateThread library flags fuel tid = some generated := by
  have rejected : ∀ tid ∈ threadIds flags, (loadThread flags host fileSystem tid).ok = false := by
    intro tid member
    cases accepted : (loadThread flags host fileSystem tid).ok with
    | false => rfl
    | true =>
      obtain ⟨bytes, content, _⟩ := loadThread_ok accepted
      rw [missing tid member] at content
      cases content
  obtain ⟨_, workers, ⟨_, loaded, _⟩ | ⟨_, _, vectors, pass, second, _⟩⟩ :=
    prepareShuffledKeys_cases returns
  · have first : 0 ∈ threadIds flags := mem_threadIds.mpr (workerThreads_pos workers)
    exact absurd (loaded 0 first) (by simp [rejected 0 first])
  · constructor
    · rw [vectors]
      apply List.map_congr_left
      intro tid member
      rw [if_pos (loadThread_failed (rejected tid member))]
    · intro tid member
      exact secondPass_generates second member (loadThread_failed (rejected tid member))

theorem generatedKeys_length {tid : UInt32} (member : tid ∈ threadIds flags)
    (generates : ∃ generated, generateThread library flags fuel tid = some generated) :
    (generatedKeys library flags fuel tid).length = (expectedCount flags tid).toNat := by
  obtain ⟨generated, returned⟩ := generates
  rw [generatedKeys_of_some returned]
  exact generateThread_length member returned

/-! ## The run from a damaged directory -/

/-- The size check lets only complete files through. -/
theorem loadThread_partial {fileSystem : FileSystem} {tid : UInt32} {keys : List UInt64}
    (cut : fileSystem.content (keyFile flags tid) = none ∨
      ∃ bytes, fileSystem.content (keyFile flags tid) = some bytes ∧
        bytes <+: encodeWords host.order keys)
    (size : keys.length = (expectedCount flags tid).toNat)
    (accepted : (loadThread flags host fileSystem tid).ok = true) :
    (loadThread flags host fileSystem tid).keys = keys ∧
      fileSystem.content (keyFile flags tid) = some (encodeWords host.order keys) := by
  obtain ⟨bytes, content, count, decoded⟩ := loadThread_ok accepted
  rcases cut with missing | ⟨found, present, beginning⟩
  · rw [missing] at content; cases content
  · rw [present] at content
    cases content
    have whole := decodeWords_prefix beginning (by rw [count, size])
    constructor
    · rw [decoded, whole, ← size, decodeWords_encodeWords]
    · rw [present, whole]

theorem loadThread_kept {fileSystem : FileSystem} {tid : UInt32}
    (kept : (loadThread flags host fileSystem tid).keys ≠ []) :
    (loadThread flags host fileSystem tid).ok = true := by
  cases accepted : (loadThread flags host fileSystem tid).ok with
  | true => rfl
  | false => exact absurd (loadThread_failed accepted) kept

theorem firstPass_separate (generated : flags.keyFilePath = "") (fileSystem : FileSystem) :
    ((firstPass flags host fileSystem).map fun entry => keyFile flags entry.1).Nodup := by
  rw [firstPass_eq, List.map_map]
  exact (threadIds_nodup flags).map_on fun left _ right _ same => keyFile_injective generated same

/-- A complete cache is loaded as it stands, whatever the fuel. -/
theorem prepareShuffledKeys_complete {fileSystem : FileSystem} {value : UInt32 → List UInt64}
    (distribution : acceptedDistribution flags = true) (workers : flags.workerThreads ≠ 0)
    (complete : CompleteCache flags host fileSystem ((threadIds flags).map value))
    (size : ∀ tid ∈ threadIds flags, (value tid).length = (expectedCount flags tid).toNat)
    (sound : ∀ tid ∈ threadIds flags, host.reading (keyFile flags tid) = .sound) :
    ∃ plan, prepareShuffledKeys library flags host fuel fileSystem = some (.returned plan) ∧
      plan.allLoaded = true ∧ plan.generatedBy = [] ∧
      plan.shuffledKeys = (threadIds flags).map value ∧ plan.fileSystem = fileSystem := by
  have loads : ∀ tid ∈ threadIds flags, (loadThread flags host fileSystem tid).ok = true ∧
      (loadThread flags host fileSystem tid).keys = value tid := by
    intro tid member
    have content := complete (tid, value tid) (mem_zip_map.mpr ⟨member, rfl⟩)
    obtain ⟨accepted, keys⟩ := loadThread_sound content (sound tid member)
      (by rw [encodeWords_length, size tid member])
    exact ⟨accepted, by rw [keys, ← size tid member, decodeWords_encodeWords]⟩
  obtain ⟨plan, returns, loaded⟩ := @prepareShuffledKeys_loaded library flags host fuel fileSystem
    distribution workers (fun tid member => (loads tid member).1)
  refine ⟨plan, returns, loaded, ?_⟩
  obtain ⟨_, _, ⟨_, _, vectors, none, files⟩ | ⟨generating, _⟩⟩ :=
    prepareShuffledKeys_cases returns
  · refine ⟨none, ?_, files⟩
    rw [vectors]
    exact List.map_congr_left fun tid member => (loads tid member).2
  · rw [loaded] at generating; cases generating

/-- The run of a damaged directory: it returns `vectors`, and if its saves
    succeed then any later run that can read the files loads all of them. -/
def Heals (library : RandomLibrary) (flags : Flags) (host : Host) (fuel : Nat)
    (damaged : FileSystem) (vectors : List (List UInt64)) : Prop :=
  ∃ plan, prepareShuffledKeys library flags host fuel damaged = some (.returned plan) ∧
    plan.shuffledKeys = vectors ∧
    (plan.unsaved = [] → CompleteCache flags host plan.fileSystem vectors ∧
      ∀ (again : Host) (more : Nat), again.order = host.order →
        (∀ tid ∈ threadIds flags, again.reading (keyFile flags tid) = .sound) →
        ∃ next, prepareShuffledKeys library flags again more plan.fileSystem
            = some (.returned next) ∧
          next.allLoaded = true ∧ next.generatedBy = [] ∧ next.shuffledKeys = vectors ∧
          next.fileSystem = plan.fileSystem)

theorem healed_complete {damaged : FileSystem} {plan : KeyPlan} (generated : flags.keyFilePath = "")
    (cut : PartialCache flags host damaged
      ((threadIds flags).map (generatedKeys library flags fuel)))
    (size : ∀ tid ∈ threadIds flags,
      (generatedKeys library flags fuel tid).length = (expectedCount flags tid).toNat)
    (returns : prepareShuffledKeys library flags host fuel damaged = some (.returned plan)) :
    plan.shuffledKeys = (threadIds flags).map (generatedKeys library flags fuel) ∧
      (plan.unsaved = [] → CompleteCache flags host plan.fileSystem
        ((threadIds flags).map (generatedKeys library flags fuel))) := by
  have whole : ∀ tid ∈ threadIds flags, (loadThread flags host damaged tid).ok = true →
      (loadThread flags host damaged tid).keys = generatedKeys library flags fuel tid ∧
        damaged.content (keyFile flags tid)
          = some (encodeWords host.order (generatedKeys library flags fuel tid)) := by
    intro tid member
    exact loadThread_partial (cut (tid, generatedKeys library flags fuel tid)
      (mem_zip_map.mpr ⟨member, rfl⟩)) (size tid member)
  obtain ⟨_, _, ⟨_, loaded, vectors, _, files⟩ | ⟨_, _, vectors, pass, second, _, saves, files⟩⟩ :=
    prepareShuffledKeys_cases returns
  · constructor
    · rw [vectors]
      exact List.map_congr_left fun tid member => (whole tid member (loaded tid member)).1
    · intro _ entry member
      obtain ⟨known, equal⟩ := mem_zip_map.mp member
      rw [files, equal]
      exact (whole entry.1 known (loaded entry.1 known)).2
  · constructor
    · rw [vectors]
      apply List.map_congr_left
      intro tid member
      by_cases empty : (loadThread flags host damaged tid).keys = []
      · rw [if_pos empty]
      · rw [if_neg empty, (whole tid member (loadThread_kept empty)).1]
    · intro saved entry member
      obtain ⟨known, equal⟩ := mem_zip_map.mp member
      rw [saves] at saved
      rw [files, equal]
      by_cases empty : (loadThread flags host damaged entry.1).keys = []
      · have content := generatePass_content second (firstPass_separate generated damaged) saved
          (entry.1, _) (firstPass_mem known)
        exact content empty
      · -- No other thread writes to the file of a thread whose vector was loaded.
        rw [generatePass_other second]
        · exact (whole entry.1 known (loadThread_kept empty)).2
        · intro other listed otherEmpty same
          have sameThread := keyFile_injective generated same
          rw [(mem_firstPass listed).2, ← sameThread] at otherEmpty
          exact empty otherEmpty

/-- The cache heals itself: whatever part of each file is missing, a run gives
    every thread the vector an empty directory would give it, and one run whose
    saves succeed makes the directory complete. -/
theorem prepareShuffledKeys_heals (library : RandomLibrary) (flags : Flags) (host cleanHost : Host)
    (fuel : Nat) (generated : flags.keyFilePath = "") (workers : 1 ≤ flags.workerThreads.toNat)
    (distribution : acceptedDistribution flags = true) (emptyDirectory : FileSystem)
    (missing : ∀ tid ∈ threadIds flags, emptyDirectory.content (keyFile flags tid) = none) :
    ((flags.keyDistribution = "uniform" → flags.num.toNat < 2 ^ 64 - 1) →
        flags.num.toNat < fuel →
        ∃ fresh, prepareShuffledKeys library flags cleanHost fuel emptyDirectory
          = some (.returned fresh)) ∧
      ∀ fresh, prepareShuffledKeys library flags cleanHost fuel emptyDirectory
          = some (.returned fresh) →
        ∀ damaged, PartialCache flags host damaged fresh.shuffledKeys →
          Heals library flags host fuel damaged fresh.shuffledKeys := by
  have someThreads : flags.workerThreads ≠ 0 := by
    intro none
    simp [none] at workers
  constructor
  · intro bounded enough
    apply prepareShuffledKeys_total distribution someThreads
    intro entry member _
    have known := (mem_firstPass member).1
    exact generateThread_total library known
      (fun uniform => Nat.lt_of_le_of_lt (share_le known) (bounded uniform)) enough
  · intro fresh freshRun damaged cut
    obtain ⟨vectors, generates⟩ := fresh_vectors missing freshRun
    have size : ∀ tid ∈ threadIds flags,
        (generatedKeys library flags fuel tid).length = (expectedCount flags tid).toNat :=
      fun tid member => generatedKeys_length member (generates tid member)
    rw [vectors] at cut ⊢
    obtain ⟨plan, returns⟩ := @prepareShuffledKeys_total library flags host fuel damaged
      distribution someThreads (fun entry member _ => generates entry.1 (mem_firstPass member).1)
    obtain ⟨healed, repairs⟩ := healed_complete generated cut size returns
    refine ⟨plan, returns, healed, fun saved => ⟨repairs saved, ?_⟩⟩
    intro again more sameOrder sound
    have complete : CompleteCache flags again plan.fileSystem
        ((threadIds flags).map (generatedKeys library flags fuel)) := by
      unfold CompleteCache
      rw [sameOrder]
      exact repairs saved
    exact prepareShuffledKeys_complete distribution someThreads complete size sound

end

/-! ## A damaged directory -/

def threeThreads : Flags := { workerThreads := 3, num := 7, keySort := "ascending" }

/-- Thread 0's file ends in the middle of a word, the others are missing. -/
def damagedDirectory : FileSystem :=
  FileSystem.empty.put (keyFile threeThreads 0) (.file ((encodeWords .little [1, 2]).take 11))

theorem prepareShuffledKeys_heals_three :
    ∃ fresh, prepareShuffledKeys .still threeThreads .cooperative 8 .empty
        = some (.returned fresh) ∧
      fresh.shuffledKeys = [[1, 2], [3, 4], [5, 6, 7]] ∧
      Heals .still threeThreads .cooperative 8 damagedDirectory fresh.shuffledKeys := by
  refine ⟨_, rfl, rfl, (prepareShuffledKeys_heals .still threeThreads .cooperative .cooperative 8 rfl
    (by decide) rfl .empty (fun _ _ => rfl)).2 _ rfl damagedDirectory ?_⟩
  intro entry member
  change entry ∈ [(0, [1, 2]), (1, [3, 4]), (2, [5, 6, 7])] at member
  simp only [List.mem_cons, List.not_mem_nil, or_false] at member
  rcases member with rfl | rfl | rfl
  · exact .inr ⟨_, FileSystem.content_put_file _ _ _, List.take_prefix _ _⟩
  · exact .inl (by decide)
  · exact .inl (by decide)

end FdpRocks.Benchmark
