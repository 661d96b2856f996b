import FdpRocks.Benchmark.PrepareKeysSoundness

/-! # Key files given with `--key_file_path`

Loading and saving share `GetKeyOrderFilePath`, so with `--key_file_path` every
thread reads the one file, and every thread whose vector does not fit writes to
it.  `keepsKeyFile_iff` says for which flags and files the file survives;
`allLoaded_repeats` says what the threads hold when it is accepted.
-/

namespace FdpRocks.Benchmark

open FdpRocks.Library.Words

variable {library : RandomLibrary} {flags : Flags} {host : Host} {fuel : Nat}

theorem keyFile_given (given : flags.keyFilePath ≠ "") (tid : UInt32) :
    keyFile flags tid = flags.keyFilePath :=
  getKeyOrderFilePath_given given tid.toInt32

/-- Whatever the machine does, a call that returns leaves `bytes` in the file. -/
def KeepsKeyFile (library : RandomLibrary) (flags : Flags) (fileSystem : FileSystem)
    (bytes : List UInt8) : Prop :=
  ∀ (host : Host) (fuel : Nat) (plan : KeyPlan), host.reading flags.keyFilePath = .sound →
    prepareShuffledKeys library flags host fuel fileSystem = some (.returned plan) →
    plan.fileSystem.content flags.keyFilePath = some bytes

/-- The key-order directory that `SaveKeysToFile` insists on cannot be had: what is
    there has no `S_IFDIR` bit, or there is nothing and no room for a directory. -/
def NoKeyOrderDir (flags : Flags) (fileSystem : FileSystem) : Prop :=
  (∃ mode, fileSystem.stat flags.keyOrderDir = some mode ∧ mode &&& sIfDir = 0) ∨
    fileSystem.stat flags.keyOrderDir = none ∧ fileSystem.hasRoomFor flags.keyOrderDir = false

/-- The flags and files with which the file survives: the distribution is
    refused, the file has exactly every thread's count, no save gets as far as
    the file, or the last thread's uniform range never ends. -/
def KeyFileSafe (flags : Flags) (fileSystem : FileSystem) (bytes : List UInt8) : Prop :=
  acceptedDistribution flags = false ∨
    (flags.num.toNat % flags.workerThreads.toNat = 0 ∧
      bytes.length = 8 * (flags.num.toNat / flags.workerThreads.toNat)) ∨
    NoKeyOrderDir flags fileSystem ∨
    (flags.keyDistribution = "uniform" ∧ flags.num.toNat = 2 ^ 64 - 1 ∧
      bytes.length ≠ 8 * (flags.num.toNat / flags.workerThreads.toNat
        + flags.num.toNat % flags.workerThreads.toNat))

/-! ## The last thread -/

theorem threadIds_eq_append (workers : flags.workerThreads ≠ 0) :
    ∃ earlier, threadIds flags = earlier ++ [flags.workerThreads - 1] := by
  obtain ⟨count, threads⟩ := Nat.exists_eq_add_of_le' (workerThreads_pos workers)
  have small : count < 2 ^ 32 := by
    have := flags.workerThreads.toNat_lt
    omega
  have last : UInt32.ofNat count = flags.workerThreads - 1 := by
    rw [eq_last_iff workers, UInt32.toNat_ofNat_of_lt' small]
    omega
  exact ⟨(List.range count).map UInt32.ofNat, by
    rw [threadIds, threads, List.range_succ, List.map_append, List.map_singleton, last]⟩

theorem last_mem (workers : flags.workerThreads ≠ 0) :
    flags.workerThreads - 1 ∈ threadIds flags := by
  obtain ⟨earlier, equal⟩ := threadIds_eq_append workers
  rw [equal]
  exact List.mem_append_right _ List.mem_cons_self

theorem expectedCount_last (workers : flags.workerThreads ≠ 0) :
    (expectedCount flags (flags.workerThreads - 1)).toNat
      = flags.num.toNat / flags.workerThreads.toNat
        + flags.num.toNat % flags.workerThreads.toNat := by
  rw [expectedCount_toNat workers, if_pos ((eq_last_iff workers _).mp rfl)]

/-- The last thread's share ends where the keys end. -/
theorem lastShare_eq (workers : flags.workerThreads ≠ 0) :
    (flags.workerThreads - 1).toNat * (flags.num.toNat / flags.workerThreads.toNat)
        + (expectedCount flags (flags.workerThreads - 1)).toNat = flags.num.toNat := by
  have last := (eq_last_iff workers _).mp (rfl : flags.workerThreads - 1 = flags.workerThreads - 1)
  have split := Nat.div_add_mod flags.num.toNat flags.workerThreads.toNat
  obtain ⟨count, threads⟩ := Nat.exists_eq_add_of_le' (workerThreads_pos workers)
  rw [expectedCount_last workers, last]
  rw [threads] at split ⊢
  rw [Nat.add_mul] at split
  simp only [Nat.add_sub_cancel] at split ⊢
  omega

theorem lastCount_pos (workers : flags.workerThreads ≠ 0) (someKeys : 1 ≤ flags.num.toNat) :
    0 < (expectedCount flags (flags.workerThreads - 1)).toNat := by
  have split := Nat.div_add_mod flags.num.toNat flags.workerThreads.toNat
  rw [expectedCount_last workers]
  rcases Nat.eq_zero_or_pos (flags.num.toNat / flags.workerThreads.toNat) with none | share
  · rw [none, Nat.mul_zero] at split
    rw [none]
    omega
  · exact Nat.add_pos_left share _

theorem expectedCount_earlier (workers : flags.workerThreads ≠ 0) {tid : UInt32}
    (earlier : tid ≠ flags.workerThreads - 1) :
    (expectedCount flags tid).toNat = flags.num.toNat / flags.workerThreads.toNat := by
  rw [expectedCount_toNat workers, if_neg (fun same => earlier ((eq_last_iff workers tid).mpr same)),
    Nat.add_zero]

/-- The share of a thread before the last one ends before the last key. -/
theorem share_lt (workers : flags.workerThreads ≠ 0) (someKeys : 1 ≤ flags.num.toNat)
    {tid : UInt32} (member : tid ∈ threadIds flags) (notLast : tid ≠ flags.workerThreads - 1) :
    tid.toNat * (flags.num.toNat / flags.workerThreads.toNat) + (expectedCount flags tid).toNat
      < flags.num.toNat := by
  have whole := lastShare_eq workers
  have positive := lastCount_pos workers someKeys
  have index := mem_threadIds.mp member
  have last := (eq_last_iff workers _).mp
    (rfl : flags.workerThreads - 1 = flags.workerThreads - 1)
  have before : tid.toNat + 1 ≤ (flags.workerThreads - 1).toNat := by
    have different : tid.toNat ≠ (flags.workerThreads - 1).toNat :=
      fun same => notLast (UInt32.toNat_inj.mp same)
    omega
  have earlier := Nat.mul_le_mul_right (flags.num.toNat / flags.workerThreads.toNat) before
  rw [Nat.add_mul] at earlier
  rw [expectedCount_earlier workers notLast]
  omega

/-- All threads expect the count of one file only if nothing is left over. -/
theorem counts_agree (workers : flags.workerThreads ≠ 0) {count : Nat}
    (agree : ∀ tid ∈ threadIds flags, count = (expectedCount flags tid).toNat) :
    flags.num.toNat % flags.workerThreads.toNat = 0 ∧
      count = flags.num.toNat / flags.workerThreads.toNat := by
  have last := agree _ (last_mem workers)
  rw [expectedCount_last workers] at last
  by_cases single : flags.workerThreads.toNat = 1
  · rw [single, Nat.mod_one] at last ⊢
    exact ⟨rfl, last⟩
  · have first : 0 ∈ threadIds flags := mem_threadIds.mpr (workerThreads_pos workers)
    have notLast : (0 : UInt32) ≠ flags.workerThreads - 1 := by
      rw [ne_eq, eq_last_iff workers, UInt32.toNat_zero]
      have := workerThreads_pos workers
      omega
    have share := agree 0 first
    rw [expectedCount_earlier workers notLast] at share
    omega

/-! ## One file for every thread -/

theorem allLoaded_counts {fileSystem : FileSystem} {bytes : List UInt8}
    (given : flags.keyFilePath ≠ "")
    (content : fileSystem.content flags.keyFilePath = some bytes)
    (workers : flags.workerThreads ≠ 0)
    (loaded : ∀ tid ∈ threadIds flags, (loadThread flags host fileSystem tid).ok = true) :
    flags.num.toNat % flags.workerThreads.toNat = 0 ∧
      bytes.length / 8 = flags.num.toNat / flags.workerThreads.toNat ∧
      bytes.length % 8 = 0 := by
  have sizes : ∀ tid ∈ threadIds flags,
      bytes.length = 8 * (expectedCount flags tid).toNat := by
    intro tid member
    obtain ⟨found, present, size, _⟩ := loadThread_ok (loaded tid member)
    rw [keyFile_given given, content] at present
    cases present
    exact size
  have agree : ∀ tid ∈ threadIds flags, bytes.length / 8 = (expectedCount flags tid).toNat := by
    intro tid member
    have := sizes tid member
    omega
  obtain ⟨even, count⟩ := counts_agree workers agree
  exact ⟨even, count, by have := sizes _ (last_mem workers); omega⟩

/-- An accepted key file is handed to every thread whole: the workload is the
    file as many times over as there are threads. -/
theorem allLoaded_repeats (library : RandomLibrary) (flags : Flags) (host : Host) (fuel : Nat)
    (fileSystem : FileSystem) (bytes : List UInt8) (given : flags.keyFilePath ≠ "")
    (content : fileSystem.content flags.keyFilePath = some bytes) (plan : KeyPlan)
    (returns : prepareShuffledKeys library flags host fuel fileSystem = some (.returned plan))
    (allLoaded : plan.allLoaded = true) :
    flags.num.toNat % flags.workerThreads.toNat = 0 ∧
      bytes.length = 8 * (flags.num.toNat / flags.workerThreads.toNat) ∧
      plan.shuffledKeys = List.replicate flags.workerThreads.toNat
        (decodeWords host.order (bytes.length / 8) bytes) ∧
      (plan.shuffledKeys.flatten = decodeWords host.order (bytes.length / 8) bytes ↔
        flags.workerThreads.toNat = 1 ∨ bytes = []) := by
  obtain ⟨_, workers, ⟨_, loaded, vectors, _⟩ | ⟨generating, _⟩⟩ :=
    prepareShuffledKeys_cases returns
  · obtain ⟨even, count, aligned⟩ := allLoaded_counts given content workers loaded
    have same : ∀ tid ∈ threadIds flags, (loadThread flags host fileSystem tid).keys
        = decodeWords host.order (bytes.length / 8) bytes := by
      intro tid member
      obtain ⟨found, present, size, keys⟩ := loadThread_ok (loaded tid member)
      rw [keyFile_given given, content] at present
      cases present
      rw [keys, size, Nat.mul_div_cancel_left _ (by decide)]
    have repeated : plan.shuffledKeys = List.replicate flags.workerThreads.toNat
        (decodeWords host.order (bytes.length / 8) bytes) := by
      rw [vectors, List.map_congr_left same, List.map_const', threadIds_length]
    refine ⟨even, by omega, repeated, ?_⟩
    rw [repeated]
    constructor
    · intro once
      have lengths := congrArg List.length once
      rw [List.length_flatten, List.map_replicate, List.sum_replicate, decodeWords_length,
        smul_eq_mul] at lengths
      rcases Nat.eq_zero_or_pos (bytes.length / 8) with empty | some
      · exact .inr (List.eq_nil_of_length_eq_zero (by omega))
      · exact .inl (Nat.eq_of_mul_eq_mul_right some (by rw [lengths, Nat.one_mul]))
    · rintro (single | empty)
      · rw [single]
        simp
      · subst empty
        simp [decodeWords]
  · rw [allLoaded] at generating
    cases generating

theorem allLoaded_repeats_two :
    ∃ plan, prepareShuffledKeys .still { workerThreads := 2, num := 2, keyFilePath := "/keys.bin" }
        .cooperative 0 (FileSystem.empty.put "/keys.bin" (.file [7, 0, 0, 0, 0, 0, 0, 0]))
          = some (.returned plan) ∧
      plan.shuffledKeys = [[7], [7]] := by
  refine ⟨_, rfl, ?_⟩
  obtain ⟨_, _, repeated, _⟩ := allLoaded_repeats .still
    { workerThreads := 2, num := 2, keyFilePath := "/keys.bin" } .cooperative 0 _
    [7, 0, 0, 0, 0, 0, 0, 0] (by decide) (FileSystem.content_put_file .empty "/keys.bin" _) _ rfl rfl
  rw [repeated]
  rfl

/-- Two workers each issue the one key of the file. -/
theorem keyFile_issued_twice :
    ¬ ∀ (library : RandomLibrary) (flags : Flags) (host : Host) (fuel : Nat)
        (fileSystem : FileSystem) (bytes : List UInt8) (plan : KeyPlan),
      flags.keyFilePath ≠ "" → fileSystem.content flags.keyFilePath = some bytes →
      host.reading flags.keyFilePath = .sound →
      prepareShuffledKeys library flags host fuel fileSystem = some (.returned plan) →
      plan.allLoaded = true →
      plan.shuffledKeys.flatten = decodeWords host.order (bytes.length / 8) bytes := by
  intro once
  have issued := once .still { workerThreads := 2, num := 2, keyFilePath := "/keys.bin" }
    .cooperative 0 (FileSystem.empty.put "/keys.bin" (.file [7, 0, 0, 0, 0, 0, 0, 0])) _ _
    (by decide) (FileSystem.content_put_file _ _ _) rfl rfl rfl
  exact absurd issued (by decide)

/-! ## When the file survives -/

/-- Exactly the threads with an empty vector generate. -/
theorem firstPass_generatedBy {fileSystem start : FileSystem} {pass : SecondPass}
    (returns : generatePass library flags host fuel (firstPass flags host fileSystem) start
      = some pass) :
    pass.generatedBy = (threadIds flags).filter
      fun tid => (loadThread flags host fileSystem tid).keys = [] := by
  rw [generatePass_generatedBy returns, firstPass_eq, List.filter_map, List.map_map]
  exact List.map_id _

/-- With a machine on which nothing fails, every save reaches the key file. -/
structure SaveReady (flags : Flags) (fileSystem : FileSystem) : Prop where
  named : flags.keyOrderDir ≠ ""
  apart : flags.keyOrderDir ≠ flags.keyFilePath
  directory : ∀ mode, fileSystem.stat flags.keyOrderDir = some mode → mode &&& sIfDir ≠ 0
  room : fileSystem.stat flags.keyOrderDir = none → fileSystem.hasRoomFor flags.keyOrderDir = true
  stored : ∃ bytes, fileSystem.entry flags.keyFilePath = some (.file bytes)

theorem SaveReady.opens {fileSystem : FileSystem} (ready : SaveReady flags fileSystem) :
    fileSystem.opensForWriting flags.keyFilePath = true := by
  obtain ⟨bytes, present⟩ := ready.stored
  simp [FileSystem.opensForWriting, present]

theorem file_mode : (0o100644 : Nat) &&& sIfDir = 0 := rfl

theorem saveReady_of_dir {fileSystem : FileSystem} {bytes : List UInt8}
    (given : flags.keyFilePath ≠ "")
    (content : fileSystem.content flags.keyFilePath = some bytes)
    (found : ¬ NoKeyOrderDir flags fileSystem) : SaveReady flags fileSystem := by
  simp only [NoKeyOrderDir, not_or, not_exists, not_and, Bool.not_eq_false] at found
  obtain ⟨directory, room⟩ := found
  unfold FileSystem.content at content
  split at content
  next stored present =>
    have seen : fileSystem.stat flags.keyFilePath = some 0o100644 := by
      rw [FileSystem.stat, if_neg given, present]
      rfl
    refine ⟨?_, ?_, directory, room, stored, present⟩
    · intro unnamed
      have roomless := room (by simp [FileSystem.stat, unnamed])
      exact FileSystem.ne_of_hasRoomFor roomless unnamed
    · -- A regular file is not a directory.
      intro same
      exact directory _ (same ▸ seen) file_mode
  · cases content

/-- A file that is written again is no directory before or after. -/
theorem SaveReady.put_file {fileSystem : FileSystem} (ready : SaveReady flags fileSystem)
    (bytes : List UInt8) : SaveReady flags (fileSystem.put flags.keyFilePath (.file bytes)) := by
  obtain ⟨named, apart, directory, room, before, present⟩ := ready
  have seen : (fileSystem.put flags.keyFilePath (.file bytes)).stat = fileSystem.stat := by
    funext path
    unfold FileSystem.stat FileSystem.put
    by_cases same : path = flags.keyFilePath
    · subst same
      simp [present, Node.mode]
    · simp [same]
  have kept : (fileSystem.put flags.keyFilePath (.file bytes)).hasRoomFor flags.keyOrderDir
      = fileSystem.hasRoomFor flags.keyOrderDir := by
    have taken : ∀ path, ((fileSystem.put flags.keyFilePath (.file bytes)).entry path).isNone
        = (fileSystem.entry path).isNone := by
      intro path
      by_cases same : path = flags.keyFilePath
      · subst same
        simp [FileSystem.put, present]
      · simp [FileSystem.put, same]
    simp only [FileSystem.hasRoomFor, FileSystem.isDirectory, seen, taken]
  refine ⟨named, apart, ?_, ?_, bytes, by simp [FileSystem.put]⟩
  · rw [seen]
    exact directory
  · rw [seen, kept]
    exact room

theorem SaveReady.put_directory {fileSystem : FileSystem} (ready : SaveReady flags fileSystem) :
    SaveReady flags (fileSystem.put flags.keyOrderDir .directory) := by
  obtain ⟨named, apart, directory, room, bytes, present⟩ := ready
  have made : (fileSystem.put flags.keyOrderDir .directory).stat flags.keyOrderDir
      = Node.directory.mode := by
    simp [FileSystem.stat, FileSystem.put, named]
  refine ⟨named, apart, ?_, ?_, bytes, by simpa [FileSystem.put, apart.symm] using present⟩
  · intro mode found
    rw [made] at found
    cases found
    decide
  · intro missing
    rw [made] at missing
    cases missing

theorem SaveReady.write {fileSystem : FileSystem} (given : flags.keyFilePath ≠ "")
    (ready : SaveReady flags fileSystem) (tid : UInt32) (keys : List UInt64) :
    (writeKeys flags .cooperative fileSystem tid.toInt32 keys).fileSystem
      = fileSystem.put flags.keyFilePath (.file (encodeWords .little keys)) := by
  simp [writeKeys, getKeyOrderFilePath_given given, ready.opens, Host.cooperative]

theorem SaveReady.save {fileSystem : FileSystem} (given : flags.keyFilePath ≠ "")
    (ready : SaveReady flags fileSystem) (tid : UInt32) (keys : List UInt64) :
    (saveKeysToFile flags .cooperative fileSystem tid.toInt32 keys).fileSystem.content
        flags.keyFilePath = some (encodeWords .little keys) ∧
      SaveReady flags
        (saveKeysToFile flags .cooperative fileSystem tid.toInt32 keys).fileSystem := by
  unfold saveKeysToFile
  cases found : fileSystem.stat flags.keyOrderDir with
  | none =>
    dsimp only
    rw [if_pos ⟨ready.room found, rfl⟩, ready.put_directory.write given]
    exact ⟨FileSystem.content_put_file _ _ _, ready.put_directory.put_file _⟩
  | some mode =>
    dsimp only
    rw [if_neg (ready.directory mode found), ready.write given]
    exact ⟨FileSystem.content_put_file _ _ _, ready.put_file _⟩

/-- The file ends up with the keys of the last thread that generated. -/
theorem generatePass_last (given : flags.keyFilePath ≠ "") {entries : List (UInt32 × List UInt64)}
    {fileSystem : FileSystem} (ready : SaveReady flags fileSystem) {pass : SecondPass}
    (returns : generatePass library flags .cooperative fuel entries fileSystem = some pass)
    {tid : UInt32} (last : pass.generatedBy.getLast? = some tid) :
    pass.fileSystem.content flags.keyFilePath
      = some (encodeWords .little (generatedKeys library flags fuel tid)) := by
  induction entries generalizing fileSystem pass with
  | nil => cases returns; cases last
  | cons entry rest inductionHypothesis =>
    obtain ⟨current, keys⟩ := entry
    by_cases empty : keys = []
    · subst empty
      obtain ⟨generated, later, generates, continues, _, order, files, _⟩ :=
        generatePass_empty returns
      obtain ⟨saved, stillReady⟩ := ready.save given current generated.keys
      rw [order, List.getLast?_cons] at last
      rw [files]
      cases after : later.generatedBy.getLast? with
      | some next =>
        obtain rfl : next = tid := by simpa [after] using last
        exact inductionHypothesis stillReady continues after
      | none =>
        obtain rfl : current = tid := by simpa [after] using last
        have noneLater : later.generatedBy = [] := List.getLast?_eq_none_iff.mp after
        rw [generatePass_other continues, saved, generatedKeys_of_some generates]
        -- No later thread generates, so no later thread writes.
        intro other member otherEmpty
        rw [generatePass_generatedBy continues, List.map_eq_nil_iff, List.filter_eq_nil_iff]
          at noneLater
        exact absurd (by simpa using otherEmpty) (noneLater other member)
    · obtain ⟨later, continues, rfl⟩ := generatePass_kept empty returns
      have content := inductionHypothesis ready continues last
      exact content

theorem saveKeysToFile_stopped {fileSystem : FileSystem} (stopped : NoKeyOrderDir flags fileSystem)
    (tid : Int32) (keys : List UInt64) :
    (saveKeysToFile flags host fileSystem tid keys).fileSystem = fileSystem := by
  unfold saveKeysToFile
  rcases stopped with ⟨mode, found, other⟩ | ⟨missing, roomless⟩
  · simp [found, other]
  · simp [missing, roomless]

theorem generatePass_stopped {entries : List (UInt32 × List UInt64)} {fileSystem : FileSystem}
    (stopped : NoKeyOrderDir flags fileSystem) {pass : SecondPass}
    (returns : generatePass library flags host fuel entries fileSystem = some pass) :
    pass.fileSystem = fileSystem := by
  induction entries generalizing fileSystem pass with
  | nil => cases returns; rfl
  | cons entry rest inductionHypothesis =>
    obtain ⟨tid, keys⟩ := entry
    by_cases empty : keys = []
    · subst empty
      obtain ⟨generated, later, _, continues, _, _, files, _⟩ := generatePass_empty returns
      rw [saveKeysToFile_stopped stopped] at continues
      rw [files]
      exact inductionHypothesis stopped continues
    · obtain ⟨later, continues, rfl⟩ := generatePass_kept empty returns
      have unchanged := inductionHypothesis stopped continues
      exact unchanged

theorem rejected_of_size {fileSystem : FileSystem} {bytes : List UInt8}
    (given : flags.keyFilePath ≠ "")
    (content : fileSystem.content flags.keyFilePath = some bytes) {tid : UInt32}
    (size : bytes.length ≠ 8 * (expectedCount flags tid).toNat) :
    (loadThread flags host fileSystem tid).keys = [] := by
  cases accepted : (loadThread flags host fileSystem tid).ok with
  | false => exact loadThread_failed accepted
  | true =>
    obtain ⟨found, present, foundSize, _⟩ := loadThread_ok accepted
    rw [keyFile_given given, content] at present
    cases present
    exact absurd foundSize size

/-- A thread whose share is the size of the file, and that still loads nothing, has
    no share. -/
theorem share_zero_of_empty {fileSystem : FileSystem} {bytes : List UInt8}
    (given : flags.keyFilePath ≠ "")
    (content : fileSystem.content flags.keyFilePath = some bytes)
    (sound : host.reading flags.keyFilePath = .sound) {tid : UInt32}
    (size : bytes.length = 8 * (expectedCount flags tid).toNat)
    (empty : (loadThread flags host fileSystem tid).keys = []) :
    (expectedCount flags tid).toNat = 0 := by
  rw [← keyFile_given given tid] at content sound
  have keys := (loadThread_sound content sound size).2
  have count := congrArg List.length keys
  rw [empty, decodeWords_length, List.length_nil] at count
  exact count.symm

theorem keepsKeyFile_of_safe {fileSystem : FileSystem} {bytes : List UInt8}
    (given : flags.keyFilePath ≠ "")
    (content : fileSystem.content flags.keyFilePath = some bytes)
    (safe : KeyFileSafe flags fileSystem bytes) :
    KeepsKeyFile library flags fileSystem bytes := by
  intro host fuel plan sound returns
  obtain ⟨distribution, workers, ⟨_, _, _, _, files⟩ |
    ⟨_, ⟨rejected, member, fails⟩, _, pass, second, _, _, files⟩⟩ :=
      prepareShuffledKeys_cases returns
  · rw [files, content]
  · rcases safe with refused | ⟨even, size⟩ | stopped | ⟨uniform, largest, size⟩
    · rw [distribution] at refused; cases refused
    · -- Every thread expects exactly the keys of the file, so none is rejected.
      have count : (expectedCount flags rejected).toNat
          = flags.num.toNat / flags.workerThreads.toNat := by
        rw [expectedCount_toNat workers, even, ite_self, Nat.add_zero]
      have own : keyFile flags rejected = flags.keyFilePath := keyFile_given given _
      obtain ⟨accepted, _⟩ := loadThread_sound (own ▸ content) (own ▸ sound)
        (by rw [count]; exact size)
      rw [fails] at accepted; cases accepted
    · rw [files, generatePass_stopped stopped second, content]
    · -- The last thread is rejected and its range loop does not end.
      rw [← expectedCount_last workers] at size
      obtain ⟨generated, returned⟩ :=
        secondPass_generates second (last_mem workers) (rejected_of_size given content size)
      rw [generateThread_diverges library (last_mem workers) uniform
        ((lastShare_eq workers).trans largest)] at returned
      cases returned

/-- With every other way to lose the range excluded, generation ends. -/
theorem generateThread_unsafe {fileSystem : FileSystem} {bytes : List UInt8}
    (given : flags.keyFilePath ≠ "")
    (content : fileSystem.content flags.keyFilePath = some bytes)
    (someKeys : 1 ≤ flags.num.toNat) (workers : flags.workerThreads ≠ 0)
    (ends : flags.keyDistribution = "uniform" → flags.num.toNat = 2 ^ 64 - 1 →
      bytes.length = 8 * (expectedCount flags (flags.workerThreads - 1)).toNat)
    {tid : UInt32} (member : tid ∈ threadIds flags)
    (empty : (loadThread flags .cooperative fileSystem tid).keys = []) :
    ∃ generated, generateThread library flags (flags.num.toNat + 1) tid = some generated := by
  apply generateThread_total library member _ (Nat.lt_succ_self _)
  intro uniform
  have share := share_le member
  have bound := flags.num.toNat_lt
  by_cases largest : flags.num.toNat = 2 ^ 64 - 1
  · have notLast : tid ≠ flags.workerThreads - 1 := by
      rintro rfl
      have none := share_zero_of_empty given content rfl (ends uniform largest) empty
      have positive := lastCount_pos workers someKeys
      omega
    have before := share_lt workers someKeys member notLast
    omega
  · omega

/-- A second pass that generates and saves anything loses the file. -/
theorem secondPass_overwrites {fileSystem : FileSystem} {bytes : List UInt8}
    (given : flags.keyFilePath ≠ "")
    (content : fileSystem.content flags.keyFilePath = some bytes)
    (someKeys : 1 ≤ flags.num.toNat) (workers : flags.workerThreads ≠ 0)
    (ready : SaveReady flags fileSystem) {pass : SecondPass}
    (second : generatePass library flags .cooperative fuel
      (firstPass flags .cooperative fileSystem) fileSystem = some pass)
    {writer : UInt32} (member : writer ∈ pass.generatedBy) :
    pass.fileSystem.content flags.keyFilePath ≠ some bytes := by
  intro kept
  have writers := firstPass_generatedBy second
  obtain ⟨tid, lastWriter⟩ := Option.ne_none_iff_exists'.mp
    (fun none => List.ne_nil_of_mem member (List.getLast?_eq_none_iff.mp none))
  have listed := List.mem_of_getLast? lastWriter
  rw [writers, List.mem_filter, decide_eq_true_eq] at listed
  obtain ⟨known, empty⟩ := listed
  -- What the last writer wrote is as long as its share, so the file it kept is too.
  have written := generatePass_last given ready second lastWriter
  rw [kept, Option.some.injEq] at written
  have size : bytes.length = 8 * (expectedCount flags tid).toNat := by
    obtain ⟨generated, generates⟩ := secondPass_generates second known empty
    rw [written, encodeWords_length, generatedKeys_of_some generates,
      generateThread_length known generates]
  -- It would have been accepted, had its share held any key.
  have none := share_zero_of_empty given content rfl size empty
  have positive := lastCount_pos workers someKeys
  -- An empty file is refused to the last thread, which then is the last writer.
  have lastSize : bytes.length ≠ 8 * (expectedCount flags (flags.workerThreads - 1)).toNat := by
    omega
  have lastEmpty := @rejected_of_size _ .cooperative _ _ given content _ lastSize
  obtain ⟨earlier, threads⟩ := threadIds_eq_append workers
  rw [writers, threads, List.filter_append, List.filter_cons_of_pos (by simpa using lastEmpty),
    List.filter_nil, List.getLast?_concat, Option.some.injEq] at lastWriter
  rw [lastWriter] at positive
  omega

/-- The key file survives every call that returns exactly for the flags and
    files of `KeyFileSafe`. -/
theorem keepsKeyFile_iff (library : RandomLibrary) (flags : Flags) (fileSystem : FileSystem)
    (bytes : List UInt8) (given : flags.keyFilePath ≠ "")
    (content : fileSystem.content flags.keyFilePath = some bytes)
    (someKeys : 1 ≤ flags.num.toNat) (someWorkers : 1 ≤ flags.workerThreads.toNat) :
    KeepsKeyFile library flags fileSystem bytes ↔ KeyFileSafe flags fileSystem bytes := by
  refine ⟨?_, keepsKeyFile_of_safe given content⟩
  intro keeps
  by_contra exposed
  unfold KeyFileSafe at exposed
  push Not at exposed
  obtain ⟨distribution, uneven, directory, ends⟩ := exposed
  have workers : flags.workerThreads ≠ 0 := by
    intro none
    simp [none] at someWorkers
  have ready := saveReady_of_dir given content directory
  -- on a machine that lets every save through the call returns, and overwrites the file
  obtain ⟨plan, returns⟩ : ∃ plan, prepareShuffledKeys library flags .cooperative
      (flags.num.toNat + 1) fileSystem = some (.returned plan) :=
    prepareShuffledKeys_total (by simpa using distribution) workers
    (fun entry member empty => generateThread_unsafe given content someKeys workers
      (fun uniform largest => by rw [expectedCount_last workers]; exact ends uniform largest)
      (mem_firstPass member).1 ((mem_firstPass member).2 ▸ empty))
  have kept := keeps .cooperative _ plan rfl returns
  obtain ⟨_, _, ⟨_, loaded, _⟩ | ⟨_, ⟨rejected, member, fails⟩, _, pass, second, _, _, files⟩⟩ :=
    prepareShuffledKeys_cases returns
  · obtain ⟨even, count, aligned⟩ := allLoaded_counts given content workers loaded
    exact uneven even (by omega)
  · have some : rejected ∈ pass.generatedBy := by
      rw [firstPass_generatedBy second, List.mem_filter]
      exact ⟨member, by simpa using loadThread_failed fails⟩
    rw [files] at kept
    exact secondPass_overwrites given content someKeys workers ready second some kept

/-- A directory that holds a key file of two keys. -/
def twoKeyFileSystem : FileSystem :=
  (FileSystem.empty.put "/keys" .directory).put "/keys/input.bin" (.file (List.replicate 16 0))

def oneFileFlags (num : UInt64) : Flags :=
  { num := num, keyOrderDir := "/keys", keyFilePath := "/keys/input.bin" }

theorem twoKeyFileSystem_content (num : UInt64) :
    twoKeyFileSystem.content (oneFileFlags num).keyFilePath = some (List.replicate 16 0) :=
  FileSystem.content_put_file _ _ _

theorem keepsKeyFile_iff_two :
    KeepsKeyFile .still (oneFileFlags 2) twoKeyFileSystem (List.replicate 16 0) ∧
      ¬ KeepsKeyFile .still (oneFileFlags 1) twoKeyFileSystem (List.replicate 16 0) := by
  constructor
  · refine (keepsKeyFile_iff .still (oneFileFlags 2) _ _ (by decide)
      (twoKeyFileSystem_content 2) (by decide) (by decide)).mpr ?_
    exact .inr (.inl ⟨by decide, by decide⟩)
  · rw [keepsKeyFile_iff .still (oneFileFlags 1) _ _ (by decide)
      (twoKeyFileSystem_content 1) (by decide) (by decide)]
    rintro (refused | ⟨_, size⟩ | (⟨mode, found, other⟩ | ⟨missing, _⟩) | ⟨_, largest, _⟩)
    · revert refused; decide
    · revert size; decide
    · cases found
      revert other
      decide
    · cases missing
    · revert largest; decide

/-- One worker asked for one key replaces a file of two keys. -/
theorem keyFile_overwritten :
    ¬ ∀ (library : RandomLibrary) (flags : Flags) (fileSystem : FileSystem) (bytes : List UInt8),
      flags.keyFilePath ≠ "" → fileSystem.content flags.keyFilePath = some bytes →
      1 ≤ flags.num.toNat → 1 ≤ flags.workerThreads.toNat →
      KeepsKeyFile library flags fileSystem bytes := by
  intro keeps
  have kept := keeps .still (oneFileFlags 1) twoKeyFileSystem _ (by decide)
    (twoKeyFileSystem_content 1) (by decide) (by decide) .cooperative 3 _ rfl rfl
  have lengths := congrArg (Option.map List.length) kept
  revert lengths
  decide

end FdpRocks.Benchmark
