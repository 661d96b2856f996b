import FdpRocks.Benchmark.PrepareKeysSoundness
import FdpRocks.Benchmark.WriteLoopSoundness

/-! # The writes of a whole run

All workers over the vectors of `PrepareShuffledKeys`, in any interleaving
with each other and with whatever else the process prints.

* `prepareShuffledKeys_shares` — every vector has its worker's share of `num`.
* `progress_lines` — what the progress lines of the merged log say.
-/

namespace FdpRocks.Benchmark

open FdpRocks.Library.Transition

/-! ## Shares -/

/-- Every vector has as many keys as its worker is to write. -/
def Shares (flags : Flags) (keys : Fin flags.workerThreads.toNat → List UInt64) : Prop :=
  ∀ tid, (keys tid).length = (expectedCount flags (UInt32.ofNat tid)).toNat

variable {library : RandomLibrary} {flags : Flags} {host : Host} {fuel : ℕ}
  {fileSystem : FileSystem}

theorem loadThread_length {tid : UInt32} (ok : (loadThread flags host fileSystem tid).ok = true) :
    (loadThread flags host fileSystem tid).keys.length = (expectedCount flags tid).toNat := by
  obtain ⟨bytes, _, _, loaded⟩ := loadThread_ok ok
  rw [loaded, FdpRocks.Library.Words.decodeWords_length]

theorem prepareShuffledKeys_shares {plan : KeyPlan}
    (returns : prepareShuffledKeys library flags host fuel fileSystem = some (.returned plan)) :
    Shares flags fun tid => plan.shuffledKeys.getD tid [] := by
  obtain ⟨vector, vectors, lengths⟩ : ∃ vector : UInt32 → List UInt64,
      plan.shuffledKeys = (threadIds flags).map vector ∧
        ∀ tid ∈ threadIds flags, (vector tid).length = (expectedCount flags tid).toNat := by
    obtain ⟨_, _, ⟨_, loaded, vectors, _⟩ | ⟨_, _, vectors, pass, second, _⟩⟩ :=
      prepareShuffledKeys_cases returns
    · exact ⟨_, vectors, fun tid member => loadThread_length (loaded tid member)⟩
    · refine ⟨_, vectors, ?_⟩
      intro tid member
      -- a vector that stayed empty was generated, any other was loaded whole
      split
      next empty =>
        obtain ⟨generated, generates⟩ := secondPass_generates second member empty
        rw [generatedKeys_of_some generates]
        exact generateThread_length member generates
      next some =>
        apply loadThread_length
        by_contra failed
        exact some (loadThread_failed (Bool.not_eq_true _ ▸ failed))
  intro tid
  have member : UInt32.ofNat tid ∈ threadIds flags :=
    List.mem_map.mpr ⟨tid, List.mem_range.mpr tid.isLt, rfl⟩
  have here : plan.shuffledKeys.getD tid [] = vector (UInt32.ofNat tid) := by
    rw [vectors, threadIds, List.map_map, List.getD_eq_getElem?_getD, List.getElem?_map,
      List.getElem?_range tid.isLt]
    rfl
  dsimp only
  rw [here]
  exact lengths _ member

/-! ## Runs -/

/-- A run of all workers: the keys and the outside world of each, and the texts
    that the rest of the process prints. -/
structure WriteRun where
  flags : Flags
  baseKeys : UInt64
  keys : Fin flags.workerThreads.toNat → List UInt64
  outside : Fin flags.workerThreads.toNat → Outside
  others : List (List Char)
  workers : flags.workerThreads ≠ 0
  someKeys : flags.num ≠ 0
  someBatch : 0 < flags.batch.toNat
  shares : Shares flags keys

namespace WriteRun

variable (run : WriteRun)

abbrev Worker : Type := Fin run.flags.workerThreads.toNat

def trace (tid : run.Worker) : List Event :=
  ((doSimpleRandomWrite run.flags run.baseKeys tid (run.outside tid) (run.keys tid)).map
    Writer.trace).getD []

/-- The parties of a run are its workers and the rest of the process. -/
def traces : Option run.Worker → List Event
  | some tid => run.trace tid
  | none => run.others.map fun text => .print (.other text)

def system : System (Woven (Option run.Worker) Event) (Option run.Worker) := weaving run.traces

/-- Every write of the run returns OK. -/
def AllOk : Prop :=
  ∀ tid, (run.outside tid).AllOk (writeCalls run.flags (run.keys tid).length)

/-- The `completed_keys` of all progress lines, in the order of the log. -/
def progressLines (done : List (Option run.Worker × Event)) : List ℕ :=
  done.filterMap fun entry => entry.2.completedKeys

theorem trace_spec (tid : run.Worker) :
    WorkerTrace run.flags run.baseKeys (run.outside tid) (run.keys tid) (run.trace tid) := by
  obtain ⟨writer, returns, spec, _⟩ := doSimpleRandomWrite_total run.flags run.baseKeys tid
    (run.outside tid) run.someBatch (run.keys tid)
  rw [WriteRun.trace, returns]
  exact spec

end WriteRun

/-! ## Runs without a fault -/

def calmRun (workerThreads : UInt32) (num : UInt64) (workers : workerThreads ≠ 0)
    (someKeys : num ≠ 0) : WriteRun where
  flags := { workerThreads, num }
  baseKeys := 0
  keys tid := List.replicate (expectedCount { workerThreads, num } (UInt32.ofNat tid)).toNat 0
  outside _ := .calm
  others := []
  workers := workers
  someKeys := someKeys
  someBatch := by
    show 0 < (10000 : UInt32).toNat
    decide
  shares _ := List.length_replicate

theorem calmRun_allOk {workerThreads : UInt32} {num : UInt64} (workers : workerThreads ≠ 0)
    (someKeys : num ≠ 0) : (calmRun workerThreads num workers someKeys).AllOk :=
  fun _ _ _ => rfl

/-! ## Progress lines -/

section Counts

variable (flags : Flags)

theorem writeCounts_pairwise (positive : 0 < flags.batch.toNat) (count : ℕ) :
    (writeCounts flags count).Pairwise (· < ·) := by
  have split := Nat.div_add_mod count flags.batch.toNat
  unfold writeCounts
  rw [List.pairwise_append]
  refine ⟨?_, ?_, ?_⟩
  · rw [List.pairwise_map]
    apply List.pairwise_lt_range.imp
    intro call later before
    exact Nat.mul_lt_mul_of_pos_left (Nat.succ_lt_succ before) positive
  · split <;> simp
  · intro earlier member last lastMember
    obtain ⟨call, inRange, rfl⟩ := List.mem_map.mp member
    rw [List.mem_range] at inRange
    split at lastMember
    next => cases lastMember
    next rest =>
      rw [List.mem_singleton.mp lastMember]
      -- the last batch is not full, and ends behind all full ones
      have below : flags.batch.toNat * (call + 1)
          ≤ flags.batch.toNat * (count / flags.batch.toNat) :=
        Nat.mul_le_mul_left _ inRange
      omega

/-- A worker that has keys ends at the number of its keys. -/
theorem writeCounts_last {count : ℕ} (some : 0 < count) :
    ∃ earlier, writeCounts flags count = earlier ++ [count] := by
  unfold writeCounts
  split
  next even =>
    -- without a rest, the last full batch ends at the last key
    have whole : flags.batch.toNat * (count / flags.batch.toNat) = count :=
      Nat.mul_div_cancel' (Nat.dvd_of_mod_eq_zero even)
    obtain ⟨calls, same⟩ : ∃ calls, count / flags.batch.toNat = calls + 1 := by
      apply Nat.exists_eq_succ_of_ne_zero
      intro zero
      rw [zero, Nat.mul_zero] at whole
      omega
    rw [same] at whole ⊢
    refine ⟨(List.range calls).map fun call => flags.batch.toNat * (call + 1), ?_⟩
    rw [List.range_succ, List.map_append, List.append_nil, List.map_singleton, whole]
  next => exact ⟨_, rfl⟩

theorem due_last_iff {count : ℕ} (some : 0 < count) :
    (due (writeCounts flags count)).getLast? = .some count ↔ printInterval ∣ count := by
  constructor
  · intro last
    have member := List.mem_of_getLast? last
    have reached : IsDue count := of_decide_eq_true (List.mem_filter.mp member).2
    exact Nat.dvd_of_mod_eq_zero reached.1
  · intro divides
    have reached : IsDue count := ⟨Nat.mod_eq_zero_of_dvd divides, some⟩
    obtain ⟨earlier, split⟩ := writeCounts_last flags some
    rw [split, due_append]
    simp [due, reached]

end Counts

theorem totalKeys_eq {baseKeys : UInt64} {count total : ℕ} (within : count ≤ total)
    (small : baseKeys.toNat + total < 2 ^ 64) : totalKeys baseKeys count = baseKeys.toNat + count :=
  Nat.mod_eq_of_lt (by omega)

theorem le_of_mem_writeCounts {flags : Flags} {count value : ℕ}
    (member : value ∈ writeCounts flags count) : value ≤ count := by
  rcases List.mem_append.mp member with full | last
  · obtain ⟨call, inRange, rfl⟩ := List.mem_map.mp full
    exact (Nat.mul_le_mul_left _ (List.mem_range.mp inRange)).trans (Nat.mul_div_le _ _)
  · split at last
    next => cases last
    next => exact (List.mem_singleton.mp last).le

/-- Where nothing wraps, the reported values are the counts behind `base_keys`. -/
theorem dueKeys_eq {flags : Flags} {baseKeys : UInt64} {count : ℕ}
    (small : baseKeys.toNat + count < 2 ^ 64) :
    (due (writeCounts flags count)).map (totalKeys baseKeys)
      = (due (writeCounts flags count)).map (baseKeys.toNat + ·) := by
  apply List.map_congr_left
  intro value member
  exact totalKeys_eq (le_of_mem_writeCounts (List.mem_filter.mp member).1) small

namespace WriteRun

variable (run : WriteRun) {state : Woven (Option run.Worker) Event}

/-- The lines of one worker so far are the first of its own. -/
theorem worker_lines (ok : run.AllOk) (reachable : Reachable run.system state) (tid : run.Worker) :
    (actionsOf (some tid) state.done).filterMap Event.completedKeys
        ++ (state.pending (some tid)).filterMap Event.completedKeys
      = (due (writeCounts run.flags (run.keys tid).length)).map (totalKeys run.baseKeys) := by
  obtain ⟨_, _, _, progress⟩ := (run.trace_spec tid).sound (ok tid)
  rw [← List.filterMap_append, weaving_actionsOf reachable]
  exact progress

/-- A single worker emits all lines. -/
theorem single_lines (reachable : Reachable run.system state) (single : run.flags.workerThreads = 1)
    (tid : run.Worker) : run.progressLines state.done
      = (actionsOf (some tid) state.done).filterMap Event.completedKeys := by
  apply filterMap_actionsOf
  rintro ⟨party, event⟩ member other
  cases party with
  | some another =>
    have one : run.flags.workerThreads.toNat = 1 := by rw [single]; rfl
    have same : another = tid := by
      apply Fin.ext
      have left := another.isLt
      have right := tid.isLt
      omega
    exact absurd (congrArg some same) other
  | none =>
    obtain ⟨text, _, rfl⟩ := List.mem_map.mp (weaving_mem reachable member)
    rfl

theorem single_share (single : run.flags.workerThreads = 1) (tid : run.Worker) :
    (run.keys tid).length = run.flags.num.toNat := by
  have one : run.flags.workerThreads.toNat = 1 := by rw [single]; rfl
  have first : (tid : ℕ) = 0 := by
    have bound := tid.isLt
    omega
  rw [run.shares tid, expectedCount_toNat run.workers, first, one, Nat.div_one, Nat.mod_one]
  simp

/-- While all writes return OK, every worker's lines carry `base_keys` and its own
    count, wherever that reaches a multiple of the print interval.  The lines of a
    single worker rise, and end at `base_keys + num` when the interval divides `num`. -/
theorem progress_lines (ok : run.AllOk) (reachable : Reachable run.system state) :
    (∀ tid, (actionsOf (some tid) state.done).filterMap Event.completedKeys
        <+: (due (writeCounts run.flags (run.keys tid).length)).map (totalKeys run.baseKeys)) ∧
    (∀ tid, state.pending (some tid) = [] →
      (actionsOf (some tid) state.done).filterMap Event.completedKeys
        = (due (writeCounts run.flags (run.keys tid).length)).map (totalKeys run.baseKeys)) ∧
    (run.flags.workerThreads = 1 → run.baseKeys.toNat + run.flags.num.toNat < 2 ^ 64 →
      (run.progressLines state.done).Pairwise (· < ·) ∧
      ((∀ party, state.pending party = []) →
        ((run.progressLines state.done).getLast?
            = some (run.baseKeys.toNat + run.flags.num.toNat) ↔
          printInterval ∣ run.flags.num.toNat))) := by
  have lines := run.worker_lines ok reachable
  refine ⟨fun tid => ⟨_, lines tid⟩, ?_, ?_⟩
  · intro tid finished
    have all := lines tid
    rw [finished, List.filterMap_nil, List.append_nil] at all
    exact all
  · intro single small
    have one : run.flags.workerThreads.toNat = 1 := by rw [single]; rfl
    have all := lines ⟨0, by omega⟩
    rw [← run.single_lines reachable single, run.single_share single, dueKeys_eq small] at all
    -- the lines of the only worker are all lines
    constructor
    · have rises : ((due (writeCounts run.flags run.flags.num.toNat)).map
          (run.baseKeys.toNat + ·)).Pairwise (· < ·) := by
        rw [List.pairwise_map]
        apply ((writeCounts_pairwise run.flags run.someBatch _).filter _).imp
        exact fun less => Nat.add_lt_add_left less _
      exact rises.sublist (List.IsPrefix.sublist ⟨_, all⟩)
    · intro finished
      have someKeys : 0 < run.flags.num.toNat := by
        rw [Nat.pos_iff_ne_zero, ne_eq, ← UInt64.toNat_zero, UInt64.toNat_inj]
        exact run.someKeys
      rw [finished, List.filterMap_nil, List.append_nil] at all
      rw [all, ← due_last_iff run.flags someKeys, List.getLast?_map]
      constructor
      · intro last
        obtain ⟨count, here, same⟩ := Option.map_eq_some_iff.mp last
        rw [here, Nat.add_left_cancel same]
      · intro last
        rw [last]
        rfl

/-- The workers may also write one after the other. -/
theorem progressLines_inTurn (ok : run.AllOk) :
    ∃ state, Reachable run.system state ∧ (∀ party, state.pending party = []) ∧
      run.progressLines state.done
        = (List.finRange run.flags.workerThreads.toNat).flatMap fun tid : run.Worker =>
          (due (writeCounts run.flags (expectedCount run.flags (UInt32.ofNat tid)).toNat)).map
            (totalKeys run.baseKeys) := by
  have distinct : (none :: (List.finRange run.flags.workerThreads.toNat).map some).Nodup := by
    simp [List.nodup_finRange, List.Nodup.map (Option.some_injective _)]
  have reachable := weaving_inTurn run.traces distinct
  refine ⟨_, reachable, ?_, ?_⟩
  · intro party
    cases party <;> simp
  · -- the rest of the process shows no count
    have silent : (run.traces none).filterMap Event.completedKeys = [] := by
      simp [traces, Message.completedKeys]
    have own : ∀ party, ((run.traces party).map fun action => (party, action)).filterMap
        (fun entry => entry.2.completedKeys) = (run.traces party).filterMap Event.completedKeys := by
      intro party
      rw [List.filterMap_map]
      rfl
    rw [progressLines, List.filterMap_flatMap, List.flatMap_cons, own, silent, List.nil_append,
      List.flatMap_map]
    apply List.flatMap_congr
    intro tid _
    rw [own, ← run.shares tid]
    exact ((run.trace_spec tid).sound (ok tid)).2.2.2

/-- One worker and twenty thousand keys: the last line carries them all. -/
theorem progress_lines_single :
    ∃ state : Woven (Option (calmRun 1 20000 (by decide) (by decide)).Worker) Event,
      Reachable (calmRun 1 20000 (by decide) (by decide)).system state ∧
      ((calmRun 1 20000 (by decide) (by decide)).progressLines state.done).getLast?
        = some (0 + (20000 : UInt64).toNat) := by
  obtain ⟨state, reachable, finished, _⟩ :=
    progressLines_inTurn _ (@calmRun_allOk 1 20000 (by decide) (by decide))
  have lines := progress_lines _ (@calmRun_allOk 1 20000 (by decide) (by decide)) reachable
  exact ⟨state, reachable, ((lines.2.2 rfl (by decide)).2 finished).mpr (by decide)⟩

/-- Two workers count for themselves, and a total that the interval does not
    divide is never shown. -/
theorem progress_not_global :
    (¬ ∀ (run : WriteRun) (state : Woven (Option run.Worker) Event), run.AllOk →
        Reachable run.system state → (∀ party, state.pending party = []) →
        (run.progressLines state.done).Pairwise (· ≤ ·)) ∧
    (¬ ∀ (run : WriteRun) (state : Woven (Option run.Worker) Event), run.AllOk →
        Reachable run.system state → (∀ party, state.pending party = []) →
        (run.progressLines state.done).getLast?
          = some (run.baseKeys.toNat + run.flags.num.toNat)) := by
  constructor
  · intro nondecreasing
    obtain ⟨state, reachable, finished, lines⟩ :=
      progressLines_inTurn _ (@calmRun_allOk 2 40000 (by decide) (by decide))
    have sorted := nondecreasing _ state (calmRun_allOk _ _) reachable finished
    rw [lines] at sorted
    exact absurd sorted (by decide)
  · intro reached
    obtain ⟨state, reachable, finished, lines⟩ :=
      progressLines_inTurn _ (@calmRun_allOk 1 1 (by decide) (by decide))
    have last := reached _ state (calmRun_allOk _ _) reachable finished
    rw [lines] at last
    exact absurd last (by decide)

end WriteRun

end FdpRocks.Benchmark
