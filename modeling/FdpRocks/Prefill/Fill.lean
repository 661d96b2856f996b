import FdpRocks.Library.Loop
import FdpRocks.Prefill.ParseSize
import Mathlib.Algebra.BigOperators.Intervals

/-! # `main` of the prefill tool

The tool creates a file and writes to it until it has the given size.  What the
calls answer is outside the tool.  Of its output only `stderr` is kept; the
progress and the wall-clock time on `stdout` are left out.

* `fillLoop_spec` — the loop ends full, or at the first write that fails.
* `allOrNothing_iff` — when no file is left behind by a failure.
-/

namespace FdpRocks.Prefill

open FdpRocks.Library.Loop FdpRocks.Library.Numerals

/-! ## The calls -/

/-- What the system answers to the tool. -/
structure System where
  /-- `open` creates the file, which must not exist. -/
  opens : Bool
  /-- `posix_memalign` returns zero. -/
  allocates : Bool
  /-- To each `write`: `none` is an error, and otherwise the bytes there is room for. -/
  answers : ℕ → Option ℕ
  /-- `fsync` returns zero. -/
  syncs : Bool
  /-- `std::strerror(errno)`. -/
  strerror : List Char

/-- The result of a `write`: the kernel never takes more than it is given. -/
def System.write (system : System) (call size : ℕ) : Option ℕ :=
  (system.answers call).map (min size)

structure Request where
  offset : ℕ
  size : ℕ

/-- What is left when `main` has returned. -/
structure Exit where
  status : ℕ
  stderr : List Char
  /-- This run has created the output file. -/
  created : Bool := false
  /-- The bytes of a file that this run has created and not unlinked. -/
  file : Option ℕ := none
  requests : List Request := []
  /-- `fsync` was called and succeeded. -/
  synced : Bool := false

/-! ## The loop -/

def bufferSize : ℕ := 4 * 1024 * 1024

/-- The variables of the loop, the length of the file, and the writes so far. -/
structure Filling where
  written : ℕ
  file : ℕ
  call : ℕ
  requests : List Request

inductive Left where
  | full (state : Filling)
  | writeFailed (state : Filling)

def writeTurn (system : System) (target : ℕ) (state : Filling) : Turn Filling Left :=
  if state.written < target then
    let size := min bufferSize (target - state.written)
    let asked := state.requests ++ [⟨state.written, size⟩]
    match system.write state.call size with
    | none | some 0 => .done (.writeFailed { state with requests := asked })
    | some result =>
      .again ⟨state.written + result, state.file + result, state.call + 1, asked⟩
  else
    .done (.full state)

def fillLoop (system : System) (target : ℕ) : Option Left :=
  run (writeTurn system target) (target + 1) ⟨0, 0, 0, []⟩

/-! ## The paths out of `main` -/

/-- What follows the loop; neither failure unlinks the file. -/
def afterLoop (system : System) : Left → Exit
  | .writeFailed state =>
    { status := 1
      stderr := "Write failed after ".toList ++ decimal state.written ++ " bytes: ".toList
        ++ system.strerror ++ ['\n']
      created := true, file := some state.file, requests := state.requests }
  | .full state =>
    if ¬ system.syncs then
      { status := 1, stderr := "\nfsync failed: ".toList ++ system.strerror ++ ['\n']
        created := true, file := some state.file, requests := state.requests }
    else
      { status := 0, stderr := [], created := true, file := some state.file
        requests := state.requests, synced := true }

/-- `main`, from the arguments with the program's name. -/
def fillMain (system : System) (argv : List (List Char)) : Option Exit :=
  match argv with
  | [_, size, output] =>
    let target := parseSize size
    if target = 0 ∨ target % 4096 ≠ 0 then
      some { status := 2, stderr := "SIZE must be a positive multiple of 4096 bytes.\n".toList }
    else if ¬ system.opens then
      some { status := 1
             stderr := "Cannot create ".toList ++ output ++ ": ".toList ++ system.strerror ++ ['\n'] }
    else if ¬ system.allocates then
      -- `close` and then `unlink`: the file is gone again.
      some { status := 1, stderr := "Aligned allocation failed.\n".toList, created := true }
    else
      (fillLoop system target.toNat).map (afterLoop system)
  | _ =>
    some { status := 2
           stderr := "Usage: ".toList ++ argv.headD [] ++ " SIZE OUTPUT_FILE\n".toList }

/-! ## What the loop does -/

namespace System

variable (system : System)

/-- The bytes there is room for at a call. -/
def room (call : ℕ) : ℕ := (system.answers call).getD 0

/-- What the first calls can take, each at most a buffer. -/
def taken (calls : ℕ) : ℕ := ∑ call ∈ Finset.range calls, min (system.room call) bufferSize

/-- No write fails before the calls have taken `target` bytes. -/
def CarriesThrough (target : ℕ) : Prop :=
  ∃ calls, (∀ call < calls, 0 < system.room call) ∧ target ≤ system.taken calls

@[simp] theorem taken_zero : system.taken 0 = 0 := rfl

theorem taken_succ (calls : ℕ) :
    system.taken (calls + 1) = system.taken calls + min (system.room calls) bufferSize :=
  Finset.sum_range_succ _ _

theorem taken_mono {calls more : ℕ} (earlier : calls ≤ more) :
    system.taken calls ≤ system.taken more :=
  Finset.sum_le_sum_of_subset (Finset.range_mono earlier)

end System

/-- Every write went through, and what they took is what the file holds. -/
structure Filling.Sound (system : System) (target : ℕ) (state : Filling) : Prop where
  written : state.written = min target (system.taken state.call)
  file : state.file = state.written
  through : ∀ call < state.call, 0 < system.room call
  within : ∀ request ∈ state.requests, request.offset + request.size ≤ target

/-- How the loop is left. -/
def Left.Sound (system : System) (target : ℕ) : Left → Prop
  | .full state => state.Sound system target ∧ state.written = target
  | .writeFailed state =>
    state.Sound system target ∧ state.written < target ∧ system.room state.call = 0

variable {system : System} {target : ℕ} {state : Filling}

theorem Filling.Sound.start : Filling.Sound system target ⟨0, 0, 0, []⟩ where
  written := by simp
  file := rfl
  through call early := absurd early (Nat.not_lt_zero call)
  within request member := absurd member List.not_mem_nil

theorem Filling.Sound.within_asked (sound : state.Sound system target)
    (short : state.written < target) :
    ∀ request ∈ state.requests ++ [⟨state.written, min bufferSize (target - state.written)⟩],
      request.offset + request.size ≤ target := by
  intro request member
  cases List.mem_append.mp member with
  | inl earlier => exact sound.within request earlier
  | inr last =>
    rw [List.mem_singleton.mp last]
    show state.written + min bufferSize (target - state.written) ≤ target
    omega

/-- The state after a write that took something. -/
theorem Filling.Sound.next (sound : state.Sound system target) (short : state.written < target)
    {result : ℕ} (positive : 0 < result)
    (took : result = min (min bufferSize (target - state.written)) (system.room state.call)) :
    Filling.Sound system target ⟨state.written + result, state.file + result, state.call + 1,
      state.requests ++ [⟨state.written, min bufferSize (target - state.written)⟩]⟩ where
  written := by
    -- What is written stays the smaller of the target and all that was taken.
    have before := sound.written
    show state.written + result = min target (system.taken (state.call + 1))
    rw [system.taken_succ]
    omega
  file := by
    show state.file + result = state.written + result
    rw [sound.file]
  through call early := by
    cases Nat.lt_succ_iff_lt_or_eq.mp early with
    | inl earlier => exact sound.through call earlier
    | inr same =>
      have room : 0 < system.room state.call := by omega
      exact same ▸ room
  within := sound.within_asked short

/-- One turn: full, a write that failed, or a write that took something. -/
theorem writeTurn_cases (sound : state.Sound system target) :
    (∃ result, writeTurn system target state = .done result ∧ result.Sound system target) ∨
      ∃ next, writeTurn system target state = .again next ∧ next.Sound system target ∧
        state.written < next.written ∧ next.written ≤ target := by
  unfold writeTurn System.write
  by_cases short : state.written < target
  · rw [if_pos short]
    have failed : system.room state.call = 0 → Left.Sound system target (.writeFailed
        { state with requests := state.requests
            ++ [⟨state.written, min bufferSize (target - state.written)⟩] }) :=
      fun zero => ⟨⟨sound.written, sound.file, sound.through, sound.within_asked short⟩, short, zero⟩
    -- `result <= 0` is an error or a write that took nothing.
    cases answer : system.answers state.call with
    | none => exact Or.inl ⟨_, rfl, failed (by simp [System.room, answer])⟩
    | some room =>
      have here : system.room state.call = room := by simp [System.room, answer]
      cases result : min (min bufferSize (target - state.written)) room with
      | zero =>
        have noRoom : room = 0 := by
          have buffer : 0 < bufferSize := by decide
          omega
        refine Or.inl ⟨_, ?_, failed (here.trans noRoom)⟩
        simp [result]
      | succ more =>
        have next := sound.next short (Nat.succ_pos more) (by rw [here, result])
        refine Or.inr ⟨_, by simp [result], next, ?_, ?_⟩
        · show state.written < state.written + (more + 1)
          omega
        · show state.written + (more + 1) ≤ target
          omega
  · have below : state.written ≤ target := sound.written ▸ min_le_left _ _
    rw [if_neg short]
    exact Or.inl ⟨_, rfl, sound, by omega⟩

theorem fillLoop_spec (system : System) (target : ℕ) :
    ∃ result, fillLoop system target = some result ∧ result.Sound system target := by
  apply run_total (writeTurn system target) (Filling.Sound system target)
    (fun state => target - state.written) (Left.Sound system target)
  case keeps =>
    intro state next sound turn
    cases writeTurn_cases sound with
    | inl leaves =>
      obtain ⟨result, done, _⟩ := leaves
      rw [done] at turn
      cases turn
    | inr goesOn =>
      obtain ⟨other, again, nextSound, more, below⟩ := goesOn
      rw [again] at turn
      cases turn
      exact ⟨nextSound, by omega⟩
  case leaves =>
    intro state result sound turn
    cases writeTurn_cases sound with
    | inl leaves =>
      obtain ⟨other, done, resultSound⟩ := leaves
      rw [done] at turn
      cases turn
      exact resultSound
    | inr goesOn =>
      obtain ⟨next, again, _⟩ := goesOn
      rw [again] at turn
      cases turn
  case holds => exact .start
  case enough => exact Nat.lt_succ_of_le (Nat.sub_le _ _)

/-- Writes carry the file to its target exactly when the loop ends full. -/
theorem carriesThrough_iff {result : Left} (sound : result.Sound system target) :
    system.CarriesThrough target ↔ ∃ state, result = .full state := by
  cases result with
  | full state =>
    obtain ⟨reached, full⟩ := sound
    have enough : target ≤ system.taken state.call := by
      have written := reached.written
      omega
    exact ⟨fun _ => ⟨state, rfl⟩, fun _ => ⟨state.call, reached.through, enough⟩⟩
  | writeFailed state =>
    obtain ⟨reached, short, noRoom⟩ := sound
    refine ⟨fun carries => ?_, fun full => ?_⟩
    · obtain ⟨calls, positive, enough⟩ := carries
      -- The write that failed bounds the calls that can be counted on.
      have early : calls ≤ state.call := by
        by_contra late
        exact (positive state.call (by omega)).ne' noRoom
      have most := system.taken_mono early
      have written := reached.written
      omega
    · obtain ⟨_, full⟩ := full
      cases full

/-! ## All or nothing -/

/-- What a run must leave behind. -/
structure Exit.Complete (target : ℕ) (exit : Exit) : Prop where
  within : ∀ request ∈ exit.requests, request.offset + request.size ≤ target
  succeeds : exit.status = 0 ↔ exit.file = some target ∧ exit.synced = true
  removed : exit.status ≠ 0 → exit.created = true → exit.file = none

def AllOrNothing (system : System) (program size output : List Char) : Prop :=
  ∃ exit, fillMain system [program, size, output] = some exit ∧
    exit.Complete (parseSize size).toNat

/-- The run stops before it writes, or goes through to the end. -/
def Undisturbed (system : System) (target : ℕ) : Prop :=
  system.opens = false ∨ system.allocates = false ∨
    system.CarriesThrough target ∧ system.syncs = true

/-- Nothing is asked of a file that is not there, and the run says that it failed. -/
theorem complete_early {exit : Exit} (failed : exit.status ≠ 0) (gone : exit.file = none)
    (nothing : exit.requests = []) : exit.Complete target where
  within request member := by simp [nothing] at member
  succeeds := by simp [failed, gone]
  removed _ _ := gone

/-- After the loop only a full file that was synchronised is complete. -/
theorem complete_afterLoop {result : Left} (sound : result.Sound system target) :
    (afterLoop system result).Complete target ↔
      (∃ state, result = .full state) ∧ system.syncs = true := by
  cases result with
  | writeFailed state =>
    constructor
    · intro complete
      -- The file is there when the write fails, whatever it holds.
      have removed := complete.removed (by simp [afterLoop]) rfl
      cases removed
    · intro full
      obtain ⟨⟨_, full⟩, _⟩ := full
      cases full
  | full state =>
    obtain ⟨reached, full⟩ := sound
    cases syncs : system.syncs with
    | false =>
      have left : (afterLoop system (.full state)).file = some state.file := by
        simp [afterLoop, syncs]
      constructor
      · intro complete
        have removed := complete.removed (by simp [afterLoop, syncs]) (by simp [afterLoop, syncs])
        rw [left] at removed
        cases removed
      · intro synced
        cases synced.2
    | true =>
      have holds : state.file = target := reached.file.trans full
      refine ⟨fun _ => ⟨⟨state, rfl⟩, rfl⟩, fun _ => ⟨?_, ?_, ?_⟩⟩
      · simpa [afterLoop, syncs] using reached.within
      · simp [afterLoop, syncs, holds]
      · simp [afterLoop, syncs]

theorem not_allOrNothing {program size output : List Char} {length : ℕ}
    (leaves : (fillMain system [program, size, output]).map
      (fun exit => (exit.status, exit.created, exit.file)) = some (1, true, some length)) :
    ¬ AllOrNothing system program size output := by
  intro complete
  obtain ⟨exit, returns, complete⟩ := complete
  rw [returns, Option.map_some, Option.some.injEq, Prod.mk.injEq, Prod.mk.injEq] at leaves
  obtain ⟨status, created, file⟩ := leaves
  have removed := complete.removed (by simp [status]) created
  rw [file] at removed
  cases removed

/-- A file is left behind by exactly the runs in which a write fails before the target
    is reached, or `fsync` does after it. -/
theorem allOrNothing_iff (system : System) (program size output : List Char)
    (positive : parseSize size ≠ 0) (aligned : parseSize size % 4096 = 0) :
    AllOrNothing system program size output ↔ Undisturbed system (parseSize size).toNat := by
  have accepted : ¬ (parseSize size = 0 ∨ parseSize size % 4096 ≠ 0) := by
    simp [positive, aligned]
  unfold AllOrNothing fillMain Undisturbed
  dsimp only
  rw [if_neg accepted]
  cases opens : system.opens with
  | false =>
    simp only [Bool.false_eq_true, not_false_eq_true, if_true, true_or, iff_true]
    exact ⟨_, rfl, complete_early (by simp) rfl rfl⟩
  | true =>
    cases allocates : system.allocates with
    | false =>
      simp only [Bool.false_eq_true, not_false_eq_true, not_true, if_true, if_false, true_or,
        or_true, iff_true]
      exact ⟨_, rfl, complete_early (by simp) rfl rfl⟩
    | true =>
      obtain ⟨result, returns, sound⟩ := fillLoop_spec system (parseSize size).toNat
      have complete := complete_afterLoop sound
      have carries := carriesThrough_iff sound
      simp [returns, complete, carries]

/-- Writes of 512 bytes reach a target of 4096. -/
theorem allOrNothing_full :
    (parseSize "4096".toList ≠ 0 ∧ parseSize "4096".toList % 4096 = 0) ∧
      AllOrNothing ⟨true, true, fun _ => some 512, true, []⟩ "fill".toList "4096".toList
        "fdp_prefill.bin".toList :=
  ⟨by decide, (allOrNothing_iff ⟨true, true, fun _ => some 512, true, []⟩ "fill".toList
    "4096".toList "fdp_prefill.bin".toList (by decide) (by decide)).mpr
      (Or.inr (Or.inr ⟨⟨8, by decide, by decide⟩, rfl⟩))⟩

/-- A system whose writes all fail. -/
def diskFull : System := ⟨true, true, fun _ => none, true, "No space left on device".toList⟩

/-- A system that fails to synchronise. -/
def syncFails : System := ⟨true, true, fun _ => some bufferSize, false, "Input/output error".toList⟩

/-- Either run fails and leaves its file, over which `prefill.sh` then refuses to run. -/
theorem fill_leaves_file :
    (fillMain diskFull ["fill".toList, "4096".toList, "fdp_prefill.bin".toList]).map
        (fun exit => (exit.status, exit.created, exit.file)) = some (1, true, some 0) ∧
      (fillMain syncFails ["fill".toList, "4096".toList, "fdp_prefill.bin".toList]).map
        (fun exit => (exit.status, exit.created, exit.file)) = some (1, true, some 4096) ∧
      ¬ AllOrNothing diskFull "fill".toList "4096".toList "fdp_prefill.bin".toList ∧
      ¬ AllOrNothing syncFails "fill".toList "4096".toList "fdp_prefill.bin".toList := by
  have full : (fillMain diskFull ["fill".toList, "4096".toList, "fdp_prefill.bin".toList]).map
      (fun exit => (exit.status, exit.created, exit.file)) = some (1, true, some 0) := by decide
  have sync : (fillMain syncFails ["fill".toList, "4096".toList, "fdp_prefill.bin".toList]).map
      (fun exit => (exit.status, exit.created, exit.file)) = some (1, true, some 4096) := by decide
  exact ⟨full, sync, not_allOrNothing full, not_allOrNothing sync⟩

end FdpRocks.Prefill
