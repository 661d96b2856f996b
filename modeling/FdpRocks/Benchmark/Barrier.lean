import FdpRocks.Benchmark.Stats
import FdpRocks.Library.Transition

/-! # `RunBenchmark` and `ThreadBody`

The main thread and its workers as a step relation.  Every step is one action
of one thread: taking or releasing the mutex, reading or writing a shared
field under it, going to wait on the one condition variable, a `notify_all`,
or a spurious wake-up.  A woken thread still has to take the mutex back before
it looks at its condition again.
-/

namespace FdpRocks.Benchmark

open FdpRocks.Library.Transition

/-! ## Threads -/

/-- Where the main thread stands in `RunBenchmark`. -/
inductive MainPlace where
  /-- Starting thread `next`, or done with the loop. -/
  | spawning (next : ℕ)
  | locking
  | testingInitialized
  | waitingInitialized
  | wokenInitialized
  | starting
  | notifyingStart
  | testingDone
  | waitingDone
  | wokenDone
  /-- Merging the stats of worker `next` into worker 0's. -/
  | merging (next : ℕ)
  | reporting
  | joining (next : ℕ)
  | unlocking
  | returned
deriving DecidableEq

/-- Where a worker stands in `ThreadBody`. -/
inductive WorkerPlace where
  | unspawned
  | locking
  | registering
  | notifyingInitialized
  | testingStart
  | waitingStart
  | wokenStart
  | unlocking
  | startingStats
  | inMethod
  | stoppingStats
  | lockingDone
  | counting
  | notifyingDone
  | unlockingDone
  | exiting
  | exited
deriving DecidableEq

inductive Party (total : ℕ) where
  | main
  | worker (tid : Fin total)
deriving DecidableEq

/-- `SharedState`, the mutex, and the private state of every thread. -/
structure RunState (total : ℕ) where
  holder : Option (Party total)
  numInitialized : ℕ
  numDone : ℕ
  start : Bool
  main : MainPlace
  worker : Fin total → WorkerPlace
  stats : Fin total → Stats
  stdout : List (List Char)

/-- What a step takes from outside: the clock, and the operations that the
    benchmark method counted. -/
structure Moment where
  now : ℚ
  done : ℕ

namespace RunState

variable {total : ℕ}

@[simp] def moveMain (state : RunState total) (place : MainPlace) : RunState total :=
  { state with main := place }

@[simp] def moveWorker (state : RunState total) (tid : Fin total) (place : WorkerPlace) : RunState total :=
  { state with worker := Function.update state.worker tid place }

@[simp] def setStats (state : RunState total) (tid : Fin total) (stats : Stats) : RunState total :=
  { state with stats := Function.update state.stats tid stats }

/-- Takes the mutex if it is free. -/
def acquire (state : RunState total) (party : Party total) : Option (RunState total) :=
  if state.holder = none then some { state with holder := some party } else none

@[simp] def release (state : RunState total) : RunState total := { state with holder := none }

end RunState

/-! ## `notify_all` -/

def MainPlace.wake : MainPlace → MainPlace
  | .waitingInitialized => .wokenInitialized
  | .waitingDone => .wokenDone
  | place => place

def WorkerPlace.wake : WorkerPlace → WorkerPlace
  | .waitingStart => .wokenStart
  | place => place

/-- Every thread waiting on the condition variable, whatever it waits for. -/
def RunState.notifyAll {total : ℕ} (state : RunState total) : RunState total :=
  { state with main := state.main.wake, worker := fun tid => (state.worker tid).wake }

/-! ## Steps -/

variable {total : ℕ}

/-- `arg[0].thread->stats`; there is no such worker when there are no threads. -/
def RunState.firstStats (state : RunState total) : Stats :=
  if some : 0 < total then state.stats ⟨0, some⟩ else .begin 0

/-- The next action of the main thread, `none` while it cannot act. -/
def mainStep (name : List Char) (state : RunState total) (moment : Moment) :
    Option (RunState total) :=
  match state.main with
  | .spawning next =>
    if more : next < total then
      -- `new ThreadState (i)` reads the clock; the new thread runs from here on.
      some (((state.setStats ⟨next, more⟩ (.begin moment.now)).moveWorker ⟨next, more⟩
        .locking).moveMain (.spawning (next + 1)))
    else some (state.moveMain .locking)
  | .locking | .wokenInitialized =>
    (state.acquire .main).map (·.moveMain .testingInitialized)
  | .testingInitialized =>
    if state.numInitialized < total then some (state.release.moveMain .waitingInitialized)
    else some (state.moveMain .starting)
  | .waitingInitialized => none
  | .starting => some ({ state with start := true }.moveMain .notifyingStart)
  | .notifyingStart => some (state.notifyAll.moveMain .testingDone)
  | .testingDone =>
    if state.numDone < total then some (state.release.moveMain .waitingDone)
    else some (state.moveMain (.merging 1))
  | .waitingDone => none
  | .wokenDone => (state.acquire .main).map (·.moveMain .testingDone)
  | .merging next =>
    if more : next < total then
      some ((state.setStats ⟨0, Nat.zero_lt_of_lt more⟩
        (state.firstStats.merge (state.stats ⟨next, more⟩))).moveMain (.merging (next + 1)))
    else some (state.moveMain .reporting)
  | .reporting =>
    some ({ state with stdout := state.stdout ++ [state.firstStats.report name] }.moveMain
      (.joining 0))
  | .joining next =>
    if more : next < total then
      -- `join` returns once the thread has exited.
      if state.worker ⟨next, more⟩ = .exited then some (state.moveMain (.joining (next + 1)))
      else none
    else some (state.moveMain .unlocking)
  | .unlocking => some (state.release.moveMain .returned)
  | .returned => none

/-- The next action of worker `tid`. -/
def workerStep (state : RunState total) (tid : Fin total) (moment : Moment) :
    Option (RunState total) :=
  match state.worker tid with
  | .unspawned => none
  | .locking => (state.acquire (.worker tid)).map (·.moveWorker tid .registering)
  | .registering =>
    some ({ state with numInitialized := state.numInitialized + 1 }.moveWorker tid
      .notifyingInitialized)
  | .notifyingInitialized =>
    if state.numInitialized ≥ total then some (state.notifyAll.moveWorker tid .testingStart)
    else some (state.moveWorker tid .testingStart)
  | .testingStart =>
    if state.start then some (state.moveWorker tid .unlocking)
    else some (state.release.moveWorker tid .waitingStart)
  | .waitingStart => none
  | .wokenStart => (state.acquire (.worker tid)).map (·.moveWorker tid .testingStart)
  | .unlocking => some (state.release.moveWorker tid .startingStats)
  | .startingStats => some ((state.setStats tid (.begin moment.now)).moveWorker tid .inMethod)
  | .inMethod =>
    -- The method restarts the clock and counts its operations.
    some ((state.setStats tid { Stats.begin moment.now with done := moment.done }).moveWorker tid
      .stoppingStats)
  | .stoppingStats =>
    some ((state.setStats tid ((state.stats tid).stop moment.now)).moveWorker tid .lockingDone)
  | .lockingDone => (state.acquire (.worker tid)).map (·.moveWorker tid .counting)
  | .counting => some ({ state with numDone := state.numDone + 1 }.moveWorker tid .notifyingDone)
  | .notifyingDone =>
    if state.numDone ≥ total then some (state.notifyAll.moveWorker tid .unlockingDone)
    else some (state.moveWorker tid .unlockingDone)
  | .unlockingDone => some (state.release.moveWorker tid .exiting)
  | .exiting => some (state.moveWorker tid .exited)
  | .exited => none

/-- A wake-up that nobody caused. -/
def spuriousStep (state : RunState total) : Party total → Option (RunState total)
  | .main =>
    if state.main.wake = state.main then none else some (state.moveMain state.main.wake)
  | .worker tid =>
    if (state.worker tid).wake = state.worker tid then none
    else some (state.moveWorker tid (state.worker tid).wake)

/-- Who acts, and whether out of turn. -/
inductive Action (total : ℕ) where
  | runs (party : Party total) (moment : Moment)
  | wakesSpuriously (party : Party total)

def runStep (name : List Char) (state : RunState total) : Action total → Option (RunState total)
  | .runs .main moment => mainStep name state moment
  | .runs (.worker tid) moment => workerStep state tid moment
  | .wakesSpuriously party => spuriousStep state party

/-- `SharedState shared (thread_num)` at the top of `RunBenchmark`. -/
def initialRun (total : ℕ) : RunState total where
  holder := none
  numInitialized := 0
  numDone := 0
  start := false
  main := .spawning 0
  worker _ := .unspawned
  stats _ := .begin 0
  stdout := []

/-- All runs of `RunBenchmark (total, name, …)`. -/
def benchmarkRun (name : List Char) (total : ℕ) : System (RunState total) (Action total) where
  start state := state = initialRun total
  step state action next := runStep name state action = some next

end FdpRocks.Benchmark
