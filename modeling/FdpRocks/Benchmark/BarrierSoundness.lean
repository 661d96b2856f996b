import FdpRocks.Benchmark.Barrier

/-! # The start and finish barriers hold

`RunInvariant` ties the two counters, the start flag and the mutex to where every
thread stands, and says of each of the three waits that whoever is to end it
has not passed yet.  A step of a worker is one `WorkerMove`, possibly after a
`notify_all`; a step of the main thread is one `MainMove`.
-/

namespace FdpRocks.Benchmark

open FdpRocks.Library.Transition

/-! ## What a place says -/

namespace WorkerPlace

/-- Past `num_initialized++`. -/
def registered : WorkerPlace → Bool
  | .unspawned | .locking | .registering => false
  | _ => true

/-- Past the wait for `start`. -/
def passed : WorkerPlace → Bool
  | .unlocking | .startingStats | .inMethod | .stoppingStats | .lockingDone | .counting
  | .notifyingDone | .unlockingDone | .exiting | .exited => true
  | _ => false

/-- Past `stats.Stop ()`. -/
def stopped : WorkerPlace → Bool
  | .lockingDone | .counting | .notifyingDone | .unlockingDone | .exiting | .exited => true
  | _ => false

/-- Past `num_done++`. -/
def counted : WorkerPlace → Bool
  | .notifyingDone | .unlockingDone | .exiting | .exited => true
  | _ => false

def holds : WorkerPlace → Bool
  | .registering | .notifyingInitialized | .testingStart | .unlocking | .counting
  | .notifyingDone | .unlockingDone => true
  | _ => false

variable (place : WorkerPlace)

@[simp] theorem registered_wake : place.wake.registered = place.registered := by
  cases place <;> rfl

@[simp] theorem passed_wake : place.wake.passed = place.passed := by cases place <;> rfl

@[simp] theorem counted_wake : place.wake.counted = place.counted := by cases place <;> rfl

@[simp] theorem holds_wake : place.wake.holds = place.holds := by cases place <;> rfl

@[simp] theorem wake_ne_waiting : place.wake ≠ .waitingStart := by cases place <;> decide

@[simp] theorem wake_eq_unspawned : place.wake = .unspawned ↔ place = .unspawned := by
  cases place <;> decide

@[simp] theorem wake_eq_exited : place.wake = .exited ↔ place = .exited := by
  cases place <;> decide

end WorkerPlace

namespace MainPlace

def holds : MainPlace → Bool
  | .testingInitialized | .starting | .notifyingStart | .testingDone | .merging _ | .reporting
  | .joining _ | .unlocking => true
  | _ => false

/-- Threads `0` to `spawned - 1` exist. -/
def spawned (total : ℕ) : MainPlace → ℕ
  | .spawning next => next
  | _ => total

/-- Past `start = true`. -/
def opened : MainPlace → Bool
  | .notifyingStart | .testingDone | .waitingDone | .wokenDone | .merging _ | .reporting
  | .joining _ | .unlocking | .returned => true
  | _ => false

/-- Past the wait for `num_initialized`. -/
def sawInitialized : MainPlace → Bool
  | .starting => true
  | place => place.opened

/-- Past the wait for `num_done`. -/
def sawDone : MainPlace → Bool
  | .merging _ | .reporting | .joining _ | .unlocking | .returned => true
  | _ => false

/-- Threads `0` to `joined - 1` have been joined. -/
def joined (total : ℕ) : MainPlace → ℕ
  | .joining next => next
  | .unlocking | .returned => total
  | _ => 0

variable (place : MainPlace)

@[simp] theorem holds_wake : place.wake.holds = place.holds := by cases place <;> rfl

@[simp] theorem spawned_wake (total : ℕ) : place.wake.spawned total = place.spawned total := by
  cases place <;> rfl

@[simp] theorem opened_wake : place.wake.opened = place.opened := by cases place <;> rfl

@[simp] theorem sawInitialized_wake : place.wake.sawInitialized = place.sawInitialized := by
  cases place <;> rfl

@[simp] theorem sawDone_wake : place.wake.sawDone = place.sawDone := by cases place <;> rfl

@[simp] theorem joined_wake (total : ℕ) : place.wake.joined total = place.joined total := by
  cases place <;> rfl

@[simp] theorem wake_ne_waitingInitialized : place.wake ≠ .waitingInitialized := by
  cases place <;> simp [wake]

@[simp] theorem wake_ne_waitingDone : place.wake ≠ .waitingDone := by cases place <;> simp [wake]

end MainPlace

/-! ## The invariant -/

variable {total : ℕ}

structure RunInvariant (state : RunState total) : Prop where
  initialized : state.numInitialized = tally WorkerPlace.registered state.worker
  done : state.numDone = tally WorkerPlace.counted state.worker
  mainHolds : state.holder = some .main ↔ state.main.holds = true
  workerHolds : ∀ tid, state.holder = some (.worker tid) ↔ (state.worker tid).holds = true
  spawned : ∀ tid, state.worker tid = .unspawned ↔ state.main.spawned total ≤ tid.val
  opened : state.start = state.main.opened
  passed : ∀ tid, (state.worker tid).passed = true → state.start = true
  sawInitialized : state.main.sawInitialized = true → total ≤ state.numInitialized
  sawDone : state.main.sawDone = true → total ≤ state.numDone
  joined : ∀ tid, tid.val < state.main.joined total → state.worker tid = .exited
  /-- Nobody waits for a start that has been announced. -/
  startAwaited : ∀ tid, state.worker tid = .waitingStart →
    state.start = false ∨ state.main = .notifyingStart
  /-- While main waits for registrations, one is missing or about to be announced. -/
  initializedAwaited : state.main = .waitingInitialized →
    state.numInitialized < total ∨ ∃ tid, state.worker tid = .notifyingInitialized
  /-- The same for finished workers. -/
  doneAwaited : state.main = .waitingDone →
    state.numDone < total ∨ ∃ tid, state.worker tid = .notifyingDone

theorem invariant_initial : RunInvariant (initialRun total) where
  initialized := by simp [initialRun, tally, WorkerPlace.registered]
  done := by simp [initialRun, tally, WorkerPlace.counted]
  mainHolds := by simp [initialRun, MainPlace.holds]
  workerHolds := by simp [initialRun, WorkerPlace.holds]
  spawned := by simp [initialRun, MainPlace.spawned]
  opened := rfl
  passed := by simp [initialRun, WorkerPlace.passed]
  sawInitialized := by simp [initialRun, MainPlace.sawInitialized, MainPlace.opened]
  sawDone := by simp [initialRun, MainPlace.sawDone]
  joined := by simp [initialRun, MainPlace.joined]
  startAwaited := by simp [initialRun]
  initializedAwaited := by simp [initialRun]
  doneAwaited := by simp [initialRun]

theorem RunInvariant.notifyAll {state : RunState total} (inv : RunInvariant state) :
    RunInvariant state.notifyAll where
  initialized := by
    have same : ∀ tid, (state.notifyAll.worker tid).registered = (state.worker tid).registered := by
      simp [RunState.notifyAll]
    rw [tally_congr same]
    exact inv.initialized
  done := by
    have same : ∀ tid, (state.notifyAll.worker tid).counted = (state.worker tid).counted := by
      simp [RunState.notifyAll]
    rw [tally_congr same]
    exact inv.done
  mainHolds := by simpa [RunState.notifyAll] using inv.mainHolds
  workerHolds := by simpa [RunState.notifyAll] using inv.workerHolds
  spawned := by simpa [RunState.notifyAll] using inv.spawned
  opened := by simpa [RunState.notifyAll] using inv.opened
  passed := by simpa [RunState.notifyAll] using inv.passed
  sawInitialized := by simpa [RunState.notifyAll] using inv.sawInitialized
  sawDone := by simpa [RunState.notifyAll] using inv.sawDone
  joined := by simpa [RunState.notifyAll] using inv.joined
  startAwaited := by simp [RunState.notifyAll]
  initializedAwaited := by simp [RunState.notifyAll]
  doneAwaited := by simp [RunState.notifyAll]

-- From here on every place is known, and the tables above evaluate.
attribute [simp] WorkerPlace.registered WorkerPlace.passed WorkerPlace.counted WorkerPlace.holds
  MainPlace.holds MainPlace.spawned MainPlace.opened MainPlace.sawInitialized MainPlace.sawDone
  MainPlace.joined

/-! ## Steps of a worker -/

/-- Worker `tid` moves to `place`, and `next` differs from `state` in nothing
    that concerns another thread. -/
structure WorkerMove (state next : RunState total) (tid : Fin total) (place : WorkerPlace) :
    Prop where
  worker : next.worker = Function.update state.worker tid place
  main : next.main = state.main
  start : next.start = state.start
  mine : next.holder = some (.worker tid) ↔ place.holds = true
  others : ∀ party, .worker tid ≠ party → (next.holder = some party ↔ state.holder = some party)
  present : state.worker tid ≠ .unspawned ∧ place ≠ .unspawned
  running : state.worker tid ≠ .exited
  gate : place.passed = true → state.start = true
  waits : place = .waitingStart → state.start = false
  registers : next.numInitialized + (state.worker tid).registered.toNat
    = state.numInitialized + place.registered.toNat
  counts : next.numDone + (state.worker tid).counted.toNat
    = state.numDone + place.counted.toNat
  keepsRegistered : (state.worker tid).registered = true → place.registered = true
  keepsCounted : (state.worker tid).counted = true → place.counted = true
  announcesInitialized : state.main = .waitingInitialized → next.numInitialized < total ∨
    place = .notifyingInitialized ∨
      state.worker tid ≠ .notifyingInitialized ∧ next.numInitialized = state.numInitialized
  announcesDone : state.main = .waitingDone → next.numDone < total ∨
    place = .notifyingDone ∨
      state.worker tid ≠ .notifyingDone ∧ next.numDone = state.numDone

/-- Whoever is about to announce is somebody else, and has not moved. -/
theorem WorkerMove.announces {state next : RunState total} {tid : Fin total}
    {place announcing : WorkerPlace} (move : WorkerMove state next tid place)
    (silent : state.worker tid ≠ announcing) (before : ∃ other, state.worker other = announcing) :
    ∃ other, next.worker other = announcing := by
  obtain ⟨other, stands⟩ := before
  have different : other ≠ tid := by
    intro same
    subst same
    exact silent stands
  exact ⟨other, by rw [move.worker, Function.update_of_ne different, stands]⟩

theorem RunInvariant.workerMove {state next : RunState total} (inv : RunInvariant state)
    (tid : Fin total) (place : WorkerPlace) (move : WorkerMove state next tid place) :
    RunInvariant next := by
  have here : next.worker tid = place := by rw [move.worker, Function.update_self]
  have elsewhere : ∀ other, other ≠ tid → next.worker other = state.worker other := by
    intro other different
    rw [move.worker, Function.update_of_ne different]
  refine
    { initialized := ?_, done := ?_, mainHolds := ?_, workerHolds := ?_, spawned := ?_,
      opened := ?_, passed := ?_, sawInitialized := ?_, sawDone := ?_, joined := ?_,
      startAwaited := ?_, initializedAwaited := ?_, doneAwaited := ?_ }
  · have moved := tally_update WorkerPlace.registered state.worker tid place
    have := move.registers
    rw [move.worker]
    rw [← inv.initialized] at moved
    omega
  · have moved := tally_update WorkerPlace.counted state.worker tid place
    have := move.counts
    rw [move.worker]
    rw [← inv.done] at moved
    omega
  · rw [move.main, move.others .main (by simp)]
    exact inv.mainHolds
  · intro other
    by_cases same : other = tid
    · subst same
      rw [here]
      exact move.mine
    · rw [elsewhere other same, move.others _ (by simpa using Ne.symm same)]
      exact inv.workerHolds other
  · intro other
    rw [move.main]
    by_cases same : other = tid
    · subst same
      rw [here]
      have unmoved := inv.spawned other
      simp only [move.present.1, move.present.2, false_iff] at unmoved ⊢
      exact unmoved
    · rw [elsewhere other same]
      exact inv.spawned other
  · rw [move.main, move.start]
    exact inv.opened
  · intro other
    rw [move.start]
    by_cases same : other = tid
    · subst same
      rw [here]
      exact move.gate
    · rw [elsewhere other same]
      exact inv.passed other
  · rw [move.main]
    intro saw
    have enough := inv.sawInitialized saw
    have := move.registers
    have := Bool.toNat_le_toNat move.keepsRegistered
    omega
  · rw [move.main]
    intro saw
    have enough := inv.sawDone saw
    have := move.counts
    have := Bool.toNat_le_toNat move.keepsCounted
    omega
  · intro other before
    rw [move.main] at before
    have exited := inv.joined other before
    by_cases same : other = tid
    · subst same
      exact absurd exited move.running
    · rw [elsewhere other same]
      exact exited
  · intro other waiting
    rw [move.start, move.main]
    by_cases same : other = tid
    · subst same
      rw [here] at waiting
      exact .inl (move.waits waiting)
    · rw [elsewhere other same] at waiting
      exact inv.startAwaited other waiting
  · rw [move.main]
    intro waiting
    rcases move.announcesInitialized waiting with missing | announces | ⟨silent, unchanged⟩
    · exact .inl missing
    · exact .inr ⟨tid, by rw [here, announces]⟩
    · rw [unchanged]
      exact (inv.initializedAwaited waiting).imp_right (move.announces silent)
  · rw [move.main]
    intro waiting
    rcases move.announcesDone waiting with missing | announces | ⟨silent, unchanged⟩
    · exact .inl missing
    · exact .inr ⟨tid, by rw [here, announces]⟩
    · rw [unchanged]
      exact (inv.doneAwaited waiting).imp_right (move.announces silent)

/-- A step that takes the mutex: it was free, so no other thread holds it before or after. -/
theorem acquire_map_eq {state next : RunState total} {party : Party total}
    {move : RunState total → RunState total} (steps : (state.acquire party).map move = some next) :
    state.holder = none ∧ next = move { state with holder := some party } := by
  obtain ⟨locked, acquires, rfl⟩ := Option.map_eq_some_iff.mp steps
  simp only [RunState.acquire] at acquires
  split at acquires
  next free => exact ⟨free, congrArg move (Option.some.inj acquires).symm⟩
  · cases acquires

theorem workerStep_keeps {state next : RunState total} {tid : Fin total} {moment : Moment}
    (inv : RunInvariant state) (steps : workerStep state tid moment = some next) :
    RunInvariant next := by
  have held := inv.workerHolds tid
  have passed := inv.passed tid
  unfold workerStep at steps
  cases stands : state.worker tid with
  | unspawned => simp [stands] at steps
  | locking =>
    simp only [stands] at steps
    obtain ⟨free, rfl⟩ := acquire_map_eq steps
    refine inv.workerMove tid .registering ?_
    constructor <;> simp_all
  | registering =>
    simp only [stands, Option.some.injEq] at steps
    subst steps
    refine inv.workerMove tid .notifyingInitialized ?_
    constructor <;> simp_all
  | notifyingInitialized =>
    simp only [stands] at steps
    split at steps
    next all =>
      cases steps
      refine inv.notifyAll.workerMove tid .testingStart ?_
      constructor <;> simp_all [RunState.notifyAll, WorkerPlace.wake]
    next missing =>
      cases steps
      refine inv.workerMove tid .testingStart ?_
      constructor <;> simp_all
  | testingStart =>
    simp only [stands] at steps
    split at steps
    next started =>
      cases steps
      refine inv.workerMove tid .unlocking ?_
      constructor <;> simp_all
    next unstarted =>
      cases steps
      refine inv.workerMove tid .waitingStart ?_
      constructor <;> simp_all
  | waitingStart => simp [stands] at steps
  | wokenStart =>
    simp only [stands] at steps
    obtain ⟨free, rfl⟩ := acquire_map_eq steps
    refine inv.workerMove tid .testingStart ?_
    constructor <;> simp_all
  | unlocking =>
    simp only [stands, Option.some.injEq] at steps
    subst steps
    refine inv.workerMove tid .startingStats ?_
    constructor <;> simp_all
  | startingStats =>
    simp only [stands, Option.some.injEq] at steps
    subst steps
    refine inv.workerMove tid .inMethod ?_
    constructor <;> simp_all
  | inMethod =>
    simp only [stands, Option.some.injEq] at steps
    subst steps
    refine inv.workerMove tid .stoppingStats ?_
    constructor <;> simp_all
  | stoppingStats =>
    simp only [stands, Option.some.injEq] at steps
    subst steps
    refine inv.workerMove tid .lockingDone ?_
    constructor <;> simp_all
  | lockingDone =>
    simp only [stands] at steps
    obtain ⟨free, rfl⟩ := acquire_map_eq steps
    refine inv.workerMove tid .counting ?_
    constructor <;> simp_all
  | counting =>
    simp only [stands, Option.some.injEq] at steps
    subst steps
    refine inv.workerMove tid .notifyingDone ?_
    constructor <;> simp_all
  | notifyingDone =>
    simp only [stands] at steps
    split at steps
    next all =>
      cases steps
      refine inv.notifyAll.workerMove tid .unlockingDone ?_
      constructor <;> simp_all [RunState.notifyAll, WorkerPlace.wake]
    next missing =>
      cases steps
      refine inv.workerMove tid .unlockingDone ?_
      constructor <;> simp_all
  | unlockingDone =>
    simp only [stands, Option.some.injEq] at steps
    subst steps
    refine inv.workerMove tid .exiting ?_
    constructor <;> simp_all
  | exiting =>
    simp only [stands, Option.some.injEq] at steps
    subst steps
    refine inv.workerMove tid .exited ?_
    constructor <;> simp_all
  | exited => simp [stands] at steps

/-! ## Steps of the main thread -/

/-- The main thread moves to `place` and leaves the workers and both counters
    alone. -/
structure MainMove (state next : RunState total) (place : MainPlace) : Prop where
  main : next.main = place
  worker : next.worker = state.worker
  numInitialized : next.numInitialized = state.numInitialized
  numDone : next.numDone = state.numDone
  mine : next.holder = some .main ↔ place.holds = true
  others : ∀ tid, next.holder = some (.worker tid) ↔ state.holder = some (.worker tid)
  spawned : ∀ tid : Fin total, place.spawned total ≤ tid.val ↔ state.main.spawned total ≤ tid.val
  opened : next.start = place.opened
  keepsOpen : state.start = true → next.start = true
  sawInitialized : place.sawInitialized = true → total ≤ state.numInitialized
  sawDone : place.sawDone = true → total ≤ state.numDone
  joined : ∀ tid, tid.val < place.joined total → state.worker tid = .exited
  startAwaited : ∀ tid, state.worker tid = .waitingStart →
    next.start = false ∨ place = .notifyingStart
  initializedAwaited : place = .waitingInitialized → state.numInitialized < total
  doneAwaited : place = .waitingDone → state.numDone < total

theorem RunInvariant.mainMove {state next : RunState total} (inv : RunInvariant state)
    (place : MainPlace) (move : MainMove state next place) : RunInvariant next where
  initialized := by rw [move.numInitialized, move.worker]; exact inv.initialized
  done := by rw [move.numDone, move.worker]; exact inv.done
  mainHolds := by rw [move.main]; exact move.mine
  workerHolds tid := by rw [move.others, move.worker]; exact inv.workerHolds tid
  spawned tid := by rw [move.main, move.worker, move.spawned]; exact inv.spawned tid
  opened := by rw [move.main]; exact move.opened
  passed tid := by rw [move.worker]; exact fun beyond => move.keepsOpen (inv.passed tid beyond)
  sawInitialized := by rw [move.main, move.numInitialized]; exact move.sawInitialized
  sawDone := by rw [move.main, move.numDone]; exact move.sawDone
  joined := by rw [move.main, move.worker]; exact move.joined
  startAwaited := by rw [move.main, move.worker]; exact move.startAwaited
  initializedAwaited := by
    rw [move.main, move.numInitialized]
    exact fun waiting => .inl (move.initializedAwaited waiting)
  doneAwaited := by
    rw [move.main, move.numDone]
    exact fun waiting => .inl (move.doneAwaited waiting)

/-- A new thread is the only one of its number, and has not done anything. -/
theorem spawn_keeps {state next : RunState total} (inv : RunInvariant state) (tid : Fin total)
    (stands : state.main = .spawning tid.val)
    (worker : next.worker = Function.update state.worker tid .locking)
    (main : next.main = .spawning (tid.val + 1)) (holder : next.holder = state.holder)
    (start : next.start = state.start) (numInitialized : next.numInitialized = state.numInitialized)
    (numDone : next.numDone = state.numDone) : RunInvariant next := by
  have fresh : state.worker tid = .unspawned := by
    rw [inv.spawned tid, stands]
    exact le_refl tid.val
  have registered := tally_update WorkerPlace.registered state.worker tid .locking
  have counted := tally_update WorkerPlace.counted state.worker tid .locking
  rw [fresh] at registered counted
  refine
    { initialized := ?_, done := ?_, mainHolds := ?_, workerHolds := ?_, spawned := ?_,
      opened := ?_, passed := ?_, sawInitialized := ?_, sawDone := ?_, joined := ?_,
      startAwaited := ?_, initializedAwaited := ?_, doneAwaited := ?_ }
  · rw [numInitialized, worker, inv.initialized]
    exact registered.symm
  · rw [numDone, worker, inv.done]
    exact counted.symm
  · have free := inv.mainHolds
    rw [stands] at free
    rw [holder, main]
    exact free
  · intro other
    rw [holder, worker]
    have held := inv.workerHolds other
    by_cases same : other = tid
    · subst same
      rw [fresh] at held
      rw [Function.update_self]
      exact held
    · rw [Function.update_of_ne same]
      exact held
  · intro other
    rw [worker, main]
    have spawned := inv.spawned other
    rw [stands] at spawned
    simp only [MainPlace.spawned] at spawned ⊢
    by_cases same : other = tid
    · subst same
      simp
    · rw [Function.update_of_ne same, spawned]
      have different : other.val ≠ tid.val := fun equal => same (Fin.ext equal)
      omega
  · rw [start, main, inv.opened, stands]
    rfl
  · intro other
    rw [start, worker]
    by_cases same : other = tid
    · subst same
      simp
    · rw [Function.update_of_ne same]
      exact inv.passed other
  · rw [main]
    simp
  · rw [main]
    simp
  · rw [main]
    simp
  · intro other _
    have opened := inv.opened
    rw [stands] at opened
    exact .inl (start.trans opened)
  · rw [main]
    simp
  · rw [main]
    simp

theorem mainStep_keeps {name : List Char} {state next : RunState total} {moment : Moment}
    (inv : RunInvariant state) (steps : mainStep name state moment = some next) :
    RunInvariant next := by
  have held := inv.mainHolds
  have awaited := inv.startAwaited
  have opened := inv.opened
  have sawInitialized := inv.sawInitialized
  have sawDone := inv.sawDone
  have joined := inv.joined
  unfold mainStep at steps
  cases stands : state.main with
  | spawning index =>
    simp only [stands] at steps
    split at steps
    next more =>
      cases steps
      exact spawn_keeps inv ⟨index, more⟩ stands rfl rfl rfl rfl rfl rfl
    next full =>
      cases steps
      refine inv.mainMove .locking ?_
      constructor <;> simp_all
      intro tid
      have := tid.isLt
      omega
  | locking =>
    simp only [stands] at steps
    obtain ⟨free, rfl⟩ := acquire_map_eq steps
    refine inv.mainMove .testingInitialized ?_
    constructor <;> simp_all
  | testingInitialized =>
    simp only [stands] at steps
    split at steps
    next missing =>
      cases steps
      refine inv.mainMove .waitingInitialized ?_
      constructor <;> simp_all
    next all =>
      cases steps
      refine inv.mainMove .starting ?_
      constructor <;> simp_all
  | waitingInitialized => simp [stands] at steps
  | wokenInitialized =>
    simp only [stands] at steps
    obtain ⟨free, rfl⟩ := acquire_map_eq steps
    refine inv.mainMove .testingInitialized ?_
    constructor <;> simp_all
  | starting =>
    simp only [stands, Option.some.injEq] at steps
    subst steps
    refine inv.mainMove .notifyingStart ?_
    constructor <;> simp_all
  | notifyingStart =>
    simp only [stands, Option.some.injEq] at steps
    subst steps
    refine inv.notifyAll.mainMove .testingDone ?_
    constructor <;> simp_all [RunState.notifyAll, MainPlace.wake]
  | testingDone =>
    simp only [stands] at steps
    split at steps
    next missing =>
      cases steps
      refine inv.mainMove .waitingDone ?_
      constructor <;> simp_all
    next all =>
      cases steps
      refine inv.mainMove (.merging 1) ?_
      constructor <;> simp_all
  | waitingDone => simp [stands] at steps
  | wokenDone =>
    simp only [stands] at steps
    obtain ⟨free, rfl⟩ := acquire_map_eq steps
    refine inv.mainMove .testingDone ?_
    constructor <;> simp_all
  | merging index =>
    simp only [stands] at steps
    split at steps
    next more =>
      cases steps
      refine inv.mainMove (.merging (index + 1)) ?_
      constructor <;> simp_all
    next full =>
      cases steps
      refine inv.mainMove .reporting ?_
      constructor <;> simp_all
  | reporting =>
    simp only [stands, Option.some.injEq] at steps
    subst steps
    refine inv.mainMove (.joining 0) ?_
    constructor <;> simp_all
  | joining index =>
    simp only [stands] at steps
    split at steps
    next more =>
      split at steps
      next exited =>
        cases steps
        refine inv.mainMove (.joining (index + 1)) ?_
        constructor <;> simp_all
        intro tid upTo
        rcases Nat.lt_or_eq_of_le upTo with before | rfl
        · exact joined tid before
        · exact exited
      · cases steps
    next full =>
      cases steps
      refine inv.mainMove .unlocking ?_
      constructor <;> simp_all
      exact fun tid => joined tid (Nat.lt_of_lt_of_le tid.isLt full)
  | unlocking =>
    simp only [stands, Option.some.injEq] at steps
    subst steps
    refine inv.mainMove .returned ?_
    constructor <;> simp_all
  | returned => simp [stands] at steps

/-! ## Every reachable state -/

theorem spuriousStep_keeps {state next : RunState total} {party : Party total}
    (inv : RunInvariant state) (steps : spuriousStep state party = some next) :
    RunInvariant next := by
  cases party with
  | main =>
    have held := inv.mainHolds
    have opened := inv.opened
    have sawInitialized := inv.sawInitialized
    have awaited := inv.startAwaited
    simp only [spuriousStep] at steps
    split at steps
    · cases steps
    next woken =>
      cases steps
      refine inv.mainMove (state.main.wake) ?_
      cases stands : state.main <;> simp [stands, MainPlace.wake] at woken
      · constructor <;> simp_all [MainPlace.wake]
      · constructor <;> simp_all [MainPlace.wake]
  | worker tid =>
    have held := inv.workerHolds tid
    have passed := inv.passed tid
    simp only [spuriousStep] at steps
    split at steps
    · cases steps
    next woken =>
      cases steps
      refine inv.workerMove tid ((state.worker tid).wake) ?_
      cases stands : state.worker tid <;> simp [stands, WorkerPlace.wake] at woken
      constructor <;> simp_all [WorkerPlace.wake]

theorem runInvariant_of_reachable {name : List Char} {state : RunState total}
    (reachable : Reachable (benchmarkRun name total) state) : RunInvariant state := by
  apply reachable.invariant
  · intro initial starts
    rw [show initial = initialRun total from starts]
    exact invariant_initial
  · intro before action next inv steps
    cases action with
    | runs party moment =>
      cases party with
      | main => exact mainStep_keeps inv steps
      | worker tid => exact workerStep_keeps inv steps
    | wakesSpuriously party => exact spuriousStep_keeps inv steps

/-- A schedule that can be executed leads to a reachable state. -/
theorem reachable_of_schedule {name : List Char} {schedule : List (Action total)}
    {state next : RunState total} (reachable : Reachable (benchmarkRun name total) state)
    (runs : schedule.foldlM (runStep name) state = some next) :
    Reachable (benchmarkRun name total) next := by
  induction schedule generalizing state with
  | nil =>
    cases runs
    exact reachable
  | cons action schedule inductionHypothesis =>
    rw [List.foldlM_cons] at runs
    obtain ⟨middle, steps, continues⟩ := Option.bind_eq_some_iff.mp runs
    have later : Reachable (benchmarkRun name total) middle :=
      .step reachable (show (benchmarkRun name total).step state action middle from steps)
    exact inductionHypothesis later continues

/-! ## What the invariant gives -/

/-- A worker past the gate has everybody registered. -/
theorem RunInvariant.registered_of_passed {state : RunState total} (inv : RunInvariant state)
    {tid : Fin total} (passed : (state.worker tid).passed = true) (other : Fin total) :
    (state.worker other).registered = true := by
  have started := inv.passed tid passed
  have enough : total ≤ state.numInitialized := by
    apply inv.sawInitialized
    rw [inv.opened] at started
    cases stands : state.main <;> simp_all
  rw [inv.initialized] at enough
  exact tally_full enough other

theorem RunInvariant.counted_of_sawDone {state : RunState total} (inv : RunInvariant state)
    (saw : state.main.sawDone = true) (tid : Fin total) :
    (state.worker tid).counted = true := by
  have enough := inv.sawDone saw
  rw [inv.done] at enough
  exact tally_full enough tid

theorem stopped_of_counted {place : WorkerPlace} (counted : place.counted = true) :
    place.stopped = true := by
  cases place <;> first | rfl | cases counted

/-- While main holds the mutex and has seen everybody done, nobody needs it. -/
theorem RunInvariant.exiting_of_joining {state : RunState total} (inv : RunInvariant state)
    (saw : state.main.sawDone = true) (holds : state.main.holds = true) (tid : Fin total) :
    state.worker tid = .exiting ∨ state.worker tid = .exited := by
  have counted := inv.counted_of_sawDone saw tid
  have mine := inv.mainHolds.mpr holds
  have theirs := inv.workerHolds tid
  rw [mine] at theirs
  cases stands : state.worker tid <;> simp_all

/-! ## Progress -/

/-- A worker acts unless it waits, does not exist yet or any more, or needs a
    mutex that is taken. -/
theorem workerStep_enabled {state : RunState total} {tid : Fin total}
    (present : state.worker tid ≠ .unspawned) (running : state.worker tid ≠ .exited)
    (awake : state.worker tid ≠ .waitingStart)
    (free : state.holder = none ∨ (state.worker tid).holds = true) (moment : Moment) :
    ∃ next, workerStep state tid moment = some next := by
  unfold workerStep
  cases stands : state.worker tid <;> simp_all [RunState.acquire]
  -- What is left are the tests, and they go on either way.
  all_goals split <;> simp

/-- The main thread acts unless it waits, has returned, needs a mutex that is
    taken, or joins a thread that is still running. -/
theorem mainStep_enabled (name : List Char) {state : RunState total}
    (awake : state.main.wake = state.main) (unfinished : state.main ≠ .returned)
    (free : state.holder = none ∨ state.main.holds = true)
    (ready : ∀ index, state.main = .joining index → ∀ more : index < total,
      state.worker ⟨index, more⟩ = .exited) (moment : Moment) :
    ∃ next, mainStep name state moment = some next := by
  unfold mainStep
  cases stands : state.main <;> simp_all [RunState.acquire, MainPlace.wake]
  all_goals split <;> simp

theorem RunInvariant.spawned_of_opened {state : RunState total} (inv : RunInvariant state)
    (all : state.main.spawned total = total) (tid : Fin total) :
    state.worker tid ≠ .unspawned := by
  rw [ne_eq, inv.spawned tid, all]
  have := tid.isLt
  omega

/-- Whoever holds the mutex can go on, or is main joining a thread that can. -/
theorem RunInvariant.holder_progress {name : List Char} {state : RunState total}
    (inv : RunInvariant state) {party : Party total} (held : state.holder = some party)
    (moment : Moment) :
    ∃ actor next, runStep name state (.runs actor moment) = some next := by
  cases party with
  | worker tid =>
    have holds := (inv.workerHolds tid).mp held
    have present : state.worker tid ≠ .unspawned := by rintro same; simp [same] at holds
    have running : state.worker tid ≠ .exited := by rintro same; simp [same] at holds
    have awake : state.worker tid ≠ .waitingStart := by rintro same; simp [same] at holds
    obtain ⟨next, steps⟩ := workerStep_enabled present running awake (.inr holds) moment
    exact ⟨.worker tid, next, steps⟩
  | main =>
    have holds := inv.mainHolds.mp held
    have awake : state.main.wake = state.main := by
      cases stands : state.main <;> simp_all [MainPlace.wake]
    have unfinished : state.main ≠ .returned := by
      rintro same
      simp [same] at holds
    by_cases ready : ∀ index, state.main = .joining index → ∀ more : index < total,
        state.worker ⟨index, more⟩ = .exited
    · obtain ⟨next, steps⟩ := mainStep_enabled name awake unfinished (.inr holds)
        ready moment
      exact ⟨.main, next, steps⟩
    · push Not at ready
      obtain ⟨index, joining, more, running⟩ := ready
      have exiting := (inv.exiting_of_joining (by rw [joining]; rfl) holds ⟨index, more⟩).resolve_right
        running
      have steps : workerStep state ⟨index, more⟩ moment
          = some (state.moveWorker ⟨index, more⟩ .exited) := by
        simp only [workerStep, exiting]
      exact ⟨.worker ⟨index, more⟩, _, steps⟩

/-- With the mutex free, a wait of main's is for a worker that can go on. -/
theorem RunInvariant.free_progress {name : List Char} {state : RunState total}
    (inv : RunInvariant state) (free : state.holder = none) (unfinished : state.main ≠ .returned)
    (moment : Moment) :
    ∃ actor next, runStep name state (.runs actor moment) = some next := by
  have idle : ∀ tid, (state.worker tid).holds = false := by
    intro tid
    have held := inv.workerHolds tid
    rw [free] at held
    simpa using held
  by_cases awake : state.main.wake = state.main
  · have ready : ∀ index, state.main = .joining index → ∀ more : index < total,
        state.worker ⟨index, more⟩ = .exited := by
      intro index joining
      have held := inv.mainHolds
      simp [free, joining] at held
    obtain ⟨next, steps⟩ := mainStep_enabled name awake unfinished (.inl free) ready moment
    exact ⟨.main, next, steps⟩
  · cases stands : state.main <;> simp [stands, MainPlace.wake] at awake
    · -- Main waits for registrations: somebody has not registered.
      obtain ⟨tid, missing⟩ : ∃ tid, (state.worker tid).registered = false := by
        rcases inv.initializedAwaited stands with short | ⟨tid, announcing⟩
        · rw [inv.initialized] at short
          exact tally_short short
        · have := idle tid
          simp [announcing] at this
      have present := inv.spawned_of_opened (by rw [stands]; rfl) tid
      have noLock := idle tid
      have waits : state.worker tid = .locking := by
        cases place : state.worker tid <;> simp_all
      obtain ⟨next, steps⟩ := workerStep_enabled present (by simp [waits]) (by simp [waits])
        (.inl free) moment
      exact ⟨.worker tid, next, steps⟩
    · -- Main waits for finished workers: somebody has not finished, and the start
      -- has reached everybody who waited for it.
      obtain ⟨tid, missing⟩ : ∃ tid, (state.worker tid).counted = false := by
        rcases inv.doneAwaited stands with short | ⟨tid, announcing⟩
        · rw [inv.done] at short
          exact tally_short short
        · have := idle tid
          simp [announcing] at this
      have present := inv.spawned_of_opened (by rw [stands]; rfl) tid
      have started : state.start = true := by
        rw [inv.opened, stands]
        rfl
      have awakened : state.worker tid ≠ .waitingStart := by
        intro waiting
        rcases inv.startAwaited tid waiting with unstarted | notifying
        · rw [started] at unstarted
          cases unstarted
        · rw [stands] at notifying
          cases notifying
      have running : state.worker tid ≠ .exited := by
        rintro exited
        simp [exited] at missing
      obtain ⟨next, steps⟩ := workerStep_enabled present running awakened (.inl free) moment
      exact ⟨.worker tid, next, steps⟩

/-! ## The barriers -/

/-- In every reachable state: whoever runs the method sees everybody registered;
    main merges stats that have been stopped; something other than a spurious
    wake-up can happen until main has returned; and main joins, with the mutex
    in hand, only threads that have no more use for it. -/
theorem benchmarkRun_barriers (name : List Char) (total : ℕ) (state : RunState total)
    (reachable : Reachable (benchmarkRun name total) state) :
    (∀ tid, state.worker tid = .inMethod → ∀ other, (state.worker other).registered = true) ∧
      (∀ index, state.main = .merging index → ∀ tid, (state.worker tid).stopped = true) ∧
      (state.main ≠ .returned →
        ∀ moment, ∃ party next, runStep name state (.runs party moment) = some next) ∧
      (∀ index, state.main = .joining index → state.holder = some .main ∧
        ∀ tid, state.worker tid = .exiting ∨ state.worker tid = .exited) := by
  have inv := runInvariant_of_reachable reachable
  refine ⟨?_, ?_, ?_, ?_⟩
  · intro tid inside
    have passed : (state.worker tid).passed = true := by rw [inside]; rfl
    exact inv.registered_of_passed passed
  · intro index merging tid
    exact stopped_of_counted (inv.counted_of_sawDone (by rw [merging]; rfl) tid)
  · intro unfinished moment
    cases held : state.holder with
    | none => exact inv.free_progress held unfinished moment
    | some holder => exact inv.holder_progress held moment
  · intro index joining
    have holds : state.main.holds = true := by rw [joining]; rfl
    exact ⟨inv.mainHolds.mpr holds, inv.exiting_of_joining (by rw [joining]; rfl) holds⟩

/-- Two workers, from the start of the run until both are inside the method. -/
def pairSchedule : List (Action 2) :=
  let main : Action 2 := .runs .main ⟨0, 0⟩
  let worker (tid : Fin 2) : Action 2 := .runs (.worker tid) ⟨0, 0⟩
  -- both register and wait, main starts them and waits itself, both are woken
  List.replicate 3 main ++ List.replicate 4 (worker 0) ++ List.replicate 4 (worker 1)
    ++ List.replicate 5 main ++ List.replicate 4 (worker 0) ++ List.replicate 4 (worker 1)

theorem benchmarkRun_barriers_pair :
    ∃ state, pairSchedule.foldlM (runStep []) (initialRun 2) = some state ∧
      state.worker 0 = .inMethod ∧ (state.worker 1).registered = true ∧
      ∀ moment, ∃ party next, runStep [] state (.runs party moment) = some next := by
  have places : (pairSchedule.foldlM (runStep []) (initialRun 2)).map
      (fun state => (state.main, state.worker 0)) = some (.waitingDone, .inMethod) := by
    decide +kernel
  obtain ⟨state, run, place⟩ := Option.map_eq_some_iff.mp places
  obtain ⟨waiting, inside⟩ := Prod.mk.inj place
  have reachable := @reachable_of_schedule 2 [] pairSchedule _ _ (.start rfl) run
  obtain ⟨registered, _, progress, _⟩ := benchmarkRun_barriers [] 2 _ reachable
  refine ⟨state, run, inside, registered 0 inside 1, progress ?_⟩
  rw [waiting]
  decide

end FdpRocks.Benchmark
