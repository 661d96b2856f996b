/-! # Loops with explicit fuel

A loop body either hands over the state of the next turn or leaves the loop
with a result.  `run` iterates a body for at most `fuel` turns; `none` means
that the loop was still going when the fuel ran out.

* `run_mono` — more fuel never changes a result.
* `run_total` — total correctness from an invariant and a variant.
* `run_invariant` — what a loop that returns has kept.
* `run_endless` — a loop whose turns always go on.
* `run_counted` — a loop with a known number of turns.
-/

namespace FdpRocks.Library.Loop

/-- The outcome of one turn of a loop. -/
inductive Turn (State Result : Type) where
  | again (state : State)
  | done (result : Result)

variable {State Result : Type}

def run (body : State → Turn State Result) : Nat → State → Option Result
  | 0, _ => none
  | fuel + 1, state =>
    match body state with
    | .again next => run body fuel next
    | .done result => some result

theorem run_again {body : State → Turn State Result} {state next : State}
    (turn : body state = .again next) (fuel : Nat) :
    run body (fuel + 1) state = run body fuel next := by
  simp only [run, turn]

theorem run_done {body : State → Turn State Result} {state : State} {result : Result}
    (turn : body state = .done result) (fuel : Nat) :
    run body (fuel + 1) state = some result := by
  simp only [run, turn]

theorem run_mono {body : State → Turn State Result} {fuel more : Nat} {state : State}
    {result : Result} (returns : run body fuel state = some result) (enough : fuel ≤ more) :
    run body more state = some result := by
  induction fuel generalizing more state with
  | zero => cases returns
  | succ fuel inductionHypothesis =>
    obtain ⟨more, rfl⟩ := Nat.exists_eq_add_of_lt enough
    cases turn : body state with
    | again next =>
      rw [run_again turn] at returns
      rw [run_again turn]
      exact inductionHypothesis returns (by omega)
    | done value =>
      rw [run_done turn] at returns
      rw [run_done turn]
      exact returns

/-- Total correctness: the variant drops on every turn that goes on, so more
    fuel than its first value is enough. -/
theorem run_total (body : State → Turn State Result) (invariant : State → Prop)
    (variant : State → Nat) (post : Result → Prop)
    (keeps : ∀ state next, invariant state → body state = .again next →
      invariant next ∧ variant next < variant state)
    (leaves : ∀ state result, invariant state → body state = .done result → post result)
    {fuel : Nat} {state : State} (holds : invariant state) (enough : variant state < fuel) :
    ∃ result, run body fuel state = some result ∧ post result := by
  induction fuel generalizing state with
  | zero => omega
  | succ fuel inductionHypothesis =>
    cases turn : body state with
    | again next =>
      obtain ⟨nextHolds, drops⟩ := keeps state next holds turn
      rw [run_again turn]
      exact inductionHypothesis nextHolds (by omega)
    | done result => exact ⟨result, run_done turn fuel, leaves state result holds turn⟩

/-- Partial correctness: a loop that returns has left from a state of its invariant. -/
theorem run_invariant (body : State → Turn State Result) (invariant : State → Prop)
    (post : Result → Prop)
    (keeps : ∀ state next, invariant state → body state = .again next → invariant next)
    (leaves : ∀ state result, invariant state → body state = .done result → post result)
    {fuel : Nat} {state : State} {result : Result} (holds : invariant state)
    (returns : run body fuel state = some result) : post result := by
  induction fuel generalizing state with
  | zero => cases returns
  | succ fuel inductionHypothesis =>
    cases turn : body state with
    | again next =>
      rw [run_again turn] at returns
      exact inductionHypothesis (keeps state next holds turn) returns
    | done value =>
      rw [run_done turn] at returns
      cases returns
      exact leaves state result holds turn

/-- A loop that goes on from every state of an invariant outlasts all fuel. -/
theorem run_endless (body : State → Turn State Result) (invariant : State → Prop)
    (goesOn : ∀ state, invariant state → ∃ next, body state = .again next ∧ invariant next)
    {state : State} (holds : invariant state) (fuel : Nat) : run body fuel state = none := by
  induction fuel generalizing state with
  | zero => rfl
  | succ fuel inductionHypothesis =>
    obtain ⟨next, turn, nextHolds⟩ := goesOn state holds
    rw [run_again turn]
    exact inductionHypothesis nextHolds

/-- A loop that leaves after exactly `count` turns. -/
theorem run_counted (body : State → Turn State Result) (invariant : Nat → State → Prop)
    (post : Result → Prop) {count : Nat}
    (keeps : ∀ index state, index < count → invariant index state →
      ∃ next, body state = .again next ∧ invariant (index + 1) next)
    (leaves : ∀ state, invariant count state → ∃ result, body state = .done result ∧ post result)
    {index left : Nat} (within : index + left = count) {state : State}
    (holds : invariant index state) :
    run body left state = none ∧ ∃ result, run body (left + 1) state = some result ∧ post result := by
  induction left generalizing index state with
  | zero =>
    rw [Nat.add_zero] at within
    obtain ⟨result, turn, done⟩ := leaves state (within ▸ holds)
    exact ⟨rfl, result, run_done turn 0, done⟩
  | succ left inductionHypothesis =>
    obtain ⟨next, turn, nextHolds⟩ := keeps index state (by omega) holds
    rw [run_again turn, run_again turn]
    exact inductionHypothesis (by omega) nextHolds

end FdpRocks.Library.Loop
