import FdpRocks.Library.Transition

/-! # Programs that give commands

A program gives one command after the other, and goes on with what each of
them answers.  It returns a result, or exits early.

* `Program.play` — a run, with everything outside as a function of the history.
* `Program.Ensures` — whatever is answered, every command is allowed by the
  history before it, and the end is as promised.
* `Ensures.bind`, `ensures_attempt`, `ensures_foldlM` — the rules.
* `Ensures.sound` — what a program ensures is true of all its runs.
-/

namespace FdpRocks.Library.Programs

open FdpRocks.Library.Transition

variable {Command : Type} {Answer : Command → Type} {Failure Result : Type}

/-- A command and its answer. -/
abbrev Deed (Answer : Command → Type) : Type := Sigma Answer

inductive Program (Answer : Command → Type) (Failure Result : Type) : Type where
  | returned (result : Result)
  | exited (failure : Failure)
  | ask (command : Command) (next : Answer command → Program Answer Failure Result)

namespace Program

def bind {Other : Type} (rest : Result → Program Answer Failure Other) :
    Program Answer Failure Result → Program Answer Failure Other
  | .returned result => rest result
  | .exited failure => .exited failure
  | .ask command next => .ask command fun answer => (next answer).bind rest

instance monad : Monad (Program Answer Failure) where
  pure := .returned
  bind program rest := program.bind rest

/-- One command, with its answer as the result. -/
def give (command : Command) : Program Answer Failure (Answer command) := .ask command .returned

/-- An early exit of this part is a result of the whole. -/
def attempt {Outer : Type} :
    Program Answer Failure Result → Program Answer Outer (Except Failure Result)
  | .returned result => .returned (.ok result)
  | .exited failure => .returned (.error failure)
  | .ask command next => .ask command fun answer => (next answer).attempt

/-- What is done from here on, and how it ends. -/
def play (outside : List (Deed Answer) → (command : Command) → Answer command) :
    Program Answer Failure Result → List (Deed Answer) →
      List (Deed Answer) × Except Failure Result
  | .returned result, _ => ([], .ok result)
  | .exited failure, _ => ([], .error failure)
  | .ask command next, before =>
    let deed : Deed Answer := ⟨command, outside before command⟩
    let rest := (next deed.2).play outside (before ++ [deed])
    (deed :: rest.1, rest.2)

/-! ## What a program ensures -/

/-- How a run may end, by its whole history. -/
structure Ending (Answer : Command → Type) (Failure Result : Type) where
  returns : Result → List (Deed Answer) → Prop
  exits : Failure → List (Deed Answer) → Prop

def Ending.holds (ending : Ending Answer Failure Result) :
    Except Failure Result → List (Deed Answer) → Prop
  | .ok result => ending.returns result
  | .error failure => ending.exits failure

variable (allowed : List (Deed Answer) → Command → Prop)

def Ensures (ending : Ending Answer Failure Result) :
    Program Answer Failure Result → List (Deed Answer) → Prop
  | .returned result, before => ending.returns result before
  | .exited failure, before => ending.exits failure before
  | .ask command next, before =>
    allowed before command ∧ ∀ answer, (next answer).Ensures ending (before ++ [⟨command, answer⟩])

variable {allowed} {ending : Ending Answer Failure Result} {before : List (Deed Answer)}

theorem Ensures.sound {program : Program Answer Failure Result}
    (ensures : program.Ensures allowed ending before)
    (outside : List (Deed Answer) → (command : Command) → Answer command) :
    Throughout (fun earlier deed => allowed earlier deed.1) before (program.play outside before).1 ∧
      ending.holds (program.play outside before).2 (before ++ (program.play outside before).1) := by
  induction program generalizing before with
  | returned result => simpa [play, Throughout, Ending.holds, Ensures] using ensures
  | exited failure => simpa [play, Throughout, Ending.holds, Ensures] using ensures
  | ask command next inductionHypothesis =>
    obtain ⟨permitted, later⟩ := ensures
    have rest := inductionHypothesis (outside before command) (later (outside before command))
    rw [List.append_assoc] at rest
    exact ⟨⟨permitted, rest.1⟩, rest.2⟩

theorem Ensures.mono {program : Program Answer Failure Result}
    {weaker : Ending Answer Failure Result} (ensures : program.Ensures allowed ending before)
    (returns : ∀ result after, ending.returns result after → weaker.returns result after)
    (exits : ∀ failure after, ending.exits failure after → weaker.exits failure after) :
    program.Ensures allowed weaker before := by
  induction program generalizing before with
  | returned result => exact returns result before ensures
  | exited failure => exact exits failure before ensures
  | ask command next inductionHypothesis =>
    exact ⟨ensures.1, fun answer => inductionHypothesis answer (ensures.2 answer)⟩

/-! ## Rules -/

@[simp] theorem ensures_pure {result : Result} :
    (pure result : Program Answer Failure Result).Ensures allowed ending before
      ↔ ending.returns result before := Iff.rfl

@[simp] theorem ensures_exited {failure : Failure} :
    (exited failure : Program Answer Failure Result).Ensures allowed ending before
      ↔ ending.exits failure before := Iff.rfl

@[simp] theorem ensures_give {command : Command}
    {ending : Ending Answer Failure (Answer command)} :
    (give command).Ensures allowed ending before
      ↔ allowed before command ∧ ∀ answer, ending.returns answer (before ++ [⟨command, answer⟩]) :=
  Iff.rfl

@[simp] theorem ensures_bind {Other : Type} {program : Program Answer Failure Result}
    {rest : Result → Program Answer Failure Other} {ending : Ending Answer Failure Other} :
    (program >>= rest).Ensures allowed ending before
      ↔ program.Ensures allowed
        ⟨fun result after => (rest result).Ensures allowed ending after, ending.exits⟩ before := by
  show (program.bind rest).Ensures allowed ending before ↔ _
  induction program generalizing before with
  | returned result => rfl
  | exited failure => rfl
  | ask command next inductionHypothesis =>
    simp only [bind, Ensures, inductionHypothesis]

/-- One part after the other. -/
theorem Ensures.bind {Other : Type} {program : Program Answer Failure Result}
    {rest : Result → Program Answer Failure Other} {ending : Ending Answer Failure Other}
    {middle : Ending Answer Failure Result} (first : program.Ensures allowed middle before)
    (returns : ∀ result after, middle.returns result after →
      (rest result).Ensures allowed ending after)
    (exits : ∀ failure after, middle.exits failure after → ending.exits failure after) :
    (program >>= rest).Ensures allowed ending before :=
  ensures_bind.mpr (first.mono returns exits)

@[simp] theorem ensures_attempt {Outer : Type} {program : Program Answer Failure Result}
    {ending : Ending Answer Outer (Except Failure Result)} :
    program.attempt.Ensures allowed ending before
      ↔ program.Ensures allowed
        ⟨fun result => ending.returns (.ok result), fun failure => ending.returns (.error failure)⟩
        before := by
  induction program generalizing before with
  | returned result => rfl
  | exited failure => rfl
  | ask command next inductionHypothesis =>
    simp only [attempt, Ensures, inductionHypothesis]

/-- A loop over a list keeps an invariant of the items so far, the loop's
    variables and the history. -/
theorem ensures_foldlM {Item State : Type} {body : State → Item → Program Answer Failure State}
    {exits : Failure → List (Deed Answer) → Prop}
    (invariant : List Item → State → List (Deed Answer) → Prop) {items : List Item}
    (keeps : ∀ earlier item later state history, items = earlier ++ item :: later →
      invariant earlier state history →
      (body state item).Ensures allowed ⟨invariant (earlier ++ [item]), exits⟩ history)
    {state : State} (holds : invariant [] state before) :
    (items.foldlM body state).Ensures allowed ⟨invariant items, exits⟩ before := by
  suffices all : ∀ earlier later state history, items = earlier ++ later →
      invariant earlier state history →
      (later.foldlM body state).Ensures allowed ⟨invariant items, exits⟩ history from
    all [] items state before rfl holds
  intro earlier later
  induction later generalizing earlier with
  | nil =>
    intro state history split here
    rw [List.append_nil] at split
    rw [split]
    exact here
  | cons item later inductionHypothesis =>
    intro state history split here
    rw [List.foldlM_cons, ensures_bind]
    apply (keeps earlier item later state history split here).mono
    · intro next after kept
      exact inductionHypothesis (earlier ++ [item]) next after (by simp [split]) kept
    · exact fun _ _ exited => exited

end Program

end FdpRocks.Library.Programs
