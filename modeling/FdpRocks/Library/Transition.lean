import Mathlib

/-! # Labelled transition systems

A system is a set of starting states and a labelled step relation.

* `Reachable.invariant` — what holds at the start and survives every step holds
  in every reachable state.
* `weaving` — parties that each do a list of actions, in any interleaving.
* `tally` — how many parties of a finite family are where a test holds, and how
  the number moves when one party does.
* `throughout_iff` — two properties of every action of a run that stand or fall
  together.
-/

namespace FdpRocks.Library.Transition

/-! ## Reachable states -/

structure System (State Label : Type) where
  start : State → Prop
  step : State → Label → State → Prop

variable {State Label : Type} {system : System State Label}

inductive Reachable (system : System State Label) : State → Prop where
  | start {state : State} (starts : system.start state) : Reachable system state
  | step {state next : State} {label : Label} (before : Reachable system state)
      (steps : system.step state label next) : Reachable system next

theorem Reachable.invariant {holds : State → Prop}
    (starts : ∀ state, system.start state → holds state)
    (keeps : ∀ state label next, holds state → system.step state label next → holds next)
    {state : State} (reachable : Reachable system state) : holds state := by
  induction reachable with
  | start initial => exact starts _ initial
  | step _ steps inductionHypothesis => exact keeps _ _ _ inductionHypothesis steps

/-! ## Interleavings -/

section Weaving

variable {Party Action : Type} [DecidableEq Party]

/-- What every party still has to do, and what has been done in which order. -/
structure Woven (Party Action : Type) where
  pending : Party → List Action
  done : List (Party × Action)

/-- The actions of one party, in order. -/
def actionsOf (party : Party) (done : List (Party × Action)) : List Action :=
  (done.filter fun entry => entry.1 = party).map Prod.snd

/-- All interleavings of these traces. -/
def weaving (traces : Party → List Action) : System (Woven Party Action) Party where
  start state := state = ⟨traces, []⟩
  step state party next := ∃ action rest, state.pending party = action :: rest ∧
    next = ⟨Function.update state.pending party rest, state.done ++ [(party, action)]⟩

/-- No action is lost, repeated or moved before an earlier one of its party. -/
theorem weaving_actionsOf {traces : Party → List Action} {state : Woven Party Action}
    (reachable : Reachable (weaving traces) state) (party : Party) :
    actionsOf party state.done ++ state.pending party = traces party := by
  induction reachable with
  | start initial =>
    rw [show _ = _ from initial]
    rfl
  | step _ steps inductionHypothesis =>
    obtain ⟨action, rest, next, rfl⟩ := steps
    rename_i actor _
    by_cases own : actor = party
    · subst own
      rw [← inductionHypothesis, next]
      simp [actionsOf]
    · rw [← inductionHypothesis]
      simp [actionsOf, own, Function.update_of_ne (Ne.symm own)]

theorem mem_actionsOf {party : Party} {action : Action} {done : List (Party × Action)} :
    action ∈ actionsOf party done ↔ (party, action) ∈ done := by
  simp [actionsOf]

theorem weaving_mem {traces : Party → List Action} {state : Woven Party Action}
    (reachable : Reachable (weaving traces) state) {party : Party} {action : Action}
    (member : (party, action) ∈ state.done) : action ∈ traces party := by
  rw [← weaving_actionsOf reachable party]
  exact List.mem_append_left _ (mem_actionsOf.mpr member)

/-- What only one party can show is seen in its own actions. -/
theorem filterMap_actionsOf {Seen : Type} {observe : Action → Option Seen} {party : Party}
    {done : List (Party × Action)}
    (silent : ∀ entry ∈ done, entry.1 ≠ party → observe entry.2 = none) :
    (done.filterMap fun entry => observe entry.2) = (actionsOf party done).filterMap observe := by
  induction done with
  | nil => rfl
  | cons entry done inductionHypothesis =>
    have rest := inductionHypothesis fun other member => silent other (List.mem_cons_of_mem _ member)
    by_cases own : entry.1 = party
    · rw [actionsOf, List.filter_cons, if_pos (decide_eq_true own), List.map_cons,
        List.filterMap_cons, List.filterMap_cons, rest]
      rfl
    · rw [actionsOf, List.filter_cons, if_neg (by simpa using own), List.filterMap_cons,
        silent entry List.mem_cons_self own, rest]
      rfl

/-- Once nobody has anything left to do, every trace is there whole. -/
theorem weaving_finished {traces : Party → List Action} {state : Woven Party Action}
    (reachable : Reachable (weaving traces) state) (finished : ∀ party, state.pending party = [])
    (party : Party) : actionsOf party state.done = traces party := by
  rw [← weaving_actionsOf reachable party, finished, List.append_nil]

/-- A party can do all that it has left at once. -/
theorem weaving_drain {traces : Party → List Action} {pending : Party → List Action}
    {done : List (Party × Action)} (reachable : Reachable (weaving traces) ⟨pending, done⟩)
    (party : Party) :
    Reachable (weaving traces)
      ⟨Function.update pending party [], done ++ (pending party).map fun action => (party, action)⟩ := by
  generalize left : pending party = actions
  induction actions generalizing pending done with
  | nil =>
    rw [← left, Function.update_eq_self, left, List.map_nil, List.append_nil]
    exact reachable
  | cons action rest inductionHypothesis =>
    have next := inductionHypothesis (reachable.step ⟨action, rest, left, rfl⟩)
      (Function.update_self party rest pending)
    rw [Function.update_idem, List.append_assoc] at next
    exact next

/-- All parties one after the other. -/
theorem weaving_inTurn (traces : Party → List Action) {parties : List Party}
    (distinct : parties.Nodup) :
    Reachable (weaving traces)
      ⟨fun party => if party ∈ parties then [] else traces party,
        parties.flatMap fun party => (traces party).map fun action => (party, action)⟩ := by
  induction parties using List.reverseRecOn with
  | nil => exact .start rfl
  | append_singleton earlier last inductionHypothesis =>
    obtain ⟨distinctEarlier, _, apart⟩ := List.nodup_append.mp distinct
    have fresh : last ∉ earlier :=
      fun member => apart last member last (List.mem_singleton_self last) rfl
    have next := weaving_drain (inductionHypothesis distinctEarlier) last
    rw [if_neg fresh] at next
    convert next using 2
    · funext party
      by_cases own : party = last <;> simp [own]
    · simp

end Weaving

/-! ## Counting parties -/

section Tally

variable {Place : Type} {size : Nat}

def tally (test : Place → Bool) (place : Fin size → Place) : Nat :=
  (Finset.univ.filter fun party => test (place party) = true).card

theorem tally_congr {test : Place → Bool} {before after : Fin size → Place}
    (same : ∀ party, test (after party) = test (before party)) :
    tally test after = tally test before := by
  simp only [tally, same]

theorem tally_eq_sum (test : Place → Bool) (place : Fin size → Place) :
    tally test place = ∑ party, (test (place party)).toNat := by
  rw [tally, Finset.card_filter]
  apply Finset.sum_congr rfl
  intro party _
  cases test (place party) <;> rfl

theorem tally_update (test : Place → Bool) (place : Fin size → Place) (party : Fin size)
    (target : Place) :
    tally test (Function.update place party target) + (test (place party)).toNat
      = tally test place + (test target).toNat := by
  have rest : ∑ other ∈ Finset.univ.erase party,
      (test (Function.update place party target other)).toNat
        = ∑ other ∈ Finset.univ.erase party, (test (place other)).toNat := by
    apply Finset.sum_congr rfl
    intro other member
    rw [Function.update_of_ne (Finset.ne_of_mem_erase member)]
  rw [tally_eq_sum, tally_eq_sum, ← Finset.add_sum_erase _ _ (Finset.mem_univ party),
    ← Finset.add_sum_erase _ _ (Finset.mem_univ party), rest, Function.update_self]
  omega

/-- A full count leaves nobody out. -/
theorem tally_full {test : Place → Bool} {place : Fin size → Place}
    (full : size ≤ tally test place) (party : Fin size) : test (place party) = true := by
  have all := Finset.eq_of_subset_of_card_le (Finset.filter_subset _ Finset.univ)
    (by rw [Finset.card_fin]; exact full)
  have member : party ∈ Finset.univ.filter fun each => test (place each) = true := by
    rw [all]
    exact Finset.mem_univ party
  exact (Finset.mem_filter.mp member).2

/-- A count that is not full leaves somebody out. -/
theorem tally_short {test : Place → Bool} {place : Fin size → Place}
    (short : tally test place < size) : ∃ party, test (place party) = false := by
  by_contra everyone
  push Not at everyone
  have full : tally test place = size := by
    rw [tally, Finset.filter_true_of_mem (fun party _ => by simpa using everyone party),
      Finset.card_fin]
  omega

end Tally

/-! ## Histories -/

section Histories

variable {Action : Type}

/-- Each of the actions has the property, which may depend on those before it. -/
def Throughout (holds : List Action → Action → Prop) : (before actions : List Action) → Prop
  | _, [] => True
  | before, action :: actions =>
    holds before action ∧ Throughout holds (before ++ [action]) actions

instance Throughout.decidable {holds : List Action → Action → Prop}
    [∀ before action, Decidable (holds before action)] :
    ∀ before actions, Decidable (Throughout holds before actions)
  | _, [] => instDecidableTrue
  | before, action :: actions =>
    have : Decidable (Throughout holds (before ++ [action]) actions) :=
      Throughout.decidable (before ++ [action]) actions
    inferInstanceAs (Decidable (holds before action ∧ Throughout holds (before ++ [action]) actions))

theorem Throughout.imp {holds weaker : List Action → Action → Prop}
    (implies : ∀ before action, holds before action → weaker before action)
    {before actions : List Action} (all : Throughout holds before actions) :
    Throughout weaker before actions := by
  induction actions generalizing before with
  | nil => trivial
  | cons action actions inductionHypothesis =>
    exact ⟨implies before action all.1, inductionHypothesis all.2⟩

/-- Two properties agree over a whole history when they do wherever the first
    has held so far, and when that keeps an invariant which makes them agree. -/
theorem throughout_iff {allowed first second : List Action → Action → Prop}
    {invariant : List Action → Prop}
    (agree : ∀ before action, invariant before → allowed before action →
      (first before action ↔ second before action))
    (keeps : ∀ before action, invariant before → allowed before action → first before action →
      invariant (before ++ [action]))
    {before actions : List Action} (holds : invariant before)
    (legal : Throughout allowed before actions) :
    Throughout first before actions ↔ Throughout second before actions := by
  induction actions generalizing before with
  | nil => exact Iff.rfl
  | cons action actions inductionHypothesis =>
    obtain ⟨here, later⟩ := legal
    have same := agree before action holds here
    constructor
    · intro all
      obtain ⟨now, after⟩ := all
      have kept := keeps before action holds here now
      exact ⟨same.mp now, (inductionHypothesis kept later).mp after⟩
    · intro all
      obtain ⟨now, after⟩ := all
      have kept := keeps before action holds here (same.mpr now)
      exact ⟨same.mpr now, (inductionHypothesis kept later).mpr after⟩

end Histories

end FdpRocks.Library.Transition
