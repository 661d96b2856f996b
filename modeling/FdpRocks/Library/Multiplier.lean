import Mathlib

/-! # Generators that multiply

A state stands for a number of a finite field, and a step multiplies it.  With a
multiplier of full order, one round visits every state once.

* `existsUnique_pow_mul` — the powers of a primitive element.
* `Multiplier.visits`, `Multiplier.period` — the orbit of a state.
-/

namespace FdpRocks.Library

variable {F : Type} [Field F] [Finite F] {multiplier : F}

/-- A primitive element leads from every nonzero number to every other in one way. -/
theorem existsUnique_pow_mul (primitive : orderOf multiplier = Nat.card F - 1) {start target : F}
    (startNonzero : start ≠ 0) (targetNonzero : target ≠ 0) :
    ∃! steps, steps < Nat.card F - 1 ∧ multiplier ^ steps * start = target := by
  classical
  have many : 0 < Nat.card F - 1 := Nat.sub_pos_of_lt Finite.one_lt_card
  have nonzero : multiplier ≠ 0 := by
    rintro rfl
    have power := pow_orderOf_eq_one (0 : F)
    rw [primitive, zero_pow many.ne'] at power
    exact zero_ne_one power
  have order : orderOf (Units.mk0 multiplier nonzero) = Nat.card F - 1 := by
    rw [← primitive, ← orderOf_units, Units.val_mk0]
  have card : Nat.card Fˣ = Nat.card F - 1 := Nat.card_units F
  have whole : Subgroup.zpowers (Units.mk0 multiplier nonzero) = ⊤ := by
    rw [← Subgroup.card_eq_iff_eq_top, Nat.card_zpowers, order, card]
  have member : Units.mk0 (target / start) (div_ne_zero targetNonzero startNonzero)
      ∈ Subgroup.zpowers (Units.mk0 multiplier nonzero) := whole ▸ Subgroup.mem_top _
  obtain ⟨steps, early, power⟩ :=
    Finset.mem_image.mp (mem_zpowers_iff_mem_range_orderOf.mp member)
  rw [order, Finset.mem_range] at early
  have value : multiplier ^ steps = target / start := congrArg Units.val power
  refine ⟨steps, ⟨early, ?_⟩, ?_⟩
  · rw [value, div_mul_cancel₀ _ startNonzero]
  · rintro other ⟨otherEarly, reaches⟩
    rw [← primitive] at early otherEarly
    apply pow_injOn_Iio_orderOf otherEarly early
    show multiplier ^ other = multiplier ^ steps
    rw [value, eq_div_iff startNonzero]
    exact reaches

/-- Valid states stand for different nonzero numbers, and a step multiplies. -/
structure Multiplier {State : Type} (valid : State → Prop) (number : State → F)
    (step : State → State) (multiplier : F) : Prop where
  keeps : ∀ state, valid state → valid (step state)
  nonzero : ∀ state, valid state → number state ≠ 0
  injective : ∀ state other, valid state → valid other → number state = number other → state = other
  multiplies : ∀ state, valid state → number (step state) = multiplier * number state

namespace Multiplier

variable {State : Type} {valid : State → Prop} {number : State → F} {step : State → State}
  {state other : State}

omit [Finite F] in
theorem iterate (multiplies : Multiplier valid number step multiplier) (isValid : valid state)
    (steps : ℕ) : valid (step^[steps] state) ∧
      number (step^[steps] state) = multiplier ^ steps * number state := by
  induction steps with
  | zero => simpa using isValid
  | succ steps inductionHypothesis =>
    obtain ⟨stays, power⟩ := inductionHypothesis
    rw [Function.iterate_succ_apply']
    refine ⟨multiplies.keeps _ stays, ?_⟩
    rw [multiplies.multiplies _ stays, power, pow_succ', mul_assoc]

/-- One round visits every state once. -/
theorem visits (multiplies : Multiplier valid number step multiplier)
    (primitive : orderOf multiplier = Nat.card F - 1) (isValid : valid state) (otherValid : valid other) :
    ∃! steps, steps < Nat.card F - 1 ∧ step^[steps] state = other := by
  have same : ∀ steps, step^[steps] state = other ↔ multiplier ^ steps * number state = number other := by
    intro steps
    obtain ⟨stays, power⟩ := multiplies.iterate isValid steps
    rw [← power]
    exact ⟨congrArg number, multiplies.injective _ _ stays otherValid⟩
  simp only [same]
  exact existsUnique_pow_mul primitive (multiplies.nonzero _ isValid) (multiplies.nonzero _ otherValid)

omit [Finite F] in
/-- A round ends where it has started. -/
theorem period (multiplies : Multiplier valid number step multiplier)
    (primitive : orderOf multiplier = Nat.card F - 1) (isValid : valid state) :
    step^[Nat.card F - 1] state = state := by
  obtain ⟨stays, power⟩ := multiplies.iterate isValid (Nat.card F - 1)
  apply multiplies.injective _ _ stays isValid
  rw [power, ← primitive, pow_orderOf_eq_one, one_mul]

end Multiplier

end FdpRocks.Library
