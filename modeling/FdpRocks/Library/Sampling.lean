import Mathlib
import FdpRocks.Library.Loop

/-! # Sampling

Random numbers in exact arithmetic, and the integers that are made of them.

* `run_search` — draws that are rejected until one is accepted.
* `truncate_of_le` — the conversion to a 64-bit word, where it is defined.
* `interpolated_between`, `scaled_rpow_between` — a power of an interpolated
  number, which is how a rank is drawn from a power law.
-/

namespace FdpRocks.Library.Sampling

open FdpRocks.Library.Loop

/-! ## Rejection -/

section Rejection

variable {Result : Type} {body : ℕ → Turn ℕ Result} {leaves : ℕ → Prop} {serve : ℕ → Result}

theorem run_search_reaches (goesOn : ∀ index, ¬ leaves index → body index = .again (index + 1))
    (ends : ∀ index, leaves index → body index = .done (serve index)) {index : ℕ}
    (here : leaves index) (first : ∀ earlier < index, ¬ leaves earlier) :
    run body (index + 1) 0 = some (serve index) := by
  have counted : run body index 0 = none ∧
      ∃ result, run body (index + 1) 0 = some result ∧ result = serve index := by
    apply run_counted body (fun turn state => state = turn) _ _ _ (Nat.zero_add index) rfl
    · intro turn state early same
      exact ⟨turn + 1, same ▸ goesOn turn (first turn early), rfl⟩
    · intro state same
      exact ⟨serve index, same ▸ ends index here, rfl⟩
  obtain ⟨_, served, returns, same⟩ := counted
  rw [returns, same]

/-- A search returns what the first index that leaves it serves, and goes on
    for ever when there is none. -/
theorem run_search (goesOn : ∀ index, ¬ leaves index → body index = .again (index + 1))
    (ends : ∀ index, leaves index → body index = .done (serve index)) (result : Result) :
    (∃ fuel, run body fuel 0 = some result) ↔
      ∃ index, leaves index ∧ (∀ earlier < index, ¬ leaves earlier) ∧ serve index = result := by
  classical
  constructor
  · intro returned
    obtain ⟨fuel, returns⟩ := returned
    by_cases found : ∃ index, leaves index
    · have reached := run_search_reaches goesOn ends (Nat.find_spec found)
        (fun _ early => Nat.find_min found early)
      have same := (run_mono returns (Nat.le_max_left fuel _)).symm.trans
        (run_mono reached (Nat.le_max_right fuel _))
      exact ⟨Nat.find found, Nat.find_spec found, fun _ early => Nat.find_min found early,
        (Option.some.inj same).symm⟩
    · have endless : run body fuel 0 = none := by
        apply run_endless body (fun _ => True) _ trivial fuel
        intro index _
        exact ⟨index + 1, goesOn index (fun here => found ⟨index, here⟩), trivial⟩
      rw [endless] at returns
      cases returns
  · intro found
    obtain ⟨index, here, first, same⟩ := found
    exact ⟨index + 1, same ▸ run_search_reaches goesOn ends here first⟩

end Rejection

/-! ## Operations that may be undefined -/

/-- A number without its fraction, as a 64-bit word; undefined when it is not one. -/
noncomputable def truncate (number : ℝ) : Option UInt64 :=
  if -1 < number ∧ number < UInt64.size then some (UInt64.ofNat ⌊number⌋₊) else none

theorem truncate_of_le {number : ℝ} {bound : UInt64} (nonneg : 0 ≤ number)
    (bounded : number ≤ bound.toNat) :
    ∃ word, truncate number = some word ∧ word.toNat = ⌊number⌋₊ ∧ word ≤ bound := by
  have small : bound.toNat < UInt64.size := bound.toNat_lt
  have real : (bound.toNat : ℝ) < UInt64.size := by exact_mod_cast small
  have floor : ⌊number⌋₊ ≤ bound.toNat := Nat.floor_le_of_le bounded
  have inside : -1 < number ∧ number < UInt64.size := ⟨by linarith, by linarith⟩
  have value : (UInt64.ofNat ⌊number⌋₊).toNat = ⌊number⌋₊ := by
    rw [UInt64.toNat_ofNat']
    exact Nat.mod_eq_of_lt (lt_of_le_of_lt floor small)
  refine ⟨UInt64.ofNat ⌊number⌋₊, if_pos inside, value, ?_⟩
  rw [UInt64.le_iff_toNat_le, value]
  exact floor

/-- Division, where it is defined. -/
noncomputable def quotient (dividend divisor : ℝ) : Option ℝ :=
  if divisor = 0 then none else some (dividend / divisor)

/-- `pow`, where it is a real number. -/
noncomputable def power (base exponent : ℝ) : Option ℝ :=
  if base < 0 then none else some (base ^ exponent)

/-- The remainder of words, where it is defined. -/
def wordRemainder (dividend divisor : UInt64) : Option UInt64 :=
  if divisor = 0 then none else some (dividend % divisor)

/-- A number of the unit interval scales a bound down. -/
theorem scaled_between {unit bound : ℝ} (low : 0 ≤ unit) (high : unit ≤ 1) (nonneg : 0 ≤ bound) :
    0 ≤ unit * bound ∧ unit * bound ≤ bound :=
  ⟨mul_nonneg low nonneg, mul_le_of_le_one_left nonneg high⟩

/-! ## Power laws -/

/-- The line from `low` at `start` to one at one stays between the two. -/
theorem interpolated_between {start unit low : ℝ} (before : start < 1) (small : low ≤ 1)
    (early : start ≤ unit) (late : unit ≤ 1) :
    low ≤ (1 - low) / (1 - start) * (unit - 1) + 1 ∧
      (1 - low) / (1 - start) * (unit - 1) + 1 ≤ 1 := by
  have room : 0 < 1 - start := by linarith
  have slope : 0 ≤ (1 - low) / (1 - start) := div_nonneg (by linarith) room.le
  have whole : (1 - low) / (1 - start) * (1 - start) = 1 - low := div_mul_cancel₀ _ room.ne'
  have steep : (1 - low) / (1 - start) * (start - 1) ≤ (1 - low) / (1 - start) * (unit - 1) :=
    mul_le_mul_of_nonneg_left (by linarith) slope
  have flat : (1 - low) / (1 - start) * (unit - 1) ≤ 0 :=
    mul_nonpos_of_nonneg_of_nonpos slope (by linarith)
  constructor
  · linarith
  · linarith

/-- A power of a number that is at least a root of `least / most`, scaled to `most`. -/
theorem scaled_rpow_between {least most exponent base : ℝ} (positive : 0 < least)
    (ordered : least ≤ most) (grows : 0 < exponent) (low : (least / most) ^ (1 / exponent) ≤ base)
    (high : base ≤ 1) : least ≤ most * base ^ exponent ∧ most * base ^ exponent ≤ most := by
  have large : 0 < most := lt_of_lt_of_le positive ordered
  have ratio : 0 < least / most := div_pos positive large
  have root : 0 ≤ (least / most) ^ (1 / exponent) := Real.rpow_nonneg ratio.le _
  have nonneg : 0 ≤ base := root.trans low
  have back : ((least / most) ^ (1 / exponent)) ^ exponent = least / most := by
    rw [← Real.rpow_mul ratio.le, one_div_mul_cancel grows.ne', Real.rpow_one]
  have least_le : least / most ≤ base ^ exponent := by
    rw [← back]
    exact Real.rpow_le_rpow root low grows.le
  constructor
  · calc least = most * (least / most) := (mul_div_cancel₀ least large.ne').symm
      _ ≤ most * base ^ exponent := mul_le_mul_of_nonneg_left least_le large.le
  · exact mul_le_of_le_one_right large.le (Real.rpow_le_one nonneg high grows.le)

end FdpRocks.Library.Sampling
