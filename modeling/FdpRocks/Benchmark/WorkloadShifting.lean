import FdpRocks.Benchmark.RandomKeyTraceSoundness
import Mathlib.Tactic.Ring

/-! # The four shifting workloads

Each phase reads the same segments of a key vector that has moved on.  Where it
has moved to is a rotation, whatever the remainder of the length by four.
-/

namespace FdpRocks.Benchmark

open FdpRocks.Library.Vectors

namespace RandomKeyTrace

variable {trace : RandomKeyTrace} {draws : Draws}

/-- How far one shift moves the keys to the right. -/
def shiftWidth (count : ℕ) : ℕ := count - 3 * (count / 4)

/-- `(index - shift) mod count`. -/
def backward (count index shift : ℕ) : ℕ := (((index : ℤ) - shift) % count).toNat

/-- To the right by the last part is to the left by the first three. -/
theorem backward_shiftWidth (count index phase : ℕ) :
    backward count index (phase * shiftWidth count)
      = (index + phase * (3 * (count / 4))) % count := by
  have short : 3 * (count / 4) ≤ count := by omega
  have turned : ((index : ℤ) - (phase * shiftWidth count : ℕ))
      = (index + phase * (3 * (count / 4)) : ℕ) + count * (-phase : ℤ) := by
    unfold shiftWidth
    push_cast [short]
    ring
  -- Whole turns drop out of the remainder.
  unfold backward
  rw [turned, Int.add_mul_emod_self_left]
  omega

/-- Every phase sees the original keys, moved on once for each phase before it. -/
theorem phaseKeys_getElem? (phase : ℕ) {index : ℕ} (inside : index < trace.keys.length) :
    (trace.phaseKeys phase)[index]?
      = trace.keys[backward trace.keys.length index (phase * shiftWidth trace.keys.length)]? := by
  rw [phaseKeys, List.getElem?_rotate inside, backward_shiftWidth]

theorem workload_rotates (trace : RandomKeyTrace) (draws : Draws)
    (readDatasetLength segmentLength : ℕ) (sized : trace.keys.length = trace.count)
    (positive : 1 ≤ segmentLength)
    (ranks : ∀ j < readDatasetLength / segmentLength,
      1 ≤ draws.samples j ∧ draws.samples j ≤ trace.count / segmentLength) :
    ∃ result, trace.createReadWorkloadWithLocalSequential4Workloads draws readDatasetLength
        segmentLength = some result ∧
      (∀ phase : Fin 4, ∀ j < readDatasetLength / segmentLength, ∀ k < segmentLength,
        ∃ segment key,
          (shuffledSegments draws (trace.count / segmentLength))[draws.samples j - 1]? = some segment ∧
          (result.workload phase)[j * segmentLength + k]? = some key ∧
          trace.keys[backward trace.count (segment * segmentLength + k)
            (phase * shiftWidth trace.count)]? = some key) ∧
      (∀ index < trace.count, result.keys[index]?
        = trace.keys[backward trace.count index (3 * shiftWidth trace.count)]?) ∧
      result.keys.Perm trace.keys := by
  obtain ⟨result, returns, keys, filled⟩ := localSequential_spec sized positive ranks
  refine ⟨result, returns, fun phase j early k inside => ?_, fun index inside => ?_, ?_⟩
  · have picks : Picks draws (shuffledSegments draws (trace.count / segmentLength))
        (readDatasetLength / segmentLength) (trace.count / segmentLength) :=
      picks_of_perm (draws.shuffle_perm _) ranks
    obtain ⟨segment, known, picksSegment⟩ := picks j early
    have within : segment * segmentLength + k < trace.keys.length := sized ▸ segment_within known inside
    have entry : (result.workload phase)[j * segmentLength + k]?
        = (trace.phaseKeys phase)[segment * segmentLength + k]? := by
      rw [(filled phase).items, if_pos (place_lt early inside),
        segmentKey_place inside picksSegment]
    have moved := @phaseKeys_getElem? trace phase _ within
    have here : segment * segmentLength + k < (trace.phaseKeys phase).length := by
      rw [phaseKeys, List.length_rotate]
      exact within
    rw [List.getElem?_eq_getElem here] at entry moved
    have rank := (ranks j early).1
    have nonzero : draws.samples j ≠ 0 := by omega
    refine ⟨segment, _, ?_, entry, ?_⟩
    · simpa [picked, segmentOf, nonzero] using picksSegment
    · rw [← sized]
      exact moved.symm
  · rw [keys, ← sized]
    exact phaseKeys_getElem? 3 (sized ▸ inside)
  · rw [keys]
    exact List.rotate_perm _ _

/-- Five keys, in segments of two. -/
theorem workload_rotates_five :
    ((fresh [1, 2, 3, 4, 5]).keys.length = (fresh [1, 2, 3, 4, 5]).count ∧ 1 ≤ 2 ∧
      ∀ j < 4 / 2, 1 ≤ (Draws.always 2).samples j ∧ (Draws.always 2).samples j ≤ 5 / 2) ∧
    ∃ result, (fresh [1, 2, 3, 4, 5]).createReadWorkloadWithLocalSequential4Workloads
        (.always 2) 4 2 = some result ∧ result.keys.Perm [1, 2, 3, 4, 5] := by
  have ranks : ∀ j < 4 / 2, 1 ≤ (Draws.always 2).samples j ∧ (Draws.always 2).samples j ≤ 5 / 2 := by
    decide
  obtain ⟨result, returns, _, _, same⟩ :=
    workload_rotates (fresh [1, 2, 3, 4, 5]) (.always 2) 4 2 rfl (by decide) ranks
  exact ⟨⟨rfl, by decide, ranks⟩, result, returns, same⟩

end RandomKeyTrace

end FdpRocks.Benchmark
