import Mathlib

/-! # Rounds of a permutation

A sequence that goes through a fixed list again and again, each time in some
other order, and may stop in the middle of a round.

* `Rounds.flatten` — whole rounds and a part of one.
* `Rounds.window` — every aligned window of the list's length is a permutation.
* `Rounds.count` — all items have occurred equally often, up to one.
-/

namespace FdpRocks.Library

variable {Item : Type}

inductive Rounds (base : List Item) : List Item → Prop where
  | part {block part : List Item} (permutes : block.Perm base) (first : part <+: block) :
      Rounds base part
  | whole {block rest : List Item} (permutes : block.Perm base) (rounds : Rounds base rest) :
      Rounds base (block ++ rest)

variable {base sequence : List Item}

theorem Rounds.flatten {blocks : List (List Item)} {block part : List Item}
    (permute : ∀ earlier ∈ blocks, earlier.Perm base) (permutes : block.Perm base)
    (first : part <+: block) : Rounds base (blocks.flatten ++ part) := by
  induction blocks with
  | nil => exact .part permutes first
  | cons earlier blocks inductionHypothesis =>
    rw [List.flatten_cons, List.append_assoc]
    exact .whole (permute earlier List.mem_cons_self)
      (inductionHypothesis fun other member => permute other (List.mem_cons_of_mem _ member))

theorem Rounds.mem (rounds : Rounds base sequence) {item : Item} (member : item ∈ sequence) :
    item ∈ base := by
  induction rounds with
  | part permutes first => exact permutes.subset (first.subset member)
  | whole permutes _ inductionHypothesis =>
    cases List.mem_append.mp member with
    | inl here => exact permutes.subset here
    | inr later => exact inductionHypothesis later

/-- Rounds of names are rounds of what they name. -/
theorem Rounds.map {Name : Type} (name : Item → Name) (rounds : Rounds base sequence) :
    Rounds (base.map name) (sequence.map name) := by
  induction rounds with
  | part permutes first => exact .part (permutes.map name) (first.map name)
  | whole permutes _ inductionHypothesis =>
    rw [List.map_append]
    exact .whole (permutes.map name) inductionHypothesis

theorem Rounds.window (rounds : Rounds base sequence) {index : ℕ}
    (inside : (index + 1) * base.length ≤ sequence.length) :
    ((sequence.drop (index * base.length)).take base.length).Perm base := by
  induction rounds generalizing index with
  | part permutes first =>
    have shorter := first.length_le
    rw [permutes.length_eq] at shorter
    rw [Nat.add_mul, Nat.one_mul] at inside
    -- Only a whole block has room for a window, and that for one.
    have start : index * base.length = 0 := by omega
    have whole := first.eq_of_length (by rw [permutes.length_eq]; omega)
    rw [start, List.drop_zero, whole, ← permutes.length_eq, List.take_length]
    exact permutes
  | whole permutes _ inductionHypothesis =>
    rw [List.length_append, permutes.length_eq] at inside
    cases index with
    | zero =>
      rw [Nat.zero_mul, List.drop_zero, ← permutes.length_eq, List.take_left]
      exact permutes
    | succ index =>
      rw [Nat.add_mul, Nat.one_mul, Nat.add_comm, ← permutes.length_eq, ← List.drop_drop,
        List.drop_left, permutes.length_eq]
      apply inductionHypothesis
      rw [Nat.add_mul (index + 1)] at inside
      omega

variable [DecidableEq Item]

theorem Rounds.count (rounds : Rounds base sequence) (distinct : base.Nodup) :
    ∃ turns, ∀ item ∈ base, sequence.count item = turns ∨ sequence.count item = turns + 1 := by
  induction rounds with
  | part permutes first =>
    refine ⟨0, fun item member => ?_⟩
    have atMost := first.sublist.count_le item
    rw [permutes.count_eq, List.count_eq_one_of_mem distinct member] at atMost
    omega
  | whole permutes _ inductionHypothesis =>
    obtain ⟨turns, even⟩ := inductionHypothesis
    refine ⟨turns + 1, fun item member => ?_⟩
    rw [List.count_append, permutes.count_eq, List.count_eq_one_of_mem distinct member]
    have counted := even item member
    omega

end FdpRocks.Library
