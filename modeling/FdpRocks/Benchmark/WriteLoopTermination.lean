import FdpRocks.Benchmark.WriteLoopSoundness

/-! # When the write loop ends

A turn of the outer loop advances by what its inner loop takes, and with
`--batch=0` that is nothing.
-/

namespace FdpRocks.Benchmark

open FdpRocks.Library.Loop

variable (flags : Flags) (baseKeys : UInt64) (tid : ℕ) (outside : Outside)

/-- `ind`, from the keys that are left. -/
def Writer.ind (keys : List UInt64) (writer : Writer) : ℕ := keys.length - writer.rest.length

/-- Both loops end, and then `ind` is at the end of the keys. -/
def WriteLoopEnds (keys : List UInt64) : Prop :=
  ∃ fuel writer, run (Writer.writeTurn flags baseKeys tid outside) fuel
      (Writer.start flags outside keys) = some writer ∧
    writer.ind keys = keys.length

variable {flags}

/-- An empty batch takes no key. -/
theorem writeTurn_stalls (none : flags.batch = 0) {writer : Writer} (some : writer.rest ≠ []) :
    ∃ next, writer.writeTurn flags baseKeys tid outside = .again next ∧ next.rest = writer.rest := by
  have taken : writer.fillBatch flags baseKeys outside flags.batch.toNat 0 = (0, writer) := by
    rw [none]
    rfl
  have asides : Writer.Aside (Message.Sound outside)
      { writer with finishedOps := writer.finishedOps ++ [0] }
      ((writer.finishedBatchOp flags outside 0).maybePrintRocksDBStats tid outside) :=
    (Writer.aside_finishedBatchOp 0 writer).trans (Writer.aside_maybePrintRocksDBStats _)
  -- The stall check and the statistics leave the keys alone.
  exact ⟨_, by rw [Writer.writeTurn, if_neg some, taken], asides.rest⟩

theorem writeLoop_endless (none : flags.batch = 0) {keys : List UInt64} (some : keys ≠ [])
    (fuel : ℕ) :
    run (Writer.writeTurn flags baseKeys tid outside) fuel (Writer.start flags outside keys)
      = .none := by
  apply run_endless (Writer.writeTurn flags baseKeys tid outside) (fun writer => writer.rest ≠ [])
  case goesOn =>
    intro writer left
    obtain ⟨next, turn, same⟩ := writeTurn_stalls baseKeys tid outside none left
    exact ⟨next, turn, same ▸ left⟩
  case holds => exact some

/-- The loop ends for every batch size but zero, and for zero without keys. -/
theorem writeLoopEnds_iff (keys : List UInt64) :
    WriteLoopEnds flags baseKeys tid outside keys ↔ flags.batch ≠ 0 ∨ keys = [] := by
  constructor
  · intro ends
    by_contra stuck
    simp only [not_or, not_not] at stuck
    obtain ⟨none, some⟩ := stuck
    obtain ⟨fuel, writer, returns, _⟩ := ends
    rw [writeLoop_endless baseKeys tid outside none some] at returns
    cases returns
  · intro proceeds
    cases proceeds with
    | inl positive =>
      have batch : 0 < flags.batch.toNat := by
        rw [Nat.pos_iff_ne_zero, ne_eq, ← UInt32.toNat_zero, UInt32.toNat_inj]
        exact positive
      obtain ⟨writer, returns, _, through⟩ :=
        writeLoop_run flags baseKeys tid outside batch keys
      exact ⟨_, writer, returns, by simp [Writer.ind, through]⟩
    | inr none =>
      subst none
      exact ⟨1, Writer.start flags outside [], rfl, rfl⟩

/-- One key and batches of no key. -/
theorem writeLoop_stuck :
    ¬ ∀ (flags : Flags) (baseKeys : UInt64) (tid : ℕ) (outside : Outside) (keys : List UInt64),
      WriteLoopEnds flags baseKeys tid outside keys := by
  intro ends
  obtain ⟨fuel, writer, returns, _⟩ := ends { batch := 0 } 0 0 .calm [1]
  rw [writeLoop_endless 0 0 .calm rfl (List.cons_ne_nil _ _)] at returns
  cases returns

end FdpRocks.Benchmark
