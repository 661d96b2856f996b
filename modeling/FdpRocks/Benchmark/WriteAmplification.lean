import FdpRocks.Library.Numerals

/-! # `PrintApplicationWriteAmplification`

The block of text that the benchmark prints from the three RocksDB tickers.
The counters are printed exactly; the megabytes and the amplification go
through doubles.
-/

namespace FdpRocks.Benchmark

open FdpRocks.Library.Numerals

/-- `BYTES_WRITTEN`, `FLUSH_WRITE_BYTES` and `COMPACT_WRITE_BYTES`. -/
structure Tickers where
  userBytes : UInt64
  flushBytes : UInt64
  compactBytes : UInt64
deriving DecidableEq

def megabytes (bytes : UInt64) : ℚ := roundDouble bytes.toNat / (1024 * 1024)

/-- `write_amp`; the sum is taken before it becomes a double, and wraps. -/
def writeAmp (tickers : Tickers) : ℚ :=
  if tickers.userBytes > 0 then
    roundDouble (roundDouble (tickers.flushBytes + tickers.compactBytes).toNat
      / roundDouble tickers.userBytes.toNat)
  else
    0

def printApplicationWriteAmplification (tickers : Tickers) : List Char :=
  "========== Application Write Amplification ==========\n".toList
    ++ ("  User bytes written (ingest):  ".toList ++ decimal tickers.userBytes.toNat
      ++ " (".toList ++ fixedPoint 2 (megabytes tickers.userBytes) ++ " MB)\n".toList)
    ++ ("  Flush bytes written:          ".toList ++ decimal tickers.flushBytes.toNat
      ++ " (".toList ++ fixedPoint 2 (megabytes tickers.flushBytes) ++ " MB)\n".toList)
    ++ ("  Compaction bytes written:     ".toList ++ decimal tickers.compactBytes.toNat
      ++ " (".toList ++ fixedPoint 2 (megabytes tickers.compactBytes) ++ " MB)\n".toList)
    ++ ("  Application write amplification: ".toList ++ fixedPoint 2 (writeAmp tickers)
      ++ " ( (flush + compact) / user )\n".toList)
    ++ "=====================================================\n\n".toList

/-! ## The printed numbers -/

theorem megabytes_nonneg (bytes : UInt64) : 0 ≤ megabytes bytes :=
  div_nonneg (roundDouble_nonneg (Nat.cast_nonneg _)) (by norm_num)

theorem writeAmp_nonneg (tickers : Tickers) : 0 ≤ writeAmp tickers := by
  unfold writeAmp
  split
  · apply roundDouble_nonneg
    apply div_nonneg <;> exact roundDouble_nonneg (Nat.cast_nonneg _)
  · exact le_refl 0

/-- Doubles of 64-bit counters stay below `2 ^ 65`, so seventeen characters are
    enough for their megabytes. -/
theorem megabytes_length (bytes : UInt64) :
    (fixedPoint 2 (megabytes bytes)).length ≤ 17 := by
  have bound : (bytes.toNat : ℚ) < 2 ^ 64 := by exact_mod_cast bytes.toNat_lt
  have rounded := roundDouble_le (Nat.cast_nonneg bytes.toNat : (0 : ℚ) ≤ bytes.toNat)
  have scaled : megabytes bytes * 10 ^ 2 < 10 ^ 16 - 1 := by
    unfold megabytes
    rw [div_mul_eq_mul_div, div_lt_iff₀ (by norm_num)]
    calc roundDouble bytes.toNat * 10 ^ 2 ≤ 2 * bytes.toNat * 10 ^ 2 := by linarith
      _ < 2 * 2 ^ 64 * 10 ^ 2 := by linarith
      _ ≤ (10 ^ 16 - 1) * (1024 * 1024) := by norm_num
  have small : (roundHalfEven (megabytes bytes * 10 ^ 2)).toNat < 10 ^ 16 := by
    have near := roundHalfEven_le (megabytes bytes * 10 ^ 2)
    have below : (roundHalfEven (megabytes bytes * 10 ^ 2) : ℚ) < 10 ^ 16 :=
      lt_of_le_of_lt near (by linarith)
    have cast : roundHalfEven (megabytes bytes * 10 ^ 2) < 10 ^ 16 := by exact_mod_cast below
    omega
  rw [fixedPoint_nonneg (megabytes_nonneg bytes)]
  have digits := decimal_length_le (by decide : 0 < 16) small
  obtain ⟨whole, fraction, text, _, _, _, _, count⟩ :=
    pointed_parts 2 (roundHalfEven (megabytes bytes * 10 ^ 2)).toNat
  rw [List.length_append] at count
  rw [text, List.length_append, List.length_cons]
  omega

theorem counter_length (bytes : UInt64) : (decimal bytes.toNat).length ≤ 20 := by
  have := bytes.toNat_lt
  exact decimal_length_le (by decide) (by omega)

end FdpRocks.Benchmark
