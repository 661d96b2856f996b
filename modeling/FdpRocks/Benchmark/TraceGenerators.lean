import FdpRocks.Library.Double
import FdpRocks.Library.Sampling

/-! # Trace generators

The generators of bounded numbers, with doubles as exact real numbers: `none`
is a quotient, a power, a conversion or a remainder that is not defined.  The
random number of a call is given from outside.  The build leaves assertions
out.
-/

namespace FdpRocks.Benchmark

open FdpRocks.Library FdpRocks.Library.Loop FdpRocks.Library.Sampling

/-! ## `TraceUniform` -/

structure TraceUniform where
  min : UInt64
  interval : ℝ

noncomputable def traceUniform (minimum maximum : UInt64) : TraceUniform where
  min := minimum
  interval := (maximum - minimum).toNat

/-- `randomDouble` lies between zero and one, and may be either. -/
noncomputable def TraceUniform.next (generator : TraceUniform) (randomDouble : ℝ) :
    Option UInt64 := do
  let off ← truncate (randomDouble * generator.interval)
  return generator.min + off

/-! ## `TraceNormal` -/

structure TraceNormal where
  min : UInt64
  max : UInt64
  /-- The default is 21.0. -/
  offset : ℝ

def traceNormal (minimum maximum : UInt64) (offset : ℝ) : TraceNormal where
  min := minimum
  max := maximum
  offset := offset

/-- One draw of the normal distribution: it is drawn again outside of `[0, 6]`. -/
noncomputable def TraceNormal.nextTurn (generator : TraceNormal) (draws : ℕ → ℝ) (draw : ℕ) :
    Turn ℕ (Option UInt64) :=
  let rnd := draws draw + generator.offset
  if rnd < 0 ∨ rnd > 6 then .again (draw + 1)
  else .done (truncate (rnd * ((generator.max - generator.min).toNat / 6)))

noncomputable def TraceNormal.next (generator : TraceNormal) (draws : ℕ → ℝ) (fuel : ℕ) :
    Option (Option UInt64) :=
  run (generator.nextTurn draws) fuel 0

/-! ## `TraceZipfian` -/

/-- Sums of the first `zetalistStep` terms, twice as many and so on, as the bits
    of doubles. -/
def zetalistU64 : List UInt64 :=
  [0,
    0x4040437dd948c1d9,
    0x4040b8f8009bce85,
    0x4040fe1121e564d6,
    0x40412f435698cdf5,
    0x404155852507a510,
    0x404174d7818477a7,
    0x40418f5e593bd5a9,
    0x4041a6614fb930fd,
    0x4041bab40ad5ec98,
    0x4041cce73d363e24,
    0x4041dd6239ebabc3,
    0x4041ec715f5c47be,
    0x4041fa4eba083897,
    0x4042072772fe12bd,
    0x4042131f5e380b72,
    0x40421e53630da013]

def zetalistDouble (zlid : ℕ) : ℚ := Double.ofBits (zetalistU64.getD zlid 0)

def zetalistStep : ℕ := 0x10000000000

def zetalistCount : ℕ := 16

noncomputable def zetaRange (start count : ℕ) (theta : ℝ) : ℝ :=
  (List.range count).foldl (fun sum i => sum + 1 / ((start + i + 1 : ℕ) : ℝ) ^ theta) 0

noncomputable def zeta (n : ℕ) (theta : ℝ) : ℝ :=
  let zlid0 := n / zetalistStep
  let zlid := if zlid0 > zetalistCount then zetalistCount else zlid0
  let start := zlid * zetalistStep
  zetalistDouble zlid + zetaRange start (n - start) theta

/-- FNV-1a of the eight bytes of a word. -/
def fnvHash64 (value : UInt64) : UInt64 :=
  let hashed := (List.range 8).foldl
    (fun (state : UInt64 × UInt64) _ =>
      ((state.1 ^^^ (state.2 &&& 0x00ff)) * 1099511628211, state.2 >>> 8))
    (0xCBF29CE484222325, value)
  hashed.1

example : fnvHash64 0 = 0xa8c7f832281a39c5 := by decide

structure TraceZipfian where
  nrItems : UInt64
  base : UInt64
  min : UInt64
  theta : ℝ
  alpha : Option ℝ
  zetan : ℝ
  eta : Option ℝ
  /-- `range_`, the maximum. -/
  range : UInt64

noncomputable def traceZipfian (minimum maximum : UInt64) (zipfianConstant : ℝ) : TraceZipfian :=
  let items := maximum - minimum + 1
  let zetan := zeta items.toNat zipfianConstant
  { nrItems := items
    base := minimum
    min := minimum
    theta := zipfianConstant
    alpha := quotient 1 (1 - zipfianConstant)
    zetan := zetan
    eta := quotient (1 - (2 / items.toNat) ^ (1 - zipfianConstant))
      (1 - zeta 2 zipfianConstant / zetan)
    range := maximum }

noncomputable def TraceZipfian.nextRaw (generator : TraceZipfian) (u : ℝ) : Option UInt64 :=
  let uz := u * generator.zetan
  if uz < 1 then some (generator.base + 0)
  else if uz < 1 + 0.5 ^ generator.theta then some (generator.base + 1)
  else do
    let x := generator.nrItems.toNat *
      (← power ((← generator.eta) * (u - 1) + 1) (← generator.alpha))
    return generator.base + (← truncate x)

noncomputable def TraceZipfian.next (generator : TraceZipfian) (u : ℝ) : Option UInt64 := do
  let z ← generator.nextRaw u
  let xz := generator.min + (← wordRemainder (fnvHash64 z) generator.nrItems)
  wordRemainder xz generator.range

/-! ## When bounds are kept -/

/-- A value that is defined and within the bounds. -/
def InBounds (minimum maximum : UInt64) (result : Option UInt64) : Prop :=
  ∃ value, result = some value ∧ minimum ≤ value ∧ value ≤ maximum

/-- Draws that end the loop of `TraceNormal`: the first of them that it does not reject. -/
def FirstAccepted (draws : ℕ → ℝ) (offset rnd : ℝ) : Prop :=
  ∃ draw, draws draw + offset = rnd ∧ (0 ≤ rnd ∧ rnd ≤ 6) ∧
    ∀ earlier < draw, draws earlier + offset < 0 ∨ draws earlier + offset > 6

/-- The line that a draw above the first two ranks is put on; its slope is `eta`. -/
noncomputable def rankLine (items : ℕ) (theta u : ℝ) : ℝ :=
  (1 - (2 / items) ^ (1 - theta)) / (1 - zeta 2 theta / zeta items theta) * (u - 1) + 1

/-- The numbers between zero and one at which a rank of the items is drawn. -/
def RankDrawn (items : ℕ) (theta u : ℝ) : ℕ → Prop
  | 0 => u * zeta items theta < 1
  | 1 => 1 ≤ u * zeta items theta ∧ u * zeta items theta < 1 + 0.5 ^ theta
  | rank => 1 + 0.5 ^ theta ≤ u * zeta items theta ∧
    rank ≤ items * rankLine items theta u ^ (1 / (1 - theta)) ∧
    items * rankLine items theta u ^ (1 / (1 - theta)) < rank + 1

/-- What `TraceNormal` needs, since it does not add the minimum. -/
def NormalFits (minimum maximum : UInt64) (offset : ℝ) (draws : ℕ → ℝ) : Prop :=
  ∃ rnd, FirstAccepted draws offset rnd ∧
    minimum.toNat * 6 ≤ rnd * (maximum - minimum).toNat

/-- What `TraceZipfian` needs: a maximum to divide by, and a number of items
    other than two at the upper end of the draw; the remainder by the maximum
    also turns the maximum to zero. -/
def ZipfianFits (minimum maximum : UInt64) (theta u : ℝ) : Prop :=
  maximum ≠ 0 ∧ ¬ (maximum - minimum = 1 ∧ u = 1) ∧
    (minimum ≠ 0 → ∀ rank, RankDrawn (maximum - minimum + 1).toNat theta u rank →
      fnvHash64 (minimum + UInt64.ofNat rank) % (maximum - minimum + 1) ≠ maximum - minimum)

end FdpRocks.Benchmark
