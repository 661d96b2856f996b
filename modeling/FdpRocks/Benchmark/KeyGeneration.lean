import FdpRocks.Library.Loop
import FdpRocks.Library.Numerals
import FdpRocks.Benchmark.KeyOrder

/-! # Key generation

The three generators `PrepareShuffledKeys` chooses from.  Random draws come
from `RandomLibrary`, the part of the C++ standard library they use; the
weights of a discrete distribution are exact rationals.
-/

namespace FdpRocks.Benchmark

open FdpRocks.Library.Loop FdpRocks.Library.Numerals

/-- `<random>` and `std::shuffle`: engines are functions of their seed modulo
    `2 ^ 32`, and every draw is a function of the engine it advances. -/
structure RandomLibrary where
  Engine : Type
  mt19937 : UInt32 → Engine
  shuffle : Engine → List UInt64 → List UInt64 × Engine
  discreteDistribution : List ℚ → Engine → UInt64 × Engine
  uniformIntDistribution : UInt64 → UInt64 → Engine → UInt64 × Engine
  shuffle_perm : ∀ engine keys, (shuffle engine keys).1.Perm keys
  discrete_lt : ∀ weights engine, weights ≠ [] →
    (discreteDistribution weights engine).1.toNat < weights.length
  uniformInt_le : ∀ low high engine, low ≤ high →
    low ≤ (uniformIntDistribution low high engine).1 ∧
      (uniformIntDistribution low high engine).1 ≤ high

/-- The library whose draws are all the least possible ones. -/
def RandomLibrary.still : RandomLibrary where
  Engine := Unit
  mt19937 := fun _ => ()
  shuffle := fun engine keys => (keys, engine)
  discreteDistribution := fun _ engine => (0, engine)
  uniformIntDistribution := fun low _ engine => (low, engine)
  shuffle_perm := fun _ keys => List.Perm.refl keys
  discrete_lt := fun _ _ some => List.length_pos_of_ne_nil some
  uniformInt_le := fun low _ _ ordered => ⟨UInt64.le_refl low, ordered⟩

def fixedSeed : UInt64 := 0x1234567890ABCDEF

/-! ## Uniform keys -/

/-- One turn of `for (key = start_key; key <= end_key; ++key)`, in wrapping
    64-bit arithmetic. -/
def rangeTurn (endKey : UInt64) : UInt64 × List UInt64 → Turn (UInt64 × List UInt64) (List UInt64)
  | (key, keys) => if key ≤ endKey then .again (key + 1, keys ++ [key]) else .done keys

def shuffleSeed (flags : Flags) (tid : UInt32) : UInt64 :=
  let shuffleSeed := fixedSeed + tid.toUInt64
  if "random_seed".toList.isPrefixOf flags.keySort.toList then
    let seedStr := flags.keySort.toList.drop 11
    if seedStr ≠ [] then
      match stoull seedStr with
      | some seedOffset => fixedSeed + tid.toUInt64 + seedOffset * 0x1000000
      | none => shuffleSeed
    else
      shuffleSeed
  else
    shuffleSeed

/-- The keys of one thread and the line reporting them. -/
structure Generated where
  keys : List UInt64
  stderr : String

def uniformStart (keysPerThread : UInt64) (tid : UInt32) : UInt64 :=
  tid.toUInt64 * keysPerThread + 1

def uniformEnd (keysPerThread threadKeyCount : UInt64) (tid : UInt32) : UInt64 :=
  uniformStart keysPerThread tid + threadKeyCount - 1

/-- The order in which `key_sort` asks for a range of keys. -/
def sortKeys (library : RandomLibrary) (flags : Flags) (tid : UInt32) (keys : List UInt64) :
    List UInt64 :=
  if flags.keySort = "ascending" then
    keys
  else if flags.keySort = "descending" then
    keys.reverse
  else
    (library.shuffle (library.mt19937 (shuffleSeed flags tid).toUInt32) keys).1

def sortLabel (flags : Flags) : String :=
  if flags.keySort = "ascending" ∨ flags.keySort = "descending" then
    flags.keySort
  else
    "sort=" ++ flags.keySort

def generateUniformKeys (library : RandomLibrary) (flags : Flags) (fuel : Nat)
    (keysPerThread threadKeyCount : UInt64) (tid : UInt32) : Option Generated := do
  let startKey := uniformStart keysPerThread tid
  let endKey := uniformEnd keysPerThread threadKeyCount tid
  let keys ← run (rangeTurn endKey) fuel (startKey, [])
  return ⟨sortKeys library flags tid keys,
    "Thread " ++ toString tid ++ ": generated " ++ toString threadKeyCount
      ++ " keys (uniform, range [" ++ toString startKey ++ ", " ++ toString endKey ++ "], "
      ++ sortLabel flags ++ ")\n"⟩

/-! ## Zipfian keys -/

/-- The weights `1 / (k ^ s * H)` of the ranks `1..size`, `s` being `1.0`. -/
def rankWeights (size : Nat) : List ℚ :=
  let harmonicSum := ((List.range size).map fun k => 1 / ((k : ℚ) + 1)).sum
  (List.range size).map fun k => 1 / (((k : ℚ) + 1) * harmonicSum)

def normalize (weights : List ℚ) : List ℚ :=
  weights.map (· / weights.sum)

/-- `count` draws in a row. -/
def drawKeys {Engine : Type} (next : Engine → UInt64 × Engine) : Nat → Engine → List UInt64
  | 0, _ => []
  | count + 1, engine => (next engine).1 :: drawKeys next count (next engine).2

def zipfianKeySpace (flags : Flags) : UInt64 :=
  if flags.num / 4 = 0 then 1 else flags.num / 4

/-- `weights[0]` repeats the weight of rank 1. -/
def zipfianWeights (keySpaceSize : Nat) : List ℚ :=
  normalize ((rankWeights keySpaceSize).take 1 ++ rankWeights keySpaceSize)

def generateZipfianKeys (library : RandomLibrary) (flags : Flags) (tid : Int32)
    (keyCount : UInt64) : List UInt64 :=
  let weights := zipfianWeights (zipfianKeySpace flags).toNat
  let engine := library.mt19937 (fixedSeed + tid.toInt64.toUInt64).toUInt32
  drawKeys (library.discreteDistribution weights) keyCount.toNat engine

/-! ## Hotspot keys -/

def hotspotKeySpaceSize : UInt64 := 60000000
def numHotspots : UInt64 := 60
def hotspotSize : UInt64 := 1000000
def keysPerHotspot : UInt64 := 4000000

/-- `hotspot_keys`, one bucket for each hotspot and one for the overflow. -/
structure HotspotState (Engine : Type) where
  bucket : Nat → List UInt64
  engine : Engine

def HotspotState.push {Engine : Type} (state : HotspotState Engine) (hotspotId : UInt64)
    (draw : UInt64 × Engine) : HotspotState Engine :=
  ⟨Function.update state.bucket hotspotId.toNat (state.bucket hotspotId.toNat ++ [draw.1]), draw.2⟩

def hotspotDraw (library : RandomLibrary) (weights : List ℚ) (keyIdx : UInt64)
    (state : HotspotState library.Engine) : HotspotState library.Engine :=
  let hotspotId := keyIdx / keysPerHotspot
  if numHotspots ≤ hotspotId then
    state.push numHotspots
      (library.uniformIntDistribution 0 (hotspotKeySpaceSize - 1) state.engine)
  else
    let hotspotStart := hotspotId * hotspotSize
    let offsetInHotspot := library.discreteDistribution weights state.engine
    state.push hotspotId (hotspotStart + offsetInHotspot.1, offsetInHotspot.2)

/-- `remaining` turns of the loop over `key_idx`. -/
def hotspotDraws (library : RandomLibrary) (weights : List ℚ) :
    Nat → UInt64 → HotspotState library.Engine → HotspotState library.Engine
  | 0, _, state => state
  | remaining + 1, keyIdx, state =>
    hotspotDraws library weights remaining (keyIdx + 1) (hotspotDraw library weights keyIdx state)

/-- Shuffle the buckets that hold keys and append them in order. -/
def joinBuckets (library : RandomLibrary) (bucket : Nat → List UInt64) :
    List Nat → library.Engine → List UInt64
  | [], _ => []
  | hotspotId :: rest, shuffleGen =>
    if bucket hotspotId = [] then
      joinBuckets library bucket rest shuffleGen
    else
      let shuffled := library.shuffle shuffleGen (bucket hotspotId)
      shuffled.1 ++ joinBuckets library bucket rest shuffled.2

def generateHotspotZipfianKeys (library : RandomLibrary) (flags : Flags) (tid : UInt32)
    (keyCount : UInt64) : List UInt64 :=
  let weights := normalize (rankWeights hotspotSize.toNat)
  let threadStartKeyIdx := tid.toUInt64 * (flags.num / flags.workerThreads.toUInt64)
  let threadEndKeyIdx := threadStartKeyIdx + keyCount
  let start : HotspotState library.Engine :=
    ⟨fun _ => [], library.mt19937 (fixedSeed + tid.toUInt64).toUInt32⟩
  let drawn := hotspotDraws library weights (threadEndKeyIdx.toNat - threadStartKeyIdx.toNat)
    threadStartKeyIdx start
  joinBuckets library drawn.bucket (List.range (numHotspots.toNat + 1))
    (library.mt19937 (fixedSeed + tid.toUInt64 + 0x1000).toUInt32)

end FdpRocks.Benchmark
