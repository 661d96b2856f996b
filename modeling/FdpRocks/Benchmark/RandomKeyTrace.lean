import FdpRocks.Library.Vectors

/-! # `RandomKeyTrace`

The key vector of the benchmark and the functions that make read workloads of
it.  Every access of a vector is checked: `none` is an index beyond its end.
Random draws are given from outside; what is printed about them is left out.
-/

namespace FdpRocks.Benchmark

open FdpRocks.Library.Loop FdpRocks.Library.Vectors

/-- The data members, under the source's names. -/
structure RandomKeyTrace where
  count : ℕ
  keys : List UInt64
  readKeys : List UInt64 := []
  readI : List ℕ := []
  readKeysDistributionV1 : List UInt64 := []
  readKeysDistributionV2 : List UInt64 := []
  readKeysDistributionV3 : List UInt64 := []
  readKeysDistributionV4 : List UInt64 := []

/-- A trace that was made of these keys, before any workload. -/
def RandomKeyTrace.fresh (keys : List UInt64) : RandomKeyTrace where
  count := keys.length
  keys := keys

/-- `zipfian_int_distribution<int> (1, bound, …)`: the constructor narrows the
    bound to an `int`. -/
def zipfianMax (bound : ℕ) : ℤ := (BitVec.ofNat 32 bound).toInt

/-- The random numbers of one call. -/
structure Draws where
  /-- What the distribution returns, draw by draw. -/
  samples : ℕ → ℕ
  /-- `std::random_shuffle`. -/
  shuffle : {Item : Type} → List Item → List Item
  shuffle_perm : ∀ {Item : Type} (items : List Item), (shuffle items).Perm items

/-- The first draws lie in the closed range that the distribution declares. -/
def Draws.Declared (draws : Draws) (bound used : ℕ) : Prop :=
  ∀ draw < used, 1 ≤ draws.samples draw ∧ (draws.samples draw : ℤ) ≤ zipfianMax bound

/-- One rank again and again, and a shuffle that moves nothing. -/
def Draws.always (rank : ℕ) : Draws where
  samples _ := rank
  shuffle := id
  shuffle_perm _ := List.Perm.refl _

instance (draws : Draws) (bound used : ℕ) : Decidable (draws.Declared bound used) :=
  inferInstanceAs (Decidable (∀ draw < used, _ ∧ _))

namespace RandomKeyTrace

/-! ## Shared loops -/

/-- `/`, which stops the process at a divisor of zero. -/
def divided (dividend divisor : ℕ) : Option ℕ :=
  if divisor = 0 then none else some (dividend / divisor)

/-- `read_i_[j] = distribution (generator)` for all `j`. -/
def drawAll (draws : Draws) (used : ℕ) (readI : List ℕ) : Option (List ℕ) :=
  forRange used (fun j readI => (put readI j (draws.samples j)).map .again) readI

/-- `segmentIndex[idx] = idx` for all `idx`. -/
def numberSegments (nSegments : ℕ) : Option (List ℕ) :=
  forRange nSegments (fun idx segmentIndex => (put segmentIndex idx idx).map .again)
    (resize 0 [] nSegments)

/-- `segmentIndex[sample - 1]`; below zero a `size_t` is beyond every vector. -/
def segmentOf (segmentIndex : List ℕ) (sample : ℕ) : Option ℕ :=
  if sample = 0 then none else segmentIndex[sample - 1]?

/-- The loops that copy the drawn segments one after another into a workload. -/
def copySegments (keys : List UInt64) (segmentIndex readI : List ℕ)
    (segmentLength tempReadDatasetLength : ℕ) (workload : List UInt64) : Option (List UInt64) :=
  forRange tempReadDatasetLength (fun j workload => do
    let segment ← segmentOf segmentIndex (← readI[j]?)
    let start := segment * segmentLength
    let workload ← forRange segmentLength (fun k workload => do
      let key ← keys[start + k]?
      (put workload (j * segmentLength + k) key).map .again) workload
    return .again workload) workload

/-! ## `CreateReadWorkloadWithZipfianDistribution` -/

/-- `read_keys_[j] = keys_[read_i_[j]]` for all `j`. -/
def copyRanks (keys : List UInt64) (readI : List ℕ) (readDatasetLength : ℕ)
    (readKeys : List UInt64) : Option (List UInt64) :=
  forRange readDatasetLength (fun j readKeys => do
    -- The ranks of the distribution start at one, and are indices here.
    let key ← keys[← readI[j]?]?
    (put readKeys j key).map .again) readKeys

def createReadWorkloadWithZipfianDistribution (trace : RandomKeyTrace) (draws : Draws)
    (readDatasetLength : ℕ) : Option RandomKeyTrace := do
  let readI ← drawAll draws readDatasetLength (resize 0 trace.readI readDatasetLength)
  let keys := draws.shuffle trace.keys
  let readKeys ← copyRanks keys readI readDatasetLength (resize 0 trace.readKeys readDatasetLength)
  return { trace with keys := keys, readKeys := readKeys, readI := readI }

/-! ## `CreateReadWorkloadWithInterval` -/

/-- The inner loop, with `read_keys_` and `cur_working_set_len`. -/
def strideTurn (trace : RandomKeyTrace) (readDatasetLength interval j : ℕ)
    (state : List UInt64 × ℕ) : Option (List UInt64 × ℕ) :=
  forRange (trace.count / interval) (fun k state =>
    if state.2 < readDatasetLength then do
      let key ← trace.keys[j + k * interval]?
      let readKeys ← put state.1 state.2 key
      let next := (readKeys, state.2 + 1)
      if next.2 ≥ readDatasetLength then return .done next else return .again next
    else
      return .again state) state

def createReadWorkloadWithInterval (trace : RandomKeyTrace) (readDatasetLength interval : ℕ) :
    Option RandomKeyTrace := do
  let filled ← forRange interval (fun j state => do
    let next ← trace.strideTurn readDatasetLength interval j state
    if next.2 ≥ readDatasetLength then return .done next else return .again next)
    (resize 0 trace.readKeys readDatasetLength, 0)
  return { trace with readKeys := filled.1 }

/-! ## `CreateReadWorkloadWithLocalSequential4Workloads` -/

/-- The last part of the keys is saved, the first moves behind it, and it is put in front. -/
def shiftPhases (phaseLength : ℕ) (keys : List UInt64) : Option (List UInt64) := do
  let temp ← sliceFrom keys (3 * phaseLength)
  let moved ← moveBackward keys 0 (3 * phaseLength) keys.length
  copyToStart temp moved

def createReadWorkloadWithLocalSequential4Workloads (trace : RandomKeyTrace) (draws : Draws)
    (readDatasetLength segmentLength : ℕ) : Option RandomKeyTrace := do
  let tempReadDatasetLength ← divided readDatasetLength segmentLength
  let nSegments ← divided trace.count segmentLength
  let segmentIndex := draws.shuffle (← numberSegments nSegments)
  let readI ← drawAll draws tempReadDatasetLength (resize 0 trace.readI tempReadDatasetLength)
  let copy := fun keys workload => copySegments keys segmentIndex readI segmentLength
    tempReadDatasetLength (resize 0 workload readDatasetLength)
  let phaseLength := trace.keys.length / 4
  let v1 ← copy trace.keys trace.readKeysDistributionV1
  let keys2 ← shiftPhases phaseLength trace.keys
  let v2 ← copy keys2 trace.readKeysDistributionV2
  let keys3 ← shiftPhases phaseLength keys2
  let v3 ← copy keys3 trace.readKeysDistributionV3
  let keys4 ← shiftPhases phaseLength keys3
  let v4 ← copy keys4 trace.readKeysDistributionV4
  return { trace with
    keys := keys4
    readKeys := resize 0 trace.readKeys readDatasetLength
    readI := readI
    readKeysDistributionV1 := v1
    readKeysDistributionV2 := v2
    readKeysDistributionV3 := v3
    readKeysDistributionV4 := v4 }

/-! ## `CreateReadWorkloadWithSegments` -/

/-- The draws are counted by segment, so every one of them is looked up at once. -/
def drawSegments (draws : Draws) (used : ℕ) (segmentIndex readI : List ℕ) : Option (List ℕ) :=
  forRange used (fun j readI => do
    let readI ← put readI j (draws.samples j)
    let _ ← segmentOf segmentIndex (← readI[j]?)
    return .again readI) readI

def createReadWorkloadWithSegments (trace : RandomKeyTrace) (draws : Draws)
    (readDatasetLength segmentLength : ℕ) (isSparseHotSpot : Bool) : Option RandomKeyTrace := do
  let tempReadDatasetLength ← divided readDatasetLength segmentLength
  let nSegments ← divided trace.count segmentLength
  let numbered ← numberSegments nSegments
  let segmentIndex := if isSparseHotSpot then draws.shuffle numbered else numbered
  let readI ← drawSegments draws tempReadDatasetLength segmentIndex
    (resize 0 trace.readI tempReadDatasetLength)
  let readKeys ← copySegments trace.keys segmentIndex readI segmentLength tempReadDatasetLength
    (resize 0 trace.readKeys readDatasetLength)
  return { trace with readKeys := readKeys, readI := readI }

end RandomKeyTrace

end FdpRocks.Benchmark
