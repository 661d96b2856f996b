import FdpRocks.Library.Vectors
import FdpRocks.Library.Words

/-! # The layout of a value

`DoSimpleRandomWrite` sizes a value by `value_size_`, an `int` that the 64-bit
flag was narrowed into, and copies a seed and the key into it.  A byte stored
beyond the end is no part of what is put; only its offset is kept.
-/

namespace FdpRocks.Benchmark

open FdpRocks.Library.Vectors FdpRocks.Library.Words

/-! ## The size -/

/-- `value_size_ (FLAGS_value_size)`. -/
def valueSize (flag : UInt64) : Int32 := flag.toUInt32.toInt32

/-- `static_cast<size_t>(value_size_)`, which `resize` is also called with. -/
def asSize (size : Int32) : UInt64 := size.toInt64.toUInt64

/-- Largest size of a `std::string`: an `int` reaches no further, and a
    negative one is beyond it when it is taken for a `size_t`. -/
structure StringSizes where
  largest : ℕ
  reached : 2 ^ 31 ≤ largest
  ends : largest < 2 ^ 64 - 2 ^ 31

/-- `resize` of an empty string, which throws beyond the largest size. -/
def StringSizes.resize (sizes : StringSizes) (size : UInt64) : Option (List UInt8) :=
  if size.toNat ≤ sizes.largest then some (List.replicate size.toNat 0) else none

/-! ## One value -/

structure Record where
  key : UInt64
  valueSeed : UInt64
  /-- The string that is put. -/
  value : List UInt8
  /-- The offset of every byte that was stored into it. -/
  stored : List ℕ := []

def Record.memcpy (record : Record) (offset : ℕ) (bytes : List UInt8) : Record :=
  { record with
    value := overwrite record.value offset bytes
    stored := record.stored ++ List.range' offset bytes.length }

/-- The value of one key; `none` is an exception, and nothing is put. -/
def makeRecord (order : ByteOrder) (sizes : StringSizes) (flag key valueSeed : UInt64) :
    Option Record := do
  let size := asSize (valueSize flag)
  let value ← sizes.resize size
  let blank : Record := { key := key, valueSeed := valueSeed, value := value }
  let seeded := blank.memcpy 0 (wordBytes order valueSeed)
  if size > 8 then return seeded.memcpy 8 (wordBytes order key) else return seeded

/-- The values that a thread puts for its keys, each with its seed; an exception ends it. -/
def putRecords (order : ByteOrder) (sizes : StringSizes) (flag : UInt64) :
    List (UInt64 × UInt64) → List Record
  | [] => []
  | (key, valueSeed) :: draws =>
    match makeRecord order sizes flag key valueSeed with
    | none => []
    | some record => record :: putRecords order sizes flag draws

/-- A value as long as the flag says, with every store inside of it. -/
structure Record.LaidOut (order : ByteOrder) (flag : UInt64) (record : Record) : Prop where
  length : record.value.length = flag.toNat
  stored : ∀ offset ∈ record.stored, offset < flag.toNat
  seed : 8 ≤ flag.toNat → record.value.take 8 = wordBytes order record.valueSeed
  key : 16 ≤ flag.toNat → (record.value.drop 8).take 8 = wordBytes order record.key

/-- Sizes that both copies fit, or only the seed and no key is copied. -/
def LayoutFits (flag : UInt64) : Prop := flag.toNat = 8 ∨ 16 ≤ flag.toNat ∧ flag.toNat < 2 ^ 31

/-- Sizes that `value_size_` holds as a negative number. -/
def NegativeSize (flag : UInt64) : Prop := 2 ^ 31 ≤ flag.toNat % 2 ^ 32

instance (flag : UInt64) : Decidable (LayoutFits flag) := inferInstanceAs (Decidable (_ ∨ _))

instance (flag : UInt64) : Decidable (NegativeSize flag) := inferInstanceAs (Decidable (_ ≤ _))

/-! ## Sizes that are narrowed -/

theorem toNat_asSize_valueSize (flag : UInt64) :
    (asSize (valueSize flag)).toNat =
      flag.toNat % 2 ^ 32 + if NegativeSize flag then 2 ^ 64 - 2 ^ 32 else 0 := by
  have value : (asSize (valueSize flag)).toNat =
      ((flag.toBitVec.setWidth 32).signExtend 64).toNat := rfl
  rw [value, BitVec.toNat_signExtend]
  have low : flag.toNat % 2 ^ 32 % 2 ^ 64 = flag.toNat % 2 ^ 32 := by omega
  by_cases negative : 2 ^ 31 ≤ flag.toNat % 2 ^ 32
  · simp [NegativeSize, BitVec.msb_eq_decide, low, negative, -Nat.reducePow]
  · simp [NegativeSize, BitVec.msb_eq_decide, low, negative, -Nat.reducePow]

theorem resize_valueSize (sizes : StringSizes) (flag : UInt64) :
    sizes.resize (asSize (valueSize flag)) =
      if NegativeSize flag then none else some (List.replicate (flag.toNat % 2 ^ 32) 0) := by
  have reached := sizes.reached
  have ends := sizes.ends
  have size := toNat_asSize_valueSize flag
  by_cases negative : NegativeSize flag
  · rw [if_pos negative] at size
    have beyond : ¬ (asSize (valueSize flag)).toNat ≤ sizes.largest := by
      simp only [NegativeSize] at negative
      omega
    rw [StringSizes.resize, if_neg beyond, if_pos negative]
  · rw [if_neg negative, Nat.add_zero] at size
    have inside : flag.toNat % 2 ^ 32 ≤ sizes.largest := by
      simp only [NegativeSize] at negative
      omega
    rw [StringSizes.resize, size, if_pos inside, if_neg negative]

theorem makeRecord_of_negative {flag : UInt64} (negative : NegativeSize flag) (order : ByteOrder)
    (sizes : StringSizes) (key valueSeed : UInt64) :
    makeRecord order sizes flag key valueSeed = none := by
  simp [makeRecord, resize_valueSize, negative]

/-! ## What is put -/

section Put

variable (order : ByteOrder) (sizes : StringSizes) {flag : UInt64} (key valueSeed : UInt64)

/-- The value of a size that is not negative, after the copy of the seed. -/
def seededRecord (flag : UInt64) : Record :=
  { key := key, valueSeed := valueSeed,
    value := overwrite (List.replicate (flag.toNat % 2 ^ 32) 0) 0 (wordBytes order valueSeed),
    stored := List.range' 0 8 }

theorem makeRecord_of_size (size : ¬ NegativeSize flag) :
    makeRecord order sizes flag key valueSeed =
      some (if 8 < flag.toNat % 2 ^ 32
        then (seededRecord order key valueSeed flag).memcpy 8 (wordBytes order key)
        else seededRecord order key valueSeed flag) := by
  have long : asSize (valueSize flag) > 8 ↔ 8 < flag.toNat % 2 ^ 32 := by
    rw [gt_iff_lt, UInt64.lt_iff_toNat_lt, toNat_asSize_valueSize, if_neg size]
    rfl
  by_cases guarded : 8 < flag.toNat % 2 ^ 32
  · simp [makeRecord, resize_valueSize, size, long, guarded, seededRecord, Record.memcpy,
      -Nat.reducePow]
  · simp [makeRecord, resize_valueSize, size, long, guarded, seededRecord, Record.memcpy,
      -Nat.reducePow]

theorem seededRecord_laidOut (fits : flag.toNat = 8) :
    (seededRecord order key valueSeed flag).LaidOut order flag where
  length := by simp [seededRecord, fits]
  stored := by simp [seededRecord, fits]
  seed := by
    intro _
    have slice := @slice_overwrite _ (List.replicate 8 0) (wordBytes order valueSeed) 0 (by simp)
    simpa [seededRecord, fits] using slice
  key := by
    intro room
    omega

theorem memcpy_laidOut (room : 16 ≤ flag.toNat) (small : flag.toNat < 2 ^ 31) :
    ((seededRecord order key valueSeed flag).memcpy 8 (wordBytes order key)).LaidOut order flag := by
  have size : flag.toNat % 2 ^ 32 = flag.toNat := by omega
  refine { length := ?length, stored := ?stored, seed := ?seed, key := ?key }
  case length => simp [Record.memcpy, seededRecord, size, -Nat.reducePow]
  case stored =>
    intro offset member
    have inside : offset < 8 ∨ 8 ≤ offset ∧ offset < 8 + 8 := by
      simpa [Record.memcpy, seededRecord, List.mem_range'_1] using member
    omega
  case seed =>
    intro _
    -- The key is copied behind the seed and leaves it as it is.
    have slice := @slice_overwrite _ (List.replicate flag.toNat 0) (wordBytes order valueSeed) 0
      (by simp; omega)
    rw [wordBytes_length] at slice
    simp only [Record.memcpy, seededRecord, size, take_overwrite _ le_rfl]
    exact slice
  case key =>
    intro _
    have slice := @slice_overwrite _ (seededRecord order key valueSeed flag).value
      (wordBytes order key) 8 (by simp [seededRecord]; omega)
    rw [wordBytes_length] at slice
    exact slice

/-- One value is laid out for the sizes that both copies fit, and no others. -/
theorem makeRecord_laidOut_iff (size : ¬ NegativeSize flag) :
    ∃ record, makeRecord order sizes flag key valueSeed = some record ∧
      record.key = key ∧ record.valueSeed = valueSeed ∧
      (record.LaidOut order flag ↔ LayoutFits flag) := by
  refine ⟨_, makeRecord_of_size order sizes key valueSeed size, ?_⟩
  by_cases guarded : 8 < flag.toNat % 2 ^ 32
  · rw [if_pos guarded]
    refine ⟨rfl, rfl, ?_, ?_⟩
    · intro laidOut
      have length : flag.toNat % 2 ^ 32 = flag.toNat := by
        simpa [Record.memcpy, seededRecord] using laidOut.length
      have last := laidOut.stored 15 (by simp [Record.memcpy, seededRecord])
      simp only [NegativeSize] at size
      exact Or.inr ⟨last, by omega⟩
    · intro fits
      cases fits with
      | inl seedOnly => omega
      | inr both => exact memcpy_laidOut order key valueSeed both.1 both.2
  · rw [if_neg guarded]
    refine ⟨rfl, rfl, ?_, ?_⟩
    · intro laidOut
      have length : flag.toNat % 2 ^ 32 = flag.toNat := by
        simpa [seededRecord] using laidOut.length
      have last := laidOut.stored 7 (by simp [seededRecord])
      exact Or.inl (by omega)
    · intro fits
      cases fits with
      | inl seedOnly => exact seededRecord_laidOut order key valueSeed seedOnly
      | inr both => omega

end Put

/-! ## A whole thread -/

section Thread

variable (order : ByteOrder) (sizes : StringSizes) {flag : UInt64}

theorem putRecords_of_negative (negative : NegativeSize flag) (draws : List (UInt64 × UInt64)) :
    putRecords order sizes flag draws = [] := by
  cases draws with
  | nil => rfl
  | cons draw draws => simp [putRecords, makeRecord_of_negative negative]

/-- Every key is put with its seed, in their order, when a size is not negative. -/
theorem putRecords_of_size (size : ¬ NegativeSize flag) (draws : List (UInt64 × UInt64)) :
    (putRecords order sizes flag draws).map (fun record => (record.key, record.valueSeed)) = draws ∧
      ∀ record ∈ putRecords order sizes flag draws, record.LaidOut order flag ↔ LayoutFits flag := by
  induction draws with
  | nil => simp [putRecords]
  | cons draw draws inductionHypothesis =>
    obtain ⟨key, valueSeed⟩ := draw
    obtain ⟨inOrder, laidOut⟩ := inductionHypothesis
    obtain ⟨record, put, sameKey, sameSeed, here⟩ :=
      makeRecord_laidOut_iff order sizes key valueSeed size
    simp only [putRecords, put, List.map_cons, List.forall_mem_cons]
    exact ⟨by rw [inOrder, sameKey, sameSeed], here, laidOut⟩

/-- Every value put is laid out as asked for sizes that both copies fit, and
    where no value is put at all. -/
theorem putRecords_laidOut_iff (draws : List (UInt64 × UInt64)) :
    ((∀ record ∈ putRecords order sizes flag draws, record.LaidOut order flag) ↔
        draws = [] ∨ NegativeSize flag ∨ LayoutFits flag) ∧
      ((putRecords order sizes flag draws).map (fun record => (record.key, record.valueSeed)) = draws ↔
        draws = [] ∨ ¬ NegativeSize flag) := by
  by_cases negative : NegativeSize flag
  · simp [putRecords_of_negative order sizes negative, negative, eq_comm]
  · obtain ⟨inOrder, laidOut⟩ := putRecords_of_size order sizes negative draws
    refine ⟨?_, by simp [inOrder, negative]⟩
    cases draws with
    | nil => simp [putRecords]
    | cons draw draws =>
      obtain ⟨first, member⟩ : ∃ record, record ∈ putRecords order sizes flag (draw :: draws) := by
        apply List.exists_mem_of_ne_nil
        intro empty
        simp [empty] at inOrder
      constructor
      · intro all
        exact Or.inr (Or.inr ((laidOut first member).mp (all first member)))
      · intro condition record here
        simp only [reduceCtorEq, negative, false_or] at condition
        exact (laidOut record here).mpr condition

/-- The largest `std::string` of a 64-bit GNU library. -/
def StringSizes.gnu : StringSizes where
  largest := 2 ^ 62 - 1
  reached := by decide
  ends := by decide

/-- A seed that is longer than the value, a key of which half fits, and a size
    beyond 32 bits. -/
theorem putRecords_not_laidOut :
    (¬ ∀ record ∈ putRecords .little .gnu 4 [(7, 9)], record.LaidOut .little 4) ∧
    (¬ ∀ record ∈ putRecords .little .gnu 12 [(7, 9)], record.LaidOut .little 12) ∧
    ¬ ∀ record ∈ putRecords .little .gnu 4294967312 [(7, 9)], record.LaidOut .little 4294967312 := by
  refine ⟨?overrun, ?cut, ?narrowed⟩
  case overrun =>
    intro all
    have inside := (all _ List.mem_cons_self).stored 7 (by decide)
    exact absurd inside (by decide)
  case cut =>
    intro all
    have inside := (all _ List.mem_cons_self).stored 15 (by decide)
    exact absurd inside (by decide)
  case narrowed =>
    intro all
    have length := (all _ List.mem_cons_self).length
    exact absurd length (by decide)

end Thread

end FdpRocks.Benchmark
