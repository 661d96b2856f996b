import FdpRocks.Benchmark.IndexKeySoundness
import FdpRocks.Library.Words

/-! # Keys as bytes

`TransformKey` swaps the bytes of a key before it stores the key in the order
of the machine, so that on a little-endian machine the most significant byte
comes first and `Slice::compare` orders keys as numbers.

* `transformKey_stores` — the bytes in the object.
* `Slice.compare_sign` — the comparison is the lexicographic order.
* `transformKey_order` — the order of the keys.
-/

namespace FdpRocks.Benchmark

open FdpRocks.Library.Words

/-! ## `TransformKey` -/

/-- `__builtin_bswap64`: the bytes of the word in reversed order. -/
def bswap64 (word : UInt64) : UInt64 := bytesWord .little (wordBytes .little word).reverse

namespace KeyMemory

variable {Id : Type} [DecidableEq Id]

/-- A store through `data_`; there is none through a pointer that owns nothing. -/
def store (memory : KeyMemory Id) (key : IndexKey Id) (bytes : List UInt8) :
    Option (KeyMemory Id) :=
  match key.data with
  | .null => none
  | .stack object =>
    (memory.objects object).map fun owner =>
      memory.put object { owner with stackKey := owner.stackKey.copy (bytes.map some) }
  | .heap block =>
    memory.blocks[block]?.map fun old =>
      { memory with blocks := memory.blocks.set block (bytes.map some ++ old.drop bytes.length) }

/-- `TransformKey` of an object that is alive; `&index_key[0]` needs a byte to
    point to. -/
def transformKey (order : ByteOrder) (memory : KeyMemory Id) (rid : UInt64) (object : Id)
    (key : IndexKey Id) : Option (KeyMemory Id) :=
  let sized := memory.setKeyLen object key 8
  (sized.objects object).bind fun indexKey =>
    if 0 < indexKey.len then sized.store indexKey (wordBytes order (bswap64 rid)) else none

end KeyMemory

/-! ## `Slice` -/

/-- `memcmp` of `count` bytes: the difference of the first two that differ. -/
def memcmp : ℕ → List UInt8 → List UInt8 → ℤ
  | count + 1, left :: lefts, right :: rights =>
    if left = right then memcmp count lefts rights else (left.toNat : ℤ) - right.toNat
  | _, _, _ => 0

def Slice.compare (left right : List UInt8) : ℤ :=
  let minLen := if left.length < right.length then left.length else right.length
  let r := memcmp minLen left right
  if r = 0 then
    if left.length < right.length then -1 else if left.length > right.length then 1 else r
  else r

theorem Slice.compare_nil_cons (right : UInt8) (rights : List UInt8) :
    Slice.compare [] (right :: rights) = -1 := by
  simp [Slice.compare, memcmp]

theorem Slice.compare_cons_nil (left : UInt8) (lefts : List UInt8) :
    Slice.compare (left :: lefts) [] = 1 := by
  simp [Slice.compare, memcmp]

theorem Slice.compare_cons (left right : UInt8) (lefts rights : List UInt8) :
    Slice.compare (left :: lefts) (right :: rights)
      = if left = right then Slice.compare lefts rights else (left.toNat : ℤ) - right.toNat := by
  have shorter : (if lefts.length < rights.length then lefts.length + 1 else rights.length + 1)
      = (if lefts.length < rights.length then lefts.length else rights.length) + 1 := by
    split <;> rfl
  simp only [Slice.compare, List.length_cons, Nat.add_lt_add_iff_right, gt_iff_lt, shorter, memcmp]
  by_cases same : left = right
  · simp [same]
  · have different : (left.toNat : ℤ) - right.toNat ≠ 0 := by
      intro zero
      have values : left.toNat = right.toNat := by omega
      exact same (UInt8.toNat_inj.mp values)
    simp [same, different]

/-- Negative, zero or positive as the bytes are less, the same or greater. -/
theorem Slice.compare_sign (left right : List UInt8) :
    (Slice.compare left right < 0 ↔ left < right) ∧
      (Slice.compare left right = 0 ↔ left = right) ∧
      (0 < Slice.compare left right ↔ right < left) := by
  induction left generalizing right with
  | nil =>
    cases right with
    | nil => simp [Slice.compare, memcmp]
    | cons byte right => simp [Slice.compare_nil_cons]
  | cons first left inductionHypothesis =>
    cases right with
    | nil => simp [Slice.compare_cons_nil]
    | cons second right =>
      obtain ⟨less, equal, greater⟩ := inductionHypothesis right
      rw [Slice.compare_cons, List.cons_lt_cons_iff, List.cons_lt_cons_iff, List.cons_eq_cons]
      -- The first byte decides unless it is the same on both sides.
      by_cases same : first = second
      · simp [same, less, equal, greater]
      · have apart : first.toNat ≠ second.toNat := fun values => same (UInt8.toNat_inj.mp values)
        simp only [same, Ne.symm same, if_false, false_and, or_false, UInt8.lt_iff_toNat_lt, iff_false]
        omega

/-! ## The bytes of a key -/

/-- On a little-endian machine the swapped word is stored most significant byte
    first. -/
theorem wordBytes_bswap64 (rid : UInt64) :
    wordBytes .little (bswap64 rid) = (wordBytes .little rid).reverse := by
  rw [bswap64, wordBytes_bytesWord _ (by simp)]

namespace KeyMemory

variable {Id : Type} [DecidableEq Id] {memory : KeyMemory Id}

/-- Eight bytes are a short key. -/
theorem setKeyLen_eight (sound : memory.Sound) {object : Id} {key : IndexKey Id}
    (alive : memory.objects object = some key) :
    ∃ sized, (memory.setKeyLen object key 8).objects object = some sized ∧ sized.len = 8 ∧
      sized.data = .stack object := by
  by_cases same : key.len = 8
  · have short : key.isLong = false := by simp [IndexKey.isLong, same, stackLen]
    exact ⟨key, by simp [setKeyLen, same, alive], same,
      sound.short object key alive short (by simp [same])⟩
  · exact ⟨{ key with len := 8, data := .stack object }, by simp [setKeyLen, same, stackLen],
      rfl, rfl⟩

/-- A store into a key's own buffer. -/
theorem store_short (sound : memory.Sound) {object : Id} {key : IndexKey Id}
    (alive : memory.objects object = some key) (data : key.data = .stack object)
    {bytes : List UInt8} (len : key.len.toNat = bytes.length) (fits : bytes.length ≤ stackLen) :
    ∃ after, memory.store key bytes = some after ∧ after.Sound ∧
      after.readObject object = some (bytes.map some) := by
  have short : key.isLong = false := isLong_false_iff.mpr (len ▸ fits)
  have kept : memory.free key = memory := by simp [free, short]
  have copied := key.stackKey.take_copy (bytes.map some) (by simpa using fits)
  rw [List.length_map] at copied
  refine ⟨memory.put object { key with stackKey := key.stackKey.copy (bytes.map some) }, ?_, ?_, ?_⟩
  · simp [store, data, alive]
  · -- The old key goes and one like it comes: neither owns a block.
    rw [← kept, ← put_destroy]
    exact put_short (destroy_sound sound alive) (destroy_fresh object key) short (.inr data)
  · simp [readObject, read, data, len, copied]

/-- Whatever the object held, it holds the bytes of the key afterwards. -/
theorem transformKey_stores (sound : memory.Sound) {object : Id} {key : IndexKey Id}
    (alive : memory.objects object = some key) (rid : UInt64) :
    ∃ after, memory.transformKey .little rid object key = some after ∧ after.Sound ∧
      after.readObject object = some ((wordBytes .little rid).reverse.map some) := by
  obtain ⟨sized, found, len, data⟩ := setKeyLen_eight sound alive
  have sizedSound := setKeyLen_sound sound alive 8
  have bytes : (wordBytes .little rid).reverse.length ≤ stackLen := by simp [stackLen]
  have stores := store_short sizedSound found data (by simp [len]) bytes
  -- What is copied is the swapped word, and that is the key backwards.
  simpa [transformKey, found, len, wordBytes_bswap64] using stores

end KeyMemory

/-! ## The order of the keys -/

theorem bigBytes_lt_iff (first second : UInt64) :
    (wordBytes .little first).reverse < (wordBytes .little second).reverse ↔ first < second := by
  have value : ∀ word : UInt64, littleValue (wordBytes .little word) = word.toNat := by
    intro word
    rw [wordBytes, littleValue_littleBytes]
    exact Nat.mod_eq_of_lt word.toNat_lt
  rw [lt_iff_littleValue (by simp), List.reverse_reverse, List.reverse_reverse, value, value,
    UInt64.lt_iff_toNat_lt]

theorem bigBytes_inj {first second : UInt64}
    (same : (wordBytes .little first).reverse = (wordBytes .little second).reverse) :
    first = second := by
  have words := congrArg (bytesWord .little) (List.reverse_injective same)
  rwa [bytesWord_wordBytes, bytesWord_wordBytes] at words

/-- Two keys, stored in two objects: eight bytes each, and in the order of
    their numbers. -/
theorem transformKey_order {Id : Type} [DecidableEq Id] {memory other : KeyMemory Id}
    (sound : memory.Sound) (otherSound : other.Sound) {object otherObject : Id}
    {key otherKey : IndexKey Id} (alive : memory.objects object = some key)
    (otherAlive : other.objects otherObject = some otherKey) (first second : UInt64) :
    ∃ left right : List UInt8,
      (memory.transformKey .little first object key).bind (fun after => after.readObject object)
        = some (left.map some) ∧
      (other.transformKey .little second otherObject otherKey).bind
        (fun after => after.readObject otherObject) = some (right.map some) ∧
      left.length = 8 ∧ right.length = 8 ∧
      (left < right ↔ first < second) ∧
      (Slice.compare left right < 0 ↔ first < second) ∧
      (Slice.compare left right = 0 ↔ first = second) ∧
      (0 < Slice.compare left right ↔ second < first) ∧
      (left = right → first = second) := by
  obtain ⟨after, stores, _, reads⟩ := KeyMemory.transformKey_stores sound alive first
  obtain ⟨otherAfter, otherStores, _, otherReads⟩ :=
    KeyMemory.transformKey_stores otherSound otherAlive second
  obtain ⟨less, equal, greater⟩ := Slice.compare_sign (wordBytes .little first).reverse
    (wordBytes .little second).reverse
  refine ⟨_, _, by rw [stores, Option.bind_some, reads],
    by rw [otherStores, Option.bind_some, otherReads], by simp, by simp, bigBytes_lt_iff first second,
    less.trans (bigBytes_lt_iff first second), ?_, greater.trans (bigBytes_lt_iff second first),
    bigBytes_inj⟩
  rw [equal]
  exact ⟨bigBytes_inj, congrArg fun word => (wordBytes .little word).reverse⟩

/-- Two fresh keys; 256 comes behind 2. -/
theorem transformKey_order_fresh :
    ∃ left right : List UInt8,
      ((({} : KeyMemory ℕ).put 0 {}).transformKey .little 2 0 {}).bind
        (fun after => after.readObject 0) = some (left.map some) ∧
      ((({} : KeyMemory ℕ).put 0 {}).transformKey .little 256 0 {}).bind
        (fun after => after.readObject 0) = some (right.map some) ∧
      Slice.compare left right < 0 := by
  have sound : (({} : KeyMemory ℕ).put 0 {}).Sound :=
    KeyMemory.put_short KeyMemory.sound_start rfl rfl (.inl rfl)
  obtain ⟨left, right, stored, otherStored, _, _, _, order, _⟩ :=
    transformKey_order sound sound (KeyMemory.put_self _ _ _) (KeyMemory.put_self _ _ _) 2 256
  exact ⟨left, right, stored, otherStored, order.mpr (by decide)⟩

end FdpRocks.Benchmark
