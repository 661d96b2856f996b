import Mathlib.Data.List.Basic
import Mathlib.Tactic.Ring

/-! # Machine words as bytes

The byte image of a sequence of 64-bit words, in either byte order, and its
inverse.  `decodeWords_encodeWords` is the round trip a file of words relies
on; `encodeWords_length` is what a size check on such a file sees.
`lt_iff_littleValue` compares byte strings of one length by their numbers.
-/

namespace FdpRocks.Library.Words

inductive ByteOrder where
  | little
  | big
deriving DecidableEq, Repr

/-- The `width` low-order bytes of `value`, least significant first. -/
def littleBytes : Nat → Nat → List UInt8
  | 0, _ => []
  | width + 1, value => UInt8.ofNat (value % 256) :: littleBytes width (value / 256)

def littleValue : List UInt8 → Nat
  | [] => 0
  | byte :: bytes => byte.toNat + 256 * littleValue bytes

@[simp] theorem littleBytes_length (width value : Nat) :
    (littleBytes width value).length = width := by
  induction width generalizing value with
  | zero => rfl
  | succ width inductionHypothesis => simp [littleBytes, inductionHypothesis]

theorem littleValue_littleBytes (width value : Nat) :
    littleValue (littleBytes width value) = value % 256 ^ width := by
  induction width generalizing value with
  | zero => simp [littleBytes, littleValue, Nat.mod_one]
  | succ width inductionHypothesis =>
    simp only [littleBytes, littleValue, inductionHypothesis]
    rw [pow_succ', Nat.mod_mul]
    simp

/-- The eight bytes a 64-bit word occupies in memory. -/
def wordBytes : ByteOrder → UInt64 → List UInt8
  | .little, word => littleBytes 8 word.toNat
  | .big, word => (littleBytes 8 word.toNat).reverse

def bytesWord : ByteOrder → List UInt8 → UInt64
  | .little, bytes => UInt64.ofNat (littleValue bytes)
  | .big, bytes => UInt64.ofNat (littleValue bytes.reverse)

@[simp] theorem wordBytes_length (order : ByteOrder) (word : UInt64) :
    (wordBytes order word).length = 8 := by
  cases order <;> simp [wordBytes]

@[simp] theorem bytesWord_wordBytes (order : ByteOrder) (word : UInt64) :
    bytesWord order (wordBytes order word) = word := by
  have value : littleValue (littleBytes 8 word.toNat) = word.toNat := by
    rw [littleValue_littleBytes]
    exact Nat.mod_eq_of_lt word.toNat_lt
  cases order <;> simp [bytesWord, wordBytes, value]

def encodeWords (order : ByteOrder) (words : List UInt64) : List UInt8 :=
  words.flatMap (wordBytes order)

/-- The first `count` words of a byte sequence. -/
def decodeWords (order : ByteOrder) : Nat → List UInt8 → List UInt64
  | 0, _ => []
  | count + 1, bytes => bytesWord order (bytes.take 8) :: decodeWords order count (bytes.drop 8)

@[simp] theorem encodeWords_nil (order : ByteOrder) : encodeWords order [] = [] := rfl

@[simp] theorem encodeWords_cons (order : ByteOrder) (word : UInt64) (words : List UInt64) :
    encodeWords order (word :: words) = wordBytes order word ++ encodeWords order words := rfl

@[simp] theorem encodeWords_length (order : ByteOrder) (words : List UInt64) :
    (encodeWords order words).length = 8 * words.length := by
  induction words with
  | nil => rfl
  | cons word words inductionHypothesis =>
    simp [inductionHypothesis]
    ring

@[simp] theorem decodeWords_length (order : ByteOrder) (count : Nat) (bytes : List UInt8) :
    (decodeWords order count bytes).length = count := by
  induction count generalizing bytes with
  | zero => rfl
  | succ count inductionHypothesis => simp [decodeWords, inductionHypothesis]

theorem decodeWords_encodeWords (order : ByteOrder) (words : List UInt64) :
    decodeWords order words.length (encodeWords order words) = words := by
  induction words with
  | nil => rfl
  | cons word words inductionHypothesis =>
    have size := wordBytes_length order word
    simp only [List.length_cons, decodeWords, encodeWords_cons]
    rw [List.take_left' size, List.drop_left' size, bytesWord_wordBytes, inductionHypothesis]

/-! ## Bytes back to bytes -/

theorem littleBytes_littleValue (bytes : List UInt8) :
    littleBytes bytes.length (littleValue bytes) = bytes := by
  induction bytes with
  | nil => rfl
  | cons byte bytes inductionHypothesis =>
    have low : (byte.toNat + 256 * littleValue bytes) % 256 = byte.toNat := by
      have := byte.toNat_lt
      omega
    have high : (byte.toNat + 256 * littleValue bytes) / 256 = littleValue bytes := by
      have := byte.toNat_lt
      omega
    simp [littleBytes, littleValue, low, high, inductionHypothesis]

theorem littleValue_lt (bytes : List UInt8) : littleValue bytes < 256 ^ bytes.length := by
  have value := littleValue_littleBytes bytes.length (littleValue bytes)
  rw [littleBytes_littleValue] at value
  rw [value]
  exact Nat.mod_lt _ (Nat.pow_pos (by decide))

theorem littleValue_append (low high : List UInt8) :
    littleValue (low ++ high) = littleValue low + 256 ^ low.length * littleValue high := by
  induction low with
  | nil => simp [littleValue]
  | cons byte low inductionHypothesis =>
    simp only [List.cons_append, littleValue, inductionHypothesis, List.length_cons]
    ring

theorem wordBytes_bytesWord (order : ByteOrder) {bytes : List UInt8} (eight : bytes.length = 8) :
    wordBytes order (bytesWord order bytes) = bytes := by
  have word : ∀ bytes : List UInt8, bytes.length = 8 →
      littleBytes 8 (UInt64.ofNat (littleValue bytes)).toNat = bytes := by
    intro bytes eight
    have bound := littleValue_lt bytes
    rw [eight] at bound
    rw [UInt64.toNat_ofNat_of_lt' (show littleValue bytes < 2 ^ 64 by omega), ← eight,
      littleBytes_littleValue]
  cases order with
  | little => exact word bytes eight
  | big =>
    rw [wordBytes, bytesWord, word bytes.reverse (by simpa using eight), List.reverse_reverse]

/-! ## Lexicographic order -/

theorem digit_lt_iff {unit low other digit otherDigit : Nat} (lowBound : low < unit)
    (otherBound : other < unit) :
    low + unit * digit < other + unit * otherDigit
      ↔ digit < otherDigit ∨ digit = otherDigit ∧ low < other := by
  rcases Nat.lt_trichotomy digit otherDigit with less | same | more
  · have unitBelow := Nat.mul_le_mul_left unit less
    rw [Nat.mul_succ] at unitBelow
    omega
  · subst same
    omega
  · have unitBelow := Nat.mul_le_mul_left unit more
    rw [Nat.mul_succ] at unitBelow
    omega

/-- The first byte decides, since the others make less than one unit of it. -/
theorem lt_iff_littleValue {left right : List UInt8} (same : left.length = right.length) :
    left < right ↔ littleValue left.reverse < littleValue right.reverse := by
  induction left generalizing right with
  | nil =>
    cases right with
    | nil => simp
    | cons byte right => cases same
  | cons first left inductionHypothesis =>
    cases right with
    | nil => cases same
    | cons second right =>
      have lengths : left.length = right.length := Nat.succ.inj same
      have leftBound := littleValue_lt left.reverse
      have rightBound := littleValue_lt right.reverse
      have decides := inductionHypothesis lengths
      rw [List.length_reverse, lengths] at leftBound
      rw [List.length_reverse] at rightBound
      rw [List.cons_lt_cons_iff, decides, List.reverse_cons, List.reverse_cons, littleValue_append,
        littleValue_append, List.length_reverse, List.length_reverse, lengths, UInt8.lt_iff_toNat_lt,
        ← UInt8.toNat_inj]
      simp only [littleValue, Nat.mul_zero, Nat.add_zero]
      exact (digit_lt_iff leftBound rightBound).symm

end FdpRocks.Library.Words
