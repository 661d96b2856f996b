import Mathlib

/-! # `IndexKey`

Keys of up to 64 bytes live in the object itself, longer ones on the heap.
Which of the two it is follows from `len_` alone.  Objects are named by `Id`,
blocks of the heap by the order of their allocation; a byte that was never
written is `none`.
-/

namespace FdpRocks.Benchmark

abbrev Bytes : Type := List (Option UInt8)

inductive Pointer (Id : Type) where
  | null
  /-- `stack_key_` of an object. -/
  | stack (object : Id)
  | heap (block : ℕ)
deriving DecidableEq

def stackLen : ℕ := 64

/-- `stack_key_`, an array of 64 bytes. -/
abbrev StackKey : Type := { bytes : Bytes // bytes.length = stackLen }

def StackKey.blank : StackKey := ⟨List.replicate stackLen none, List.length_replicate⟩

/-- `memcpy` to the start of the array; what does not fit is lost. -/
def StackKey.copy (buffer : StackKey) (bytes : Bytes) : StackKey :=
  ⟨bytes.take stackLen ++ buffer.1.drop bytes.length, by
    rw [List.length_append, List.length_take, List.length_drop, buffer.2]
    omega⟩

theorem StackKey.take_copy (buffer : StackKey) (bytes : Bytes) (fits : bytes.length ≤ stackLen) :
    (buffer.copy bytes).1.take bytes.length = bytes := by
  show (bytes.take stackLen ++ buffer.1.drop bytes.length).take bytes.length = bytes
  rw [List.take_of_length_le fits, List.take_left]

structure IndexKey (Id : Type) where
  len : UInt32 := 0
  data : Pointer Id := .null
  stackKey : StackKey := .blank

/-- The objects alive, and all blocks that were ever allocated, with the
    `delete[]`s so far of blocks and of stack buffers. -/
structure KeyMemory (Id : Type) where
  objects : Id → Option (IndexKey Id) := fun _ => none
  blocks : List Bytes := []
  released : List ℕ := []
  releasedStacks : List Id := []

variable {Id : Type} [DecidableEq Id]

/-- `len_ > stackLen_`, which decides where the bytes are. -/
def IndexKey.isLong (key : IndexKey Id) : Bool := key.len.toNat > stackLen

namespace KeyMemory

variable (memory : KeyMemory Id)

def put (object : Id) (key : IndexKey Id) : KeyMemory Id :=
  { memory with objects := Function.update memory.objects object (some key) }

@[simp] theorem put_self (object : Id) (key : IndexKey Id) :
    (memory.put object key).objects object = some key := Function.update_self _ _ _

theorem put_of_ne {object other : Id} (apart : other ≠ object) (key : IndexKey Id) :
    (memory.put object key).objects other = memory.objects other := Function.update_of_ne apart _ _

/-- `delete[]`; of a null pointer it does nothing. -/
def delete : Pointer Id → KeyMemory Id
  | .null => memory
  | .stack object => { memory with releasedStacks := memory.releasedStacks ++ [object] }
  | .heap block => { memory with released := memory.released ++ [block] }

/-- `if (len_ > stackLen_) delete[] data_;` -/
def free (key : IndexKey Id) : KeyMemory Id :=
  if key.isLong then memory.delete key.data else memory

/-- `new uint8_t[]`, filled with these bytes. -/
def allocate (bytes : Bytes) : KeyMemory Id := { memory with blocks := memory.blocks ++ [bytes] }

/-! ## The member functions -/

/-- `IndexKey (const std::string&)`. -/
def ofString (object : Id) (text : List UInt8) : KeyMemory Id :=
  memory.put object
    { len := UInt32.ofNat text.length
      data := .stack object
      stackKey := StackKey.blank.copy (text.map some) }

def set (object : Id) (key : IndexKey Id) (bytes : List UInt8) : KeyMemory Id :=
  let freed := memory.free key
  if bytes.length ≤ stackLen then
    freed.put object
      { len := UInt32.ofNat bytes.length
        data := .stack object
        stackKey := key.stackKey.copy (bytes.map some) }
  else
    (freed.allocate (bytes.map some)).put object
      { key with len := UInt32.ofNat bytes.length, data := .heap freed.blocks.length }

def setKeyLen (object : Id) (key : IndexKey Id) (newLen : UInt32) : KeyMemory Id :=
  if key.len = newLen then memory
  else
    let freed := memory.free key
    if newLen.toNat > stackLen then
      (freed.allocate (List.replicate newLen.toNat none)).put object
        { key with len := newLen, data := .heap freed.blocks.length }
    else freed.put object { key with len := newLen, data := .stack object }

/-- The part that both moves share: `object`, whose buffer is `buffer`, takes over
    from `source`. -/
def take (object : Id) (buffer : StackKey) (source : Id) (key : IndexKey Id) : KeyMemory Id :=
  if key.isLong then
    (memory.put source { key with data := .null }).put object
      { len := key.len, data := key.data, stackKey := buffer }
  else
    memory.put object
      { len := key.len
        data := .stack object
        stackKey := buffer.copy (key.stackKey.1.take key.len.toNat) }

/-- `IndexKey (IndexKey&&)`. -/
def moveConstruct (object source : Id) (key : IndexKey Id) : KeyMemory Id :=
  memory.take object .blank source key

/-- `operator= (IndexKey&&)` of another object. -/
def moveAssign (object : Id) (target : IndexKey Id) (source : Id) (key : IndexKey Id) :
    KeyMemory Id :=
  (memory.free target).take object target.stackKey source key

/-- `~IndexKey`. -/
def destroy (object : Id) (key : IndexKey Id) : KeyMemory Id :=
  { memory.free key with objects := Function.update memory.objects object none }

/-- The bytes that `operator std::string` reads. -/
def read (key : IndexKey Id) : Option Bytes :=
  match key.data with
  | .null => none
  | .stack object => (memory.objects object).map fun owner => owner.stackKey.1.take key.len.toNat
  | .heap block => memory.blocks[block]?.map fun bytes => bytes.take key.len.toNat

end KeyMemory

/-! ## Programs -/

inductive Operation (Id : Type) where
  | construct (object : Id)
  | ofString (object : Id) (text : List UInt8)
  | set (object : Id) (bytes : List UInt8)
  | setKeyLen (object : Id) (newLen : UInt32)
  | moveConstruct (object source : Id)
  | moveAssign (object source : Id)
  | destroy (object : Id)

/-- One operation; `none` where it cannot be written, since a name is taken or
    its object is not alive, or an object is assigned to itself. -/
def KeyMemory.step (memory : KeyMemory Id) : Operation Id → Option (KeyMemory Id)
  | .construct object =>
    match memory.objects object with
    | none => some (memory.put object {})
    | some _ => none
  | .ofString object text =>
    match memory.objects object with
    | none => some (memory.ofString object text)
    | some _ => none
  | .set object bytes => (memory.objects object).map fun key => memory.set object key bytes
  | .setKeyLen object newLen =>
    (memory.objects object).map fun key => memory.setKeyLen object key newLen
  | .moveConstruct object source =>
    match memory.objects object, memory.objects source with
    | none, some key => some (memory.moveConstruct object source key)
    | _, _ => none
  | .moveAssign object source =>
    match memory.objects object, memory.objects source with
    | some target, some key =>
      if object = source then none else some (memory.moveAssign object target source key)
    | _, _ => none
  | .destroy object => (memory.objects object).map fun key => memory.destroy object key

end FdpRocks.Benchmark
