import FdpRocks.Library.Loop
import Mathlib.Data.List.Rotate
import Mathlib.Data.Nat.ModEq

/-! # Vectors with checked indices

Reads and writes of a vector that fail outside of it, the counted loops that
make them, and what such loops leave behind.

* `forRange_total` — total correctness of a loop over `0 .. bound - 1`.
* `forRange_fails` — one access out of range is enough.
* `Filled` — a vector that was written from its start on, up to some place.
* `moveBackward_spec` — an overlapping move to the right.
* `perm_positions` — a way around a ring of places.
* `slice_overwrite` — a copy that fits is read back.
-/

namespace FdpRocks.Library.Vectors

open FdpRocks.Library.Loop

/-! ## Counted loops -/

section Loops

variable {State : Type}

/-- `left` turns from `index` on; `.done` is a `break`, and `none` a failed access. -/
def turnsFrom (body : ℕ → State → Option (Turn State State)) : (left index : ℕ) → State →
    Option State
  | 0, _, state => some state
  | left + 1, index, state =>
    match body index state with
    | none => none
    | some (.done final) => some final
    | some (.again next) => turnsFrom body left (index + 1) next

/-- `for (i = 0; i < bound; i++)`. -/
def forRange (bound : ℕ) (body : ℕ → State → Option (Turn State State)) (state : State) :
    Option State :=
  turnsFrom body bound 0 state

variable {body : ℕ → State → Option (Turn State State)} {bound : ℕ}

theorem turnsFrom_total (invariant : ℕ → State → Prop) (post : State → Prop)
    (keeps : ∀ index state, index < bound → invariant index state →
      (∃ next, body index state = some (.again next) ∧ invariant (index + 1) next) ∨
        ∃ final, body index state = some (.done final) ∧ post final)
    (ends : ∀ state, invariant bound state → post state) {left index : ℕ} {state : State}
    (within : index + left = bound) (holds : invariant index state) :
    ∃ final, turnsFrom body left index state = some final ∧ post final := by
  -- On the turns that are left; the index rises to the bound.
  induction left generalizing index state with
  | zero =>
    rw [Nat.add_zero] at within
    exact ⟨state, rfl, ends state (within ▸ holds)⟩
  | succ left inductionHypothesis =>
    cases keeps index state (by omega) holds with
    | inl goesOn =>
      obtain ⟨next, turn, nextHolds⟩ := goesOn
      obtain ⟨final, returns, done⟩ := inductionHypothesis (by omega) nextHolds
      exact ⟨final, by simp only [turnsFrom, turn, returns], done⟩
    | inr breaks =>
      obtain ⟨final, turn, done⟩ := breaks
      exact ⟨final, by simp only [turnsFrom, turn], done⟩

/-- Total correctness of a counted loop that may break. -/
theorem forRange_break (invariant : ℕ → State → Prop) (post : State → Prop)
    (keeps : ∀ index state, index < bound → invariant index state →
      (∃ next, body index state = some (.again next) ∧ invariant (index + 1) next) ∨
        ∃ final, body index state = some (.done final) ∧ post final)
    (ends : ∀ state, invariant bound state → post state) {state : State}
    (holds : invariant 0 state) : ∃ final, forRange bound body state = some final ∧ post final :=
  turnsFrom_total invariant post keeps ends (Nat.zero_add bound) holds

/-- Total correctness of a counted loop. -/
theorem forRange_total (invariant : ℕ → State → Prop)
    (keeps : ∀ index state, index < bound → invariant index state →
      ∃ next, body index state = some (.again next) ∧ invariant (index + 1) next)
    {state : State} (holds : invariant 0 state) :
    ∃ final, forRange bound body state = some final ∧ invariant bound final :=
  forRange_break invariant (invariant bound)
    (fun index state early here => Or.inl (keeps index state early here))
    (fun _ final => final) holds

theorem turnsFrom_fails {bad : ℕ} (invariant : ℕ → State → Prop)
    (keeps : ∀ index state, index < bad → invariant index state → body index state = none ∨
      ∃ next, body index state = some (.again next) ∧ invariant (index + 1) next)
    (fails : ∀ state, invariant bad state → body bad state = none) {left index : ℕ} {state : State}
    (early : index ≤ bad) (reached : bad < index + left) (holds : invariant index state) :
    turnsFrom body left index state = none := by
  induction left generalizing index state with
  | zero => omega
  | succ left inductionHypothesis =>
    cases Nat.lt_or_eq_of_le early with
    | inl before =>
      cases keeps index state before holds with
      | inl turn => simp only [turnsFrom, turn]
      | inr goesOn =>
        obtain ⟨next, turn, nextHolds⟩ := goesOn
        have later := inductionHypothesis before (by omega) nextHolds
        simp only [turnsFrom, turn, later]
    | inr here =>
      subst here
      simp only [turnsFrom, fails state holds]

/-- A loop without a break fails when one of its turns does, if not before. -/
theorem forRange_fails {bad : ℕ} (reached : bad < bound) (invariant : ℕ → State → Prop)
    (keeps : ∀ index state, index < bad → invariant index state → body index state = none ∨
      ∃ next, body index state = some (.again next) ∧ invariant (index + 1) next)
    (fails : ∀ state, invariant bad state → body bad state = none) {state : State}
    (holds : invariant 0 state) : forRange bound body state = none :=
  turnsFrom_fails invariant keeps fails (Nat.zero_le bad) (by omega) holds

end Loops

/-! ## Accesses -/

variable {Item : Type}

/-- `vector[index] = value`. -/
def put (vector : List Item) (index : ℕ) (value : Item) : Option (List Item) :=
  if index < vector.length then some (vector.set index value) else none

/-- `vector.resize(size)`, with `zero` where it grows. -/
def resize (zero : Item) (vector : List Item) (size : ℕ) : List Item :=
  vector.take size ++ List.replicate (size - vector.length) zero

/-- The part from `start` to the end; no vector has a `start` beyond its end. -/
def sliceFrom (vector : List Item) (start : ℕ) : Option (List Item) :=
  if start ≤ vector.length then some (vector.drop start) else none

@[simp] theorem length_resize (zero : Item) (vector : List Item) (size : ℕ) :
    (resize zero vector size).length = size := by
  simp only [resize, List.length_append, List.length_take, List.length_replicate]
  omega

@[simp] theorem resize_nil (zero : Item) (size : ℕ) :
    resize zero [] size = List.replicate size zero := by
  simp [resize]

theorem put_inside {vector : List Item} {index : ℕ} (inside : index < vector.length)
    (value : Item) : put vector index value = some (vector.set index value) :=
  if_pos inside

/-- A place of one row of a table, within the whole of it. -/
theorem place_lt {rows width row place : ℕ} (known : row < rows) (inside : place < width) :
    row * width + place < rows * width := by
  have last : (row + 1) * width ≤ rows * width := Nat.mul_le_mul_right _ known
  rw [Nat.succ_mul] at last
  omega

theorem place_div {width place : ℕ} (inside : place < width) (row : ℕ) :
    (row * width + place) / width = row := by
  have positive : 0 < width := Nat.zero_lt_of_lt inside
  rw [Nat.mul_comm, Nat.mul_add_div positive, Nat.div_eq_of_lt inside, Nat.add_zero]

theorem place_mod {width place : ℕ} (inside : place < width) (row : ℕ) :
    (row * width + place) % width = place := by
  rw [Nat.mul_comm, Nat.mul_add_mod, Nat.mod_eq_of_lt inside]

/-- Places follow each other row by row. -/
theorem lt_iff_row {width index other : ℕ} :
    index < other ↔ index / width < other / width ∨
      index / width = other / width ∧ index % width < other % width := by
  have whole := Nat.div_add_mod index width
  have otherWhole := Nat.div_add_mod other width
  constructor
  · intro before
    cases Nat.lt_or_eq_of_le (@Nat.div_le_div_right _ _ width before.le) with
    | inl earlier => exact Or.inl earlier
    | inr same =>
      rw [same] at whole
      exact Or.inr ⟨same, by omega⟩
  · intro ordered
    cases ordered with
    | inl earlier =>
      by_contra after
      have row := @Nat.div_le_div_right _ _ width (Nat.le_of_not_lt after)
      omega
    | inr same =>
      rw [same.1] at whole
      omega

/-- Only the multiples of a size lead back to the same place. -/
theorem add_mod_ne {start size steps : ℕ} (positive : 0 < steps) (early : steps < size) :
    (start + steps) % size ≠ start % size := by
  intro same
  have around : steps ≡ 0 [MOD size] := Nat.ModEq.add_left_cancel' start same
  have whole := Nat.le_of_dvd positive ((Nat.modEq_zero_iff_dvd).mp around)
  omega

/-- The positions of a range from any start on, each of them once. -/
theorem perm_positions (start size : ℕ) :
    ((List.range size).map fun steps => (start + steps) % size).Perm (List.range size) := by
  have rotated : (List.range size).map (fun steps => (start + steps) % size) =
      (List.range size).rotate start := by
    apply List.ext_getElem
    case hl => simp
    case h =>
      intro steps _ _
      simp [List.getElem_rotate, Nat.add_comm]
  rw [rotated]
  exact List.rotate_perm _ start

/-! ## Vectors that are written in order -/

/-- The first `count` items are the given values, and the others are as before. -/
structure Filled (before : List Item) (value : ℕ → Option Item) (count : ℕ)
    (vector : List Item) : Prop where
  length : vector.length = before.length
  items : ∀ index, vector[index]? = if index < count then value index else before[index]?

namespace Filled

variable {before vector : List Item} {value : ℕ → Option Item} {count : ℕ}

theorem start : Filled before value 0 before where
  length := rfl
  items index := by simp

/-- The next item is written. -/
theorem next (filled : Filled before value count vector) (room : count < before.length)
    {item : Item} (known : value count = some item) :
    ∃ longer, put vector count item = some longer ∧ Filled before value (count + 1) longer := by
  have inside : count < vector.length := filled.length ▸ room
  refine ⟨vector.set count item, put_inside inside item, ?_, fun index => ?_⟩
  · rw [List.length_set]
    exact filled.length
  · by_cases here : index = count
    · rw [here, List.getElem?_set_self inside, if_pos (Nat.lt_succ_self count), known]
    · have same : index < count + 1 ↔ index < count := by omega
      rw [List.getElem?_set_ne (Ne.symm here), filled.items]
      simp only [same]

/-- A vector that was written to its end. -/
theorem eq_map {item : ℕ → Item} (filled : Filled before (fun index => some (item index)) count vector)
    (whole : before.length = count) : vector = (List.range count).map item := by
  apply List.ext_getElem?
  intro index
  rw [filled.items]
  by_cases inside : index < count
  · simp [inside]
  · simp [inside, whole]

end Filled

/-- A loop that writes one item each turn. -/
theorem forRange_fill {before : List Item} {value : ℕ → Option Item} {count : ℕ}
    {body : ℕ → List Item → Option (Turn (List Item) (List Item))} (room : count ≤ before.length)
    (known : ∀ index < count, (value index).isSome)
    (turn : ∀ index vector, index < count → Filled before value index vector →
      body index vector = (value index).bind fun item => (put vector index item).map .again) :
    ∃ vector, forRange count body before = some vector ∧ Filled before value count vector := by
  apply forRange_total (Filled before value)
  case keeps =>
    intro index vector early filled
    obtain ⟨item, here⟩ := Option.isSome_iff_exists.mp (known index early)
    obtain ⟨longer, written, longerFilled⟩ := filled.next (Nat.lt_of_lt_of_le early room) here
    exact ⟨longer, by simp [turn index vector early filled, here, written], longerFilled⟩
  case holds => exact .start

/-- A loop that writes a whole vector. -/
theorem forRange_map {before : List Item} {item : ℕ → Item} {count : ℕ}
    {body : ℕ → List Item → Option (Turn (List Item) (List Item))} (whole : before.length = count)
    (turn : ∀ index vector, index < count →
      Filled before (fun index => some (item index)) index vector →
      body index vector = (put vector index (item index)).map .again) :
    forRange count body before = some ((List.range count).map item) := by
  obtain ⟨vector, returns, filled⟩ := forRange_fill whole.ge (fun _ _ => rfl) turn
  rw [returns, filled.eq_map whole]

/-! ## Moves -/

/-- `std::move_backward`, the last item first. -/
def moveBackward (vector : List Item) (first last result : ℕ) : Option (List Item) :=
  forRange (last - first) (fun turn vector => do
    let value ← vector[last - 1 - turn]?
    (put vector (result - 1 - turn) value).map .again) vector

/-- `std::copy` of a whole vector to the start of another. -/
def copyToStart (source vector : List Item) : Option (List Item) :=
  forRange source.length (fun index vector => do
    let value ← source[index]?
    (put vector index value).map .again) vector

/-- A move to the right reads every item before it writes over it. -/
theorem moveBackward_spec {vector : List Item} {first last result : ℕ} (ordered : first ≤ last)
    (right : last ≤ result) (inside : result ≤ vector.length) :
    ∃ moved, moveBackward vector first last result = some moved ∧
      moved.length = vector.length ∧
      ∀ index, moved[index]? = if result - (last - first) ≤ index ∧ index < result
        then vector[index - (result - last)]? else vector[index]? := by
  -- After some turns the same holds of the part that was written.
  apply forRange_total fun turn (moved : List Item) => moved.length = vector.length ∧
    ∀ index, moved[index]? = if result - turn ≤ index ∧ index < result
      then vector[index - (result - last)]? else vector[index]?
  case keeps =>
    intro turn moved early sofar
    obtain ⟨length, items⟩ := sofar
    have room : result - 1 - turn < moved.length := by omega
    -- The next item read lies before everything written so far.
    have unread : ¬ (result - turn ≤ last - 1 - turn ∧ last - 1 - turn < result) := by omega
    have source : last - 1 - turn < vector.length := by omega
    have item : moved[last - 1 - turn]? = some vector[last - 1 - turn] := by
      rw [items, if_neg unread, List.getElem?_eq_getElem]
    refine ⟨_, by simp only [item, Option.bind_eq_bind, Option.bind_some, put_inside room]; rfl,
      ?_, fun index => ?_⟩
    · rw [List.length_set]
      exact length
    · by_cases here : index = result - 1 - turn
      · have read : index - (result - last) = last - 1 - turn := by omega
        rw [here, List.getElem?_set_self room, ← here, if_pos (by omega), read,
          List.getElem?_eq_getElem]
      · have same : result - (turn + 1) ≤ index ↔ result - turn ≤ index ∨ index = result - 1 - turn := by
          omega
        rw [List.getElem?_set_ne (Ne.symm here), items]
        simp only [same, here, or_false]
  case holds =>
    refine ⟨rfl, fun index => ?_⟩
    rw [if_neg (by omega)]

theorem copyToStart_spec {source vector : List Item} (room : source.length ≤ vector.length) :
    ∃ copied, copyToStart source vector = some copied ∧
      Filled vector (source[·]?) source.length copied := by
  apply forRange_fill room
  case known =>
    intro index early
    simp [early]
  case turn =>
    intro _ _ _ _
    rfl

/-! ## Copies that stop at the end -/

/-- `source` over the items from `offset` on; what lies beyond the end is dropped. -/
def overwrite (vector : List Item) (offset : ℕ) (source : List Item) : List Item :=
  vector.mapIdx fun index item =>
    if offset ≤ index then (source[index - offset]?).getD item else item

@[simp] theorem length_overwrite (vector : List Item) (offset : ℕ) (source : List Item) :
    (overwrite vector offset source).length = vector.length := by
  simp [overwrite]

/-- A part before the copy is not touched. -/
theorem take_overwrite (vector : List Item) {offset count : ℕ} (before : count ≤ offset)
    (source : List Item) : (overwrite vector offset source).take count = vector.take count := by
  apply List.ext_getElem?
  intro index
  by_cases inside : index < count
  · have early : ¬ offset ≤ index := by omega
    simp [overwrite, inside, early]
  · rw [List.getElem?_take, List.getElem?_take, if_neg inside, if_neg inside]

/-- What was copied is there when it fits. -/
theorem slice_overwrite {vector source : List Item} {offset : ℕ}
    (fits : offset + source.length ≤ vector.length) :
    ((overwrite vector offset source).drop offset).take source.length = source := by
  apply List.ext_getElem?
  intro index
  by_cases inside : index < source.length
  · have room : offset + index < vector.length := by omega
    simp [overwrite, inside, room]
  · rw [List.getElem?_take, if_neg inside, List.getElem?_eq_none (Nat.le_of_not_lt inside)]

end FdpRocks.Library.Vectors
