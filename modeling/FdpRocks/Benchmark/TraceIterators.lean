import FdpRocks.Benchmark.RandomKeyTrace
import FdpRocks.Library.Transition

/-! # Iterators over the keys

`RangeIterator` reads a window of the keys and may be rolled back at any time;
`Iterator` walks once around a range of them.  Indices are 64-bit words, and
an element is `none` where its index is beyond the keys.
-/

namespace FdpRocks.Benchmark.RandomKeyTrace

open FdpRocks.Library.Loop FdpRocks.Library.Transition FdpRocks.Library.Vectors

/-- An index below another one can be increased. -/
theorem toNat_increased {index bound : UInt64} (below : index < bound) :
    (index + 1).toNat = index.toNat + 1 := by
  have less := UInt64.lt_iff_toNat_lt.mp below
  have small := bound.toNat_lt
  rw [UInt64.toNat_add]
  exact Nat.mod_eq_of_lt (by simp; omega)

/-! ## `RangeIterator` -/

structure RangeIterator where
  keys : List UInt64
  endIndex : UInt64
  curIndex : UInt64

def iterateBetween (trace : RandomKeyTrace) (start stop : UInt64) : RangeIterator where
  keys := trace.keys
  endIndex := stop
  curIndex := start

/-- The operations of a range iterator. -/
inductive RangeCall where
  | next
  | deref
  | rollBack
deriving DecidableEq, Repr

namespace RangeIterator

variable (iterator : RangeIterator)

def valid : Bool := iterator.curIndex < iterator.endIndex

/-- `operator*`. -/
def deref : Option UInt64 := iterator.keys[iterator.curIndex.toNat]?

def next : Option UInt64 × RangeIterator :=
  (iterator.deref, { iterator with curIndex := iterator.curIndex + 1 })

/-- Below 6000 the index wraps around. -/
def rollBack : RangeIterator := { iterator with curIndex := iterator.curIndex - 6000 }

def step : RangeCall → RangeIterator
  | .next => iterator.next.2
  | .deref => iterator
  | .rollBack => iterator.rollBack

def after (calls : List RangeCall) : RangeIterator := calls.foldl step iterator

/-- Callers test `Valid ()` before they ask for an element. -/
def Allows (call : RangeCall) : Prop := call = .rollBack ∨ iterator.valid

/-- Elements are read from the window only, and no index wraps below zero. -/
def StaysInside (start stop : UInt64) : RangeCall → Prop
  | .rollBack => 6000 ≤ iterator.curIndex
  | _ => start ≤ iterator.curIndex ∧ iterator.curIndex < stop

/-- A run of calls each of which is allowed where it is made. -/
def Legal (calls : List RangeCall) : Prop :=
  Throughout (fun before call => (iterator.after before).Allows call) [] calls

/-- A run that stays inside from its first call to its last. -/
def KeepsTo (start stop : UInt64) (calls : List RangeCall) : Prop :=
  Throughout (fun before call => (iterator.after before).StaysInside start stop call) [] calls

instance (call : RangeCall) : Decidable (iterator.Allows call) :=
  inferInstanceAs (Decidable (_ ∨ _))

instance (start stop : UInt64) : ∀ call, Decidable (iterator.StaysInside start stop call)
  | .rollBack => inferInstanceAs (Decidable (_ ≤ _))
  | .next | .deref => inferInstanceAs (Decidable (_ ∧ _))

instance (calls : List RangeCall) : Decidable (iterator.Legal calls) :=
  inferInstanceAs (Decidable (Throughout _ _ _))

instance (start stop : UInt64) (calls : List RangeCall) :
    Decidable (iterator.KeepsTo start stop calls) :=
  inferInstanceAs (Decidable (Throughout _ _ _))

@[simp] theorem after_nil : iterator.after [] = iterator := rfl

@[simp] theorem after_concat (calls : List RangeCall) (call : RangeCall) :
    iterator.after (calls ++ [call]) = (iterator.after calls).step call := by
  simp [after]

theorem step_endIndex (call : RangeCall) : (iterator.step call).endIndex = iterator.endIndex := by
  cases call <;> rfl

/-- Where the index is after a call that stays inside of the window. -/
theorem step_curIndex {start stop : UInt64} {call : RangeCall}
    (inside : iterator.StaysInside start stop call) :
    (iterator.step call).curIndex.toNat + 6000 * [call].count .rollBack =
      iterator.curIndex.toNat + [call].count .next := by
  cases call with
  | next => simp [step, RangeIterator.next, toNat_increased inside.2, -UInt64.toNat_add]
  | deref => simp [step]
  | rollBack =>
    have room : 6000 ≤ iterator.curIndex.toNat := UInt64.le_iff_toNat_le.mp inside
    have less : (iterator.curIndex - 6000).toNat = iterator.curIndex.toNat - 6000 :=
      UInt64.toNat_sub_of_le _ _ inside
    simp only [step, rollBack, less, List.count_singleton_self]
    have none : [RangeCall.rollBack].count .next = 0 := rfl
    omega

theorem after_endIndex (calls : List RangeCall) :
    (iterator.after calls).endIndex = iterator.endIndex := by
  induction calls generalizing iterator with
  | nil => rfl
  | cons call calls inductionHypothesis =>
    exact (inductionHypothesis (iterator.step call)).trans (iterator.step_endIndex call)

end RangeIterator

/-- Enough steps were made for every step back: an element may be read when the
    index is not before the start, and a roll back must not go below zero. -/
def StepsSuffice (start : UInt64) (before : List RangeCall) : RangeCall → Prop
  | .rollBack => 6000 * (before.count .rollBack + 1) ≤ start.toNat + before.count .next
  | _ => 6000 * before.count .rollBack ≤ before.count .next

section Window

variable (trace : RandomKeyTrace) (start stop : UInt64)

/-- Every step moved the index by one, and every roll back by 6000. -/
def Tracks (before : List RangeCall) : Prop :=
  ((trace.iterateBetween start stop).after before).curIndex.toNat + 6000 * before.count .rollBack =
    start.toNat + before.count .next

variable {trace start stop}

theorem Tracks.concat {before : List RangeCall} {call : RangeCall}
    (tracks : Tracks trace start stop before)
    (inside : ((trace.iterateBetween start stop).after before).StaysInside start stop call) :
    Tracks trace start stop (before ++ [call]) := by
  have moved := RangeIterator.step_curIndex _ inside
  simp only [Tracks] at tracks ⊢
  rw [RangeIterator.after_concat, List.count_append, List.count_append]
  omega

theorem Tracks.staysInside_iff {before : List RangeCall} {call : RangeCall}
    (tracks : Tracks trace start stop before)
    (allowed : ((trace.iterateBetween start stop).after before).Allows call) :
    ((trace.iterateBetween start stop).after before).StaysInside start stop call ↔
      StepsSuffice start before call := by
  have ends : ((trace.iterateBetween start stop).after before).endIndex = stop :=
    RangeIterator.after_endIndex _ before
  have reads : ((trace.iterateBetween start stop).after before).valid →
      ((start ≤ ((trace.iterateBetween start stop).after before).curIndex ∧
        ((trace.iterateBetween start stop).after before).curIndex < stop) ↔
      6000 * before.count .rollBack ≤ before.count .next) := by
    intro valid
    simp only [RangeIterator.valid, ends, decide_eq_true_eq] at valid
    simp only [Tracks] at tracks
    rw [and_iff_left valid, UInt64.le_iff_toNat_le]
    omega
  cases call with
  | next => exact reads (allowed.resolve_left RangeCall.noConfusion)
  | deref => exact reads (allowed.resolve_left RangeCall.noConfusion)
  | rollBack =>
    simp only [Tracks] at tracks
    have back : (6000 : UInt64).toNat = 6000 := rfl
    simp only [RangeIterator.StaysInside, StepsSuffice, UInt64.le_iff_toNat_le, back]
    omega

/-- A call that stays in a window of the keys reads one of them. -/
theorem deref_isSome_of_staysInside {iterator : RangeIterator}
    (keys : stop.toNat ≤ iterator.keys.length) (inside : iterator.StaysInside start stop .deref) :
    iterator.deref.isSome := by
  have early := UInt64.lt_iff_toNat_lt.mp inside.2
  have known : iterator.curIndex.toNat < iterator.keys.length := by omega
  simp [RangeIterator.deref, known]

end Window

/-- A range iterator stays in its window exactly as long as enough steps were
    made for every roll back. -/
theorem rangeIterator_keepsTo_iff (trace : RandomKeyTrace) (start stop : UInt64)
    (calls : List RangeCall) (legal : (trace.iterateBetween start stop).Legal calls) :
    (trace.iterateBetween start stop).KeepsTo start stop calls ↔
      Throughout (StepsSuffice start) [] calls := by
  have begins : Tracks trace start stop [] := by simp [Tracks, iterateBetween]
  refine throughout_iff ?agree ?keeps begins legal
  case agree =>
    intro before call tracks allowed
    exact Tracks.staysInside_iff tracks allowed
  case keeps =>
    intro before call tracks _ inside
    exact Tracks.concat tracks inside

/-- A read, a step and a roll back from a window far enough behind the first key. -/
theorem rangeIterator_keepsTo_iff_back :
    ((RandomKeyTrace.fresh (List.replicate 6002 11)).iterateBetween 6000 6002).KeepsTo 6000 6002
      [.deref, .next, .rollBack] :=
  (rangeIterator_keepsTo_iff (RandomKeyTrace.fresh (List.replicate 6002 11)) 6000 6002
    [.deref, .next, .rollBack] (by decide)).mpr (by simp [Throughout, StepsSuffice])

/-- A roll back at the start of all keys wraps the index around; one 6000 keys
    further leads to a read before the start. -/
theorem rangeIterator_leaves :
    (((RandomKeyTrace.fresh [11]).iterateBetween 0 1).Legal [.rollBack] ∧
      ¬ ((RandomKeyTrace.fresh [11]).iterateBetween 0 1).KeepsTo 0 1 [.rollBack]) ∧
    ((RandomKeyTrace.fresh (List.replicate 6001 11)).iterateBetween 6000 6001).Legal
        [.rollBack, .deref] ∧
      ¬ ((RandomKeyTrace.fresh (List.replicate 6001 11)).iterateBetween 6000 6001).KeepsTo 6000 6001
        [.rollBack, .deref] := by
  refine ⟨⟨?_, ?_⟩, ?_, ?_⟩ <;> decide

/-! ## `Iterator` -/

structure Iterator where
  keys : List UInt64
  range : UInt64
  endIndex : UInt64
  curIndex : UInt64
  begin : Bool := true

/-- The remainder by a range of zero is undefined. -/
def traceAt (trace : RandomKeyTrace) (startIndex range : UInt64) : Option Iterator :=
  if range = 0 then none
  else some {
    keys := trace.keys
    range := range
    endIndex := startIndex % range
    curIndex := startIndex % range }

namespace Iterator

variable (iterator : Iterator)

def valid : Bool := iterator.begin || iterator.curIndex != iterator.endIndex

def next : Option UInt64 × Iterator :=
  let curIndex := iterator.curIndex + 1
  (iterator.keys[iterator.curIndex.toNat]?,
    { iterator with
      begin := false
      curIndex := if curIndex ≥ iterator.range then 0 else curIndex })

/-- The index goes up by one within the range, around its end. -/
theorem next_curIndex (inside : iterator.curIndex < iterator.range) :
    iterator.next.2.curIndex.toNat = (iterator.curIndex.toNat + 1) % iterator.range.toNat := by
  have below := UInt64.lt_iff_toNat_lt.mp inside
  have more := toNat_increased inside
  by_cases last : iterator.curIndex + 1 ≥ iterator.range
  · have reached := UInt64.le_iff_toNat_le.mp last
    have around : iterator.curIndex.toNat + 1 = iterator.range.toNat := by omega
    simp [next, last, around]
  · have within : iterator.curIndex.toNat + 1 < iterator.range.toNat := by
      rw [ge_iff_le, UInt64.le_iff_toNat_le] at last
      omega
    simp only [next, if_neg last, more, Nat.mod_eq_of_lt within]

/-- A turn of `while (it.Valid ()) it.Next ()`, with the elements so far. -/
def walkTurn (state : Iterator × List UInt64) :
    Turn (Iterator × List UInt64) (Option (List UInt64)) :=
  if state.1.valid then
    match state.1.next with
    | (some element, iterator) => .again (iterator, state.2 ++ [element])
    | (none, _) => .done none
  else
    .done (some state.2)

end Iterator

/-! ## One walk around the range -/

/-- A walk after some of its steps. -/
structure Walked (trace : RandomKeyTrace) (startIndex range : UInt64) (steps : ℕ)
    (state : Iterator × List UInt64) : Prop where
  sameKeys : state.1.keys = trace.keys
  sameRange : state.1.range = range
  endIndex : state.1.endIndex.toNat = startIndex.toNat % range.toNat
  curIndex : state.1.curIndex.toNat = (startIndex.toNat + steps) % range.toNat
  begin : state.1.begin = decide (steps = 0)
  elements : state.2 = ((trace.keys.take range.toNat).rotate startIndex.toNat).take steps

namespace Walked

variable {trace : RandomKeyTrace} {startIndex range : UInt64} {steps : ℕ}
  {state : Iterator × List UInt64}

/-- Where the cycle ends is where it starts; the flag tells the two apart. -/
theorem valid_iff (walked : Walked trace startIndex range steps state)
    (within : steps ≤ range.toNat) (positive : 0 < range.toNat) :
    state.1.valid ↔ steps < range.toNat := by
  have same : state.1.curIndex = state.1.endIndex ↔
      (startIndex.toNat + steps) % range.toNat = startIndex.toNat % range.toNat := by
    rw [← UInt64.toNat_inj, walked.curIndex, walked.endIndex]
  simp only [Iterator.valid, walked.begin, Bool.or_eq_true, decide_eq_true_eq, bne_iff_ne, same,
    ne_eq]
  constructor
  · intro goesOn
    cases goesOn with
    | inl first => omega
    | inr apart =>
      apply Nat.lt_of_le_of_ne within
      intro around
      simp [around] at apart
  · intro early
    cases Nat.eq_zero_or_pos steps with
    | inl first => exact Or.inl first
    | inr moved => exact Or.inr (add_mod_ne moved early)

/-- The element of a step, which is also the next one of the rotated range. -/
theorem element (walked : Walked trace startIndex range steps state)
    (early : steps < range.toNat) (known : range.toNat ≤ trace.keys.length) :
    ∃ element, state.1.next.1 = some element ∧
      ((trace.keys.take range.toNat).rotate startIndex.toNat)[steps]? = some element := by
  have inside : (startIndex.toNat + steps) % range.toNat < range.toNat :=
    Nat.mod_lt _ (Nat.zero_lt_of_lt early)
  have length : (trace.keys.take range.toNat).length = range.toNat := List.length_take_of_le known
  have rotated := @List.getElem?_rotate _ (trace.keys.take range.toNat) startIndex.toNat steps
    (by rw [length]; exact early)
  rw [length, Nat.add_comm, List.getElem?_take_of_lt inside] at rotated
  have place : (startIndex.toNat + steps) % range.toNat < trace.keys.length := by omega
  refine ⟨trace.keys[(startIndex.toNat + steps) % range.toNat], ?_, ?_⟩
  · rw [Iterator.next, walked.sameKeys, walked.curIndex, List.getElem?_eq_getElem]
  · rw [rotated, List.getElem?_eq_getElem]

theorem walkTurn_again (walked : Walked trace startIndex range steps state)
    (early : steps < range.toNat) (known : range.toNat ≤ trace.keys.length) :
    ∃ next, Iterator.walkTurn state = .again next ∧
      Walked trace startIndex range (steps + 1) next := by
  have positive : 0 < range.toNat := Nat.zero_lt_of_lt early
  have valid := (walked.valid_iff early.le positive).mpr early
  obtain ⟨element, read, rotated⟩ := walked.element early known
  have inside : state.1.curIndex < state.1.range := by
    rw [UInt64.lt_iff_toNat_lt, walked.curIndex, walked.sameRange]
    exact Nat.mod_lt _ positive
  have turn : Iterator.walkTurn state = .again (state.1.next.2, state.2 ++ [element]) := by
    have pair : state.1.next = (some element, state.1.next.2) := by rw [← read]
    rw [Iterator.walkTurn, if_pos valid, pair]
  refine ⟨_, turn, walked.sameKeys, walked.sameRange, walked.endIndex, ?_, rfl, ?_⟩
  · rw [Iterator.next_curIndex _ inside, walked.curIndex, walked.sameRange, Nat.mod_add_mod,
      Nat.add_assoc]
  · rw [List.take_add_one, rotated, walked.elements, Option.toList_some]

theorem walkTurn_done (walked : Walked trace startIndex range range.toNat state)
    (positive : 0 < range.toNat) :
    Iterator.walkTurn state =
      .done (some ((trace.keys.take range.toNat).rotate startIndex.toNat)) := by
  have ended : ¬ state.1.valid := by
    rw [walked.valid_iff le_rfl positive]
    exact Nat.lt_irrefl _
  have length : ((trace.keys.take range.toNat).rotate startIndex.toNat).length ≤ range.toNat := by
    simp
  rw [Iterator.walkTurn, if_neg ended, walked.elements, List.take_of_length_le length]

end Walked

theorem traceAt_walked (trace : RandomKeyTrace) (startIndex : UInt64) {range : UInt64}
    (positive : 0 < range.toNat) :
    ∃ iterator, trace.traceAt startIndex range = some iterator ∧
      Walked trace startIndex range 0 (iterator, []) := by
  have nonzero : range ≠ 0 := by
    intro zero
    simp [zero] at positive
  exact ⟨_, if_neg nonzero, rfl, rfl, UInt64.toNat_mod _ _, UInt64.toNat_mod _ _, rfl, rfl⟩

/-- A walk rotates its range. -/
theorem run_walkTurn {trace : RandomKeyTrace} {startIndex range : UInt64}
    {state : Iterator × List UInt64} (walked : Walked trace startIndex range 0 state)
    (positive : 0 < range.toNat) (known : range.toNat ≤ trace.keys.length) :
    run Iterator.walkTurn range.toNat state = none ∧
      ∃ result, run Iterator.walkTurn (range.toNat + 1) state = some result ∧
        result = some ((trace.keys.take range.toNat).rotate startIndex.toNat) := by
  apply run_counted _ (Walked trace startIndex range) _ _ _ (Nat.zero_add _) walked
  · intro steps state early sofar
    exact sofar.walkTurn_again early known
  · intro state sofar
    exact ⟨_, sofar.walkTurn_done positive, rfl⟩

/-- A walk from any start ends after as many steps as its range is long, and
    returns the elements from the start on, around the end of the range. -/
theorem traceAt_walk (trace : RandomKeyTrace) (startIndex range : UInt64)
    (positive : 0 < range.toNat) (known : range.toNat ≤ trace.keys.length) :
    ∃ iterator, trace.traceAt startIndex range = some iterator ∧
      run Iterator.walkTurn range.toNat (iterator, []) = none ∧
      ∃ elements, run Iterator.walkTurn (range.toNat + 1) (iterator, []) = some (some elements) ∧
        elements.length = range.toNat ∧
        (∀ steps < range.toNat,
          elements[steps]? = trace.keys[(startIndex.toNat + steps) % range.toNat]?) ∧
        ((List.range range.toNat).map fun steps => (startIndex.toNat + steps) % range.toNat).Perm
          (List.range range.toNat) := by
  obtain ⟨iterator, made, walked⟩ := traceAt_walked trace startIndex positive
  obtain ⟨goesOn, result, returns, rotated⟩ := run_walkTurn walked positive known
  have length : (trace.keys.take range.toNat).length = range.toNat := List.length_take_of_le known
  subst rotated
  refine ⟨iterator, made, goesOn, _, returns, ?_, ?_, perm_positions _ _⟩
  · rw [List.length_rotate, length]
  · intro steps early
    have inside : (startIndex.toNat + steps) % range.toNat < range.toNat := Nat.mod_lt _ positive
    rw [List.getElem?_rotate (by rw [length]; exact early), length, Nat.add_comm,
      List.getElem?_take_of_lt inside]

/-- Three of four keys, from a start beyond them. -/
theorem traceAt_walk_three :
    ∃ iterator, (RandomKeyTrace.fresh [11, 22, 33, 44]).traceAt 7 3 = some iterator ∧
      run Iterator.walkTurn 3 (iterator, []) = none ∧
      ∃ elements, run Iterator.walkTurn (3 + 1) (iterator, []) = some (some elements) ∧
        elements.length = 3 ∧
        (∀ steps < 3, elements[steps]? =
          (RandomKeyTrace.fresh [11, 22, 33, 44]).keys[(7 + steps) % 3]?) ∧
        ((List.range 3).map fun steps => (7 + steps) % 3).Perm (List.range 3) :=
  traceAt_walk (RandomKeyTrace.fresh [11, 22, 33, 44]) 7 3 (by decide) (by decide)

end FdpRocks.Benchmark.RandomKeyTrace
