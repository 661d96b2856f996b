import FdpRocks.Library.Double

/-! # `compare_csv.py`

The gate of a reproduction: two tables, cell by cell.  A table is what
`csv.reader` yields of its file.

* `compareCsv_accepts` — what a run that exits successfully has checked.
* `reproduces_iff` — when such a run means that the tables agree.
-/

namespace FdpRocks.Scripts

open FdpRocks.Library FdpRocks.Library.Numerals FdpRocks.Library.PythonText

abbrev Cell : Type := List Char

/-- How the script ends other than successfully. -/
inductive Exit where
  | stopIteration
  | systemExit (message : List Char)
deriving DecidableEq

/-! ## The script -/

/-- The header and the other rows; `next` fails on an empty table. -/
def rows : List (List Cell) → Except Exit (List Cell × List (List Cell))
  | [] => .error .stopIteration
  | header :: rest => .ok (header, rest)

def headersDiffer : List Char := "CSV headers differ".toList

def rowCountsDiffer : List Char := "CSV row counts differ".toList

def columnCountDiffers (rowIndex : ℕ) : List Char :=
  "CSV column count differs at row ".toList ++ decimal rowIndex

def textDiffers (rowIndex column : ℕ) : List Char :=
  "CSV text differs at row ".toList ++ decimal rowIndex ++ ", column ".toList ++ decimal column

def valueDiffers (rowIndex column : ℕ) (left right : Cell) : List Char :=
  "CSV value differs at row ".toList ++ decimal rowIndex ++ ", column ".toList ++ decimal column
    ++ ": ".toList ++ left ++ " vs ".toList ++ right

variable (unicode : Unicode) (tolerance : Double)

def compareCell (rowIndex column : ℕ) (left right : Cell) : Except Exit Unit :=
  match Float.float unicode left, Float.float unicode right with
  | some first, some second =>
    if tolerance.less (first.sub second).abs then
      .error (.systemExit (valueDiffers rowIndex column left right))
    else .ok ()
  | _, _ =>
    if left ≠ right then
      .error (.systemExit (textDiffers rowIndex column))
    else .ok ()

/-- The inner loop, from `column` on. -/
def compareCells (rowIndex column : ℕ) : List Cell → List Cell → Except Exit Unit
  | left :: expected, right :: actual => do
    compareCell unicode tolerance rowIndex column left right
    compareCells rowIndex (column + 1) expected actual
  | _, _ => .ok ()

/-- The outer loop, from `rowIndex` on. -/
def compareRows (rowIndex : ℕ) : List (List Cell) → List (List Cell) → Except Exit Unit
  | expected :: expectedRows, actual :: actualRows =>
    if expected.length ≠ actual.length then
      .error (.systemExit (columnCountDiffers rowIndex))
    else do
      compareCells unicode tolerance rowIndex 1 expected actual
      compareRows (rowIndex + 1) expectedRows actualRows
  | _, _ => .ok ()

def compareCsv (expected actual : List (List Cell)) : Except Exit Unit := do
  let (expectedHeader, expectedRows) ← rows expected
  let (actualHeader, actualRows) ← rows actual
  if expectedHeader ≠ actualHeader then
    .error (.systemExit headersDiffer)
  else if expectedRows.length ≠ actualRows.length then
    .error (.systemExit rowCountsDiffer)
  else compareRows unicode tolerance 2 expectedRows actualRows

theorem compareCsv_header (header : List Cell) (expected actual : List (List Cell)) :
    compareCsv unicode tolerance (header :: expected) (header :: actual)
      = if expected.length ≠ actual.length then .error (.systemExit rowCountsDiffer)
        else compareRows unicode tolerance 2 expected actual :=
  if_neg (not_not.mpr rfl)

/-! ## What it is to mean -/

/-- A number within the tolerance. -/
def Within (gap : ℚ) : Double → Prop
  | .finite bound => gap ≤ bound
  | .infinity negative => negative = false
  | .nan => False

/-- The same text, or two finite numbers that differ by the tolerance at most. -/
def CellsAgree (left right : Cell) : Prop :=
  left = right ∨ ∃ first second : ℚ, Float.float unicode left = some (.finite first) ∧
    Float.float unicode right = some (.finite second) ∧ Within |first - second| tolerance

/-- Equal headers, and rows of the same number and lengths whose cells agree. -/
def TablesAgree (expected actual : List (List Cell)) : Prop :=
  ∃ header expectedRows actualRows, expected = header :: expectedRows ∧
    actual = header :: actualRows ∧
    List.Forall₂ (List.Forall₂ (CellsAgree unicode tolerance)) expectedRows actualRows

/-- A successful exit means that the tables agree. -/
def Reproduces (expected actual : List (List Cell)) : Prop :=
  compareCsv unicode tolerance expected actual = .ok () →
    TablesAgree unicode tolerance expected actual

/-! ## What it does check -/

/-- The header of both is the same, and so are the lengths of all rows. -/
def SameShape (expected actual : List (List Cell)) : Prop :=
  ∃ header expectedRows actualRows, expected = header :: expectedRows ∧
    actual = header :: actualRows ∧
    List.Forall₂ (fun left right => left.length = right.length) expectedRows actualRows

/-- The cells that stand in the same place of both. -/
def alignedCells (expected actual : List (List Cell)) : List (Cell × Cell) :=
  (expected.tail.zip actual.tail).flatMap fun row => row.1.zip row.2

/-- Different texts that are not both numbers, or a computed difference above
    the tolerance. -/
def ToldApart (left right : Cell) : Prop :=
  left ≠ right ∧ (Float.float unicode left = none ∨ Float.float unicode right = none) ∨
  ∃ first second, Float.float unicode left = some first ∧ Float.float unicode right = some second ∧
    tolerance.less (first.sub second).abs = true

theorem compareCell_accepts {rowIndex column : ℕ} {left right : Cell} :
    compareCell unicode tolerance rowIndex column left right = .ok () ↔
      ¬ ToldApart unicode tolerance left right := by
  unfold compareCell ToldApart
  cases Float.float unicode left with
  | none => by_cases same : left = right <;> simp [same]
  | some first =>
    cases Float.float unicode right with
    | none => by_cases same : left = right <;> simp [same]
    | some second => cases apart : tolerance.less (first.sub second).abs <;> simp [apart]

theorem bind_ok_iff {first second : Except Exit Unit} :
    (first >>= fun _ => second) = .ok () ↔ first = .ok () ∧ second = .ok () := by
  cases first with
  | error exit =>
    constructor
    · intro ok
      cases ok
    · rintro ⟨ok, _⟩
      cases ok
  | ok _ => exact ⟨fun ok => ⟨rfl, ok⟩, fun both => both.2⟩

theorem compareCells_accepts (rowIndex column : ℕ) (expected actual : List Cell) :
    compareCells unicode tolerance rowIndex column expected actual = .ok () ↔
      ∀ pair ∈ expected.zip actual, ¬ ToldApart unicode tolerance pair.1 pair.2 := by
  induction expected generalizing column actual with
  | nil => simp [compareCells]
  | cons left expected inductionHypothesis =>
    cases actual with
    | nil => simp [compareCells]
    | cons right actual =>
      rw [compareCells, bind_ok_iff, compareCell_accepts, inductionHypothesis, List.zip_cons_cons,
        List.forall_mem_cons]

theorem compareRows_accepts (rowIndex : ℕ) {expected actual : List (List Cell)}
    (count : expected.length = actual.length) :
    compareRows unicode tolerance rowIndex expected actual = .ok () ↔
      List.Forall₂ (fun left right => left.length = right.length) expected actual ∧
      ∀ pair ∈ (expected.zip actual).flatMap fun row => row.1.zip row.2,
        ¬ ToldApart unicode tolerance pair.1 pair.2 := by
  induction expected generalizing rowIndex actual with
  | nil =>
    cases List.length_eq_zero_iff.mp count.symm
    simp [compareRows]
  | cons left expected inductionHypothesis =>
    cases actual with
    | nil => cases count
    | cons right actual =>
      rw [compareRows, List.zip_cons_cons, List.flatMap_cons, List.forall_mem_append,
        List.forall₂_cons]
      -- A row of another length ends the comparison before its cells are read.
      by_cases same : left.length = right.length
      · rw [if_neg (not_not.mpr same), bind_ok_iff, compareCells_accepts,
          inductionHypothesis (rowIndex + 1) (Nat.succ.inj count)]
        tauto
      · rw [if_pos same]
        constructor
        · intro ok
          cases ok
        · exact fun shape => absurd shape.1.1 same

/-- A run that exits successfully has compared the shapes and all aligned cells. -/
theorem compareCsv_accepts {expected actual : List (List Cell)} :
    compareCsv unicode tolerance expected actual = .ok () ↔
      SameShape expected actual ∧ ∀ pair ∈ alignedCells expected actual,
        ¬ ToldApart unicode tolerance pair.1 pair.2 := by
  cases expected with
  | nil =>
    constructor
    · intro ok
      cases ok
    · rintro ⟨⟨_, _, _, cons, _⟩, _⟩
      cases cons
  | cons expectedHeader expectedRows =>
    cases actual with
    | nil =>
      constructor
      · intro ok
        cases ok
      · rintro ⟨⟨_, _, _, _, cons, _⟩, _⟩
        cases cons
    | cons actualHeader actualRows =>
      show (if expectedHeader ≠ actualHeader then _ else if expectedRows.length ≠ actualRows.length
        then _ else compareRows unicode tolerance 2 expectedRows actualRows) = _ ↔ _
      constructor
      · intro ok
        split at ok
        next => cases ok
        next sameHeader =>
          split at ok
          next => cases ok
          next sameCount =>
            obtain ⟨lengths, cells⟩ :=
              (compareRows_accepts unicode tolerance 2 (not_not.mp sameCount)).mp ok
            exact ⟨⟨_, _, _, rfl, by rw [not_not.mp sameHeader], lengths⟩, cells⟩
      · rintro ⟨⟨header, _, _, sameLeft, sameRight, lengths⟩, cells⟩
        cases sameLeft
        cases sameRight
        rw [if_neg (not_not.mpr rfl), if_neg (not_not.mpr lengths.length_eq),
          compareRows_accepts unicode tolerance 2 lengths.length_eq]
        exact ⟨lengths, cells⟩

/-! ## Where that is enough -/

/-- Two numbers that are not told apart although they are not both finite and
    within the tolerance. -/
def Misleads : Double → Double → Prop
  | .finite first, .finite second =>
    tolerance.less (Double.round (first - second)).abs = false ∧ ¬ Within |first - second| tolerance
  | .infinity first, .infinity second => first = second ∨ tolerance = .infinity false
  | .infinity _, .finite _ | .finite _, .infinity _ => tolerance = .infinity false
  | .nan, _ | _, .nan => True

/-- Different texts of two such numbers. -/
def Slips (left right : Cell) : Prop :=
  left ≠ right ∧ ∃ first second, Float.float unicode left = some first ∧
    Float.float unicode right = some second ∧ Misleads tolerance first second

/-- Among what is not told apart, an infinite distance needs an infinite
    tolerance. -/
theorem infinity_of_close {tolerance : Double} (nonneg : Within 0 tolerance)
    (close : tolerance.less (.infinity false) = false) : tolerance = .infinity false := by
  cases tolerance with
  | finite bound => cases close
  | infinity negative => rw [show negative = false from nonneg]
  | nan => exact nonneg.elim

theorem misleads_iff {tolerance : Double} (nonneg : Within 0 tolerance) {first second : Double}
    (close : tolerance.less (first.sub second).abs = false) :
    Misleads tolerance first second ↔ ¬ ∃ left right : ℚ, first = .finite left ∧
      second = .finite right ∧ Within |left - right| tolerance := by
  cases first with
  | finite left =>
    cases second with
    | finite right =>
      constructor
      · rintro ⟨_, far⟩ ⟨_, _, same, other, near⟩
        cases same
        cases other
        exact far near
      · exact fun far => ⟨close, fun near => far ⟨_, _, rfl, rfl, near⟩⟩
    | infinity negative => simp [Misleads, infinity_of_close nonneg close]
    | nan => simp [Misleads]
  | infinity negative =>
    cases second with
    | finite right => simp [Misleads, infinity_of_close nonneg close]
    | infinity other =>
      -- Infinities of the same sign have a NaN as difference.
      by_cases same : negative = other
      · simp [Misleads, same]
      · rw [Double.sub, if_neg same] at close
        simp [Misleads, infinity_of_close nonneg close]
    | nan => simp [Misleads]
  | nan => simp [Misleads]

theorem cellsAgree_iff (nonneg : Within 0 tolerance) {left right : Cell}
    (accepted : ¬ ToldApart unicode tolerance left right) :
    CellsAgree unicode tolerance left right ↔ ¬ Slips unicode tolerance left right := by
  unfold CellsAgree Slips
  unfold ToldApart at accepted
  by_cases same : left = right
  · simp [same]
  · cases first : Float.float unicode left with
    | none => exact absurd (.inl ⟨same, .inl first⟩) accepted
    | some number =>
      cases second : Float.float unicode right with
      | none => exact absurd (.inl ⟨same, .inr second⟩) accepted
      | some other =>
        have close : tolerance.less (number.sub other).abs = false := by
          rw [← Bool.not_eq_true]
          exact fun far => accepted (.inr ⟨_, _, first, second, far⟩)
        have misleads := misleads_iff nonneg close
        simp [same, misleads]

theorem tablesAgree_iff {expected actual : List (List Cell)} :
    TablesAgree unicode tolerance expected actual ↔ SameShape expected actual ∧
      ∀ pair ∈ alignedCells expected actual, CellsAgree unicode tolerance pair.1 pair.2 := by
  constructor
  · rintro ⟨header, expectedRows, actualRows, rfl, rfl, agree⟩
    refine ⟨⟨header, _, _, rfl, rfl, agree.imp fun _ _ => List.Forall₂.length_eq⟩, ?_⟩
    intro pair member
    obtain ⟨row, rowMember, pairMember⟩ := List.mem_flatMap.mp member
    have cells := (List.forall₂_iff_zip.mp agree).2 rowMember
    exact (List.forall₂_iff_zip.mp cells).2 pairMember
  -- Rows and cells are aligned by position, once at each level.
  · rintro ⟨⟨header, expectedRows, actualRows, rfl, rfl, lengths⟩, agree⟩
    refine ⟨header, _, _, rfl, rfl, List.forall₂_iff_zip.mpr ⟨lengths.length_eq, ?_⟩⟩
    intro left right rowMember
    refine List.forall₂_iff_zip.mpr ⟨(List.forall₂_iff_zip.mp lengths).2 rowMember, ?_⟩
    intro first second pairMember
    exact agree (first, second) (List.mem_flatMap.mpr ⟨_, rowMember, pairMember⟩)

/-- A successful exit means agreement exactly where the shapes differ, some
    aligned cells are told apart, or no aligned cells slip. -/
theorem reproduces_iff (nonneg : Within 0 tolerance) (expected actual : List (List Cell)) :
    Reproduces unicode tolerance expected actual ↔
      ¬ SameShape expected actual ∨
      (∃ pair ∈ alignedCells expected actual, ToldApart unicode tolerance pair.1 pair.2) ∨
      ∀ pair ∈ alignedCells expected actual, ¬ Slips unicode tolerance pair.1 pair.2 := by
  unfold Reproduces
  rw [compareCsv_accepts, tablesAgree_iff]
  -- Without a shape the script fails, and nothing is promised.
  by_cases shape : SameShape expected actual
  · by_cases apart : ∃ pair ∈ alignedCells expected actual, ToldApart unicode tolerance pair.1 pair.2
    · simp only [shape, apart, true_and, not_true, true_or, or_true, iff_true]
      intro accepted
      obtain ⟨pair, member, told⟩ := apart
      exact absurd told (accepted pair member)
    · have accepted : ∀ pair ∈ alignedCells expected actual,
          ¬ ToldApart unicode tolerance pair.1 pair.2 := by
        simpa using apart
      have cells : (∀ pair ∈ alignedCells expected actual, CellsAgree unicode tolerance pair.1 pair.2)
          ↔ ∀ pair ∈ alignedCells expected actual, ¬ Slips unicode tolerance pair.1 pair.2 :=
        forall₂_congr fun pair member => cellsAgree_iff unicode tolerance nonneg (accepted pair member)
      rw [cells]
      tauto
  · tauto

/-- A table of one row. -/
def oneCell (cell : Cell) : List (List Cell) := [["x".toList], [cell]]

/-- Two numbers that are not the same, within a tolerance of one. -/
theorem reproduces_iff_number : "2.5".toList ≠ "2.75".toList ∧
    Reproduces .ascii (.finite 1) (oneCell "2.5".toList) (oneCell "2.75".toList) := by
  have nonneg : Within 0 (.finite 1) := zero_le_one (α := ℚ)
  have left : Float.float .ascii "2.5".toList = some (.finite (5 / 2)) := by decide +kernel
  have right : Float.float .ascii "2.75".toList = some (.finite (11 / 4)) := by decide +kernel
  refine ⟨by decide, (reproduces_iff .ascii _ nonneg _ _).mpr (.inr (.inr ?_))⟩
  rintro pair member ⟨_, first, second, isFirst, isSecond, misleads⟩
  cases List.mem_singleton.mp member
  rw [left] at isFirst
  rw [right] at isSecond
  cases isFirst
  cases isSecond
  have near : Within |(5 / 2 : ℚ) - 11 / 4| (.finite 1) := by
    show |(5 / 2 : ℚ) - 11 / 4| ≤ 1
    norm_num
  exact misleads.2 near

/-- NaN passes as any number. -/
theorem nan_reproduces :
    ¬ ∀ tolerance, Within 0 tolerance → ∀ expected actual,
      Reproduces .ascii tolerance expected actual := by
  intro sound
  have nonneg : Within 0 (.finite 1) := zero_le_one (α := ℚ)
  have left : Float.float .ascii "nan".toList = some .nan := by decide
  have right : Float.float .ascii "1.5".toList = some (Double.round (3 / 2)) := by
    have number : Float.number .ascii "1.5".toList = some (3 / 2) := by decide +kernel
    show Option.map Double.round (Float.number .ascii "1.5".toList) = _
    rw [number]
    rfl
  have agree := sound _ nonneg (oneCell "nan".toList) (oneCell "1.5".toList) ?_
  · obtain ⟨_, _, _, same, other, rows⟩ := agree
    cases same
    cases other
    obtain ⟨row, _⟩ := List.forall₂_cons.mp rows
    obtain ⟨cell, _⟩ := List.forall₂_cons.mp row
    obtain same | ⟨_, _, finite, _⟩ := cell
    · exact absurd same (by decide)
    · rw [left] at finite
      cases finite
  · rw [compareCsv_accepts]
    refine ⟨⟨_, _, _, rfl, rfl, .cons rfl .nil⟩, ?_⟩
    intro pair member
    cases List.mem_singleton.mp member
    rintro (⟨_, none | none⟩ | ⟨_, _, first, second, far⟩)
    · rw [left] at none
      cases none
    · rw [right] at none
      cases none
    · rw [left] at first
      cases first
      cases far

end FdpRocks.Scripts
