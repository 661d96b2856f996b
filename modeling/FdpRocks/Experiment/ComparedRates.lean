import FdpRocks.Experiment.RatesTable
import FdpRocks.Library.Csv
import FdpRocks.Scripts.CompareCsv

/-! # Two tables of rates

`compare_csv.py` of files that `results_to_csv.py` has written.

* `resultsToCsv_rows` — what the rows of such a table look like.
* `compareFiles_rates` — such files pass only when they are the same, and otherwise
  the script names the first cell in which they differ.
-/

namespace FdpRocks.Experiment

open FdpRocks.Library FdpRocks.Library.Numerals FdpRocks.Library.PythonText FdpRocks.Scripts

/-! ## The scripts on files -/

/-- The file that `main` of `results_to_csv.py` writes. -/
def ratesFile (table : List (List Cell)) : List Char := Csv.write .excel table

/-- `main` of `compare_csv.py`; `none` is an error of the reader.  Of an empty first
    file, the second one is never read. -/
def compareFiles (unicode : Unicode) (tolerance : Double) (expected actual : List Char) :
    Option (Except Exit Unit) := do
  let expectedRows ← Csv.read .excel expected
  if expectedRows = [] then return .error .stopIteration
  let actualRows ← Csv.read .excel actual
  return compareCsv unicode tolerance expectedRows actualRows

/-! ## The rows of a table -/

/-- Thousandths of a rate below a million millions. -/
def Thousandths (number : ℕ) : Prop := number ≤ 10 ^ 15

/-- The row of a workload with three rates. -/
def RatesRow (row : List Cell) : Prop :=
  ∃ workload ∈ knownWorkloads, ∃ numbers : List ℕ, numbers.length = 3 ∧
    (∀ number ∈ numbers, Thousandths number) ∧ row = label workload :: numbers.map (pointed 3)

/-- No log with a rate above a million millions. -/
def Modest (unicode : Unicode) (read : List Char → Option (List Char)) : Prop :=
  ∀ path log value, read path = some log → throughput unicode path (universalNewlines log) = .ok value →
    value ≤ 10 ^ 12

section Rows

variable {unicode : Unicode} {read : List Char → Option (List Char)} {root text : List Char}

theorem float_nonneg {text : List Char} {number : ℚ} (found : unicode.float text = some number) :
    0 ≤ number := by
  unfold Unicode.float at found
  dsimp only at found
  split at found
  next =>
    split at found
    next => cases found
    next =>
      cases found
      exact Nat.cast_nonneg _
  next =>
    split at found
    next =>
      cases found
      positivity
    next => cases found

theorem throughput_nonneg {path log : List Char} {value : ℚ}
    (ok : throughput unicode path log = .ok value) : 0 ≤ value := by
  unfold throughput at ok
  split at ok
  next => cases ok
  next =>
    split at ok
    next =>
      split at ok
      next number found =>
        cases ok
        exact mul_nonneg (float_nonneg found) (by norm_num)
      next => cases ok
    next => cases ok

theorem rateCell_pointed (modest : Modest unicode read) {path : List Char} {cell : Cell}
    (ok : rateCell unicode read path = .ok cell) :
    ∃ number, Thousandths number ∧ cell = pointed 3 number := by
  unfold rateCell at ok
  split at ok
  next => cases ok
  next log found =>
    split at ok
    next => cases ok
    next value rate =>
      cases ok
      have nonneg := throughput_nonneg rate
      have bound := modest path log value found rate
      refine ⟨(roundHalfEven (value * 10 ^ 3)).toNat, ?_, fixedPoint_nonneg nonneg 3⟩
      have scaled : value * 10 ^ 3 ≤ 10 ^ 15 := by
        calc value * 10 ^ 3 ≤ 10 ^ 12 * 10 ^ 3 := mul_le_mul_of_nonneg_right bound (by norm_num)
          _ = 10 ^ 15 := by norm_num
      have near : (roundHalfEven (value * 10 ^ 3) : ℚ) ≤ 10 ^ 15 + 1 / 2 :=
        (roundHalfEven_le (value * 10 ^ 3)).trans (add_le_add_left scaled (1 / 2))
      have less : ((roundHalfEven (value * 10 ^ 3) : ℤ) : ℚ) < ((10 ^ 15 + 1 : ℤ) : ℚ) :=
        near.trans_lt (by norm_num)
      have whole : roundHalfEven (value * 10 ^ 3) < 10 ^ 15 + 1 := by exact_mod_cast less
      unfold Thousandths
      omega

theorem ratesRow_row (modest : Modest unicode read) {workload : List Char} {row : List Cell}
    (known : workload ∈ knownWorkloads) (ok : ratesRow unicode read root workload = .ok row) :
    RatesRow row := by
  unfold ratesRow at ok
  cases read : ratedModes.mapM fun mode => rateCell unicode read (phase2Log root workload mode) with
  | error failure =>
    rw [read] at ok
    cases ok
  | ok cells =>
    rw [read] at ok
    cases ok
    have each := forall₂_of_mapM read
    have count : 3 = cells.length := each.length_eq
    have printed : ∃ numbers : List ℕ, (∀ number ∈ numbers, Thousandths number) ∧
        cells = numbers.map (pointed 3) := by
      clear read count
      generalize ratedModes = modes at each
      induction each with
      | nil => exact ⟨[], by simp, rfl⟩
      | cons here _ inductionHypothesis =>
        obtain ⟨number, small, rfl⟩ := rateCell_pointed modest here
        obtain ⟨numbers, smalls, rfl⟩ := inductionHypothesis
        exact ⟨number :: numbers, List.forall_mem_cons.mpr ⟨small, smalls⟩, rfl⟩
    obtain ⟨numbers, smalls, rfl⟩ := printed
    rw [List.length_map] at count
    exact ⟨workload, known, numbers, count.symm, smalls, rfl⟩

theorem resultsToCsv_rows (modest : Modest unicode read) {table : List (List Cell)}
    (ok : resultsToCsv unicode read root text = .ok table) :
    ∃ rows, table = ratesHeader :: rows ∧ ∀ row ∈ rows, RatesRow row := by
  unfold resultsToCsv at ok
  dsimp only at ok
  split at ok
  next => cases ok
  next noneUnknown =>
    cases read : (selectedWorkloads unicode text).mapM (ratesRow unicode read root) with
    | error failure =>
      rw [read] at ok
      cases ok
    | ok rows =>
      rw [read] at ok
      cases ok
      refine ⟨rows, rfl, fun row member => ?_⟩
      obtain ⟨workload, selected, here⟩ := exists_of_mem_mapM read member
      refine ratesRow_row modest ?_ here
      by_contra unknown
      apply noneUnknown
      rw [ne_eq, List.dedup_eq_nil, List.filter_eq_nil_iff]
      intro none
      exact none workload selected (by simpa using unknown)

end Rows

/-! ## One cell -/

section Cells

variable (unicode : Unicode)

theorem float_label {workload : List Char} (known : workload ∈ knownWorkloads) :
    Float.float unicode (label workload) = none := by
  have visible := isSpace_visible unicode
    (show ((label workload).all fun character => character.toNat < 128 && !isAsciiSpace character) = true by
      fin_cases known <;> decide)
  have noMinus : '-' ∉ label workload := by fin_cases known <;> decide
  have noPlus : '+' ∉ label workload := by fin_cases known <;> decide
  obtain ⟨head, text, opens, capital⟩ : ∃ head text, label workload = head :: text ∧ head ∈ ['U', 'Z'] := by
    fin_cases known <;> exact ⟨_, _, rfl, by decide⟩
  rw [opens] at visible noMinus noPlus ⊢
  rcases List.mem_pair.mp capital with rfl | rfl
  · exact Float.float_word visible noMinus noPlus (unicode.isDigit_ascii 'U' (by decide)) (by decide)
      (by decide)
  · exact Float.float_word visible noMinus noPlus (unicode.isDigit_ascii 'Z' (by decide)) (by decide)
      (by decide)

variable {tolerance : ℚ} {left right : ℕ}

theorem rate_le (small : Thousandths left) : (left : ℚ) / 10 ^ 3 ≤ 10 ^ 12 := by
  have cast : (left : ℚ) ≤ 10 ^ 15 := by exact_mod_cast small
  rw [div_le_iff₀ (by norm_num)]
  exact cast.trans (by norm_num)

theorem abs_rate_lt (small : Thousandths left) : |(left : ℚ) / 10 ^ 3| < 2 ^ 40 := by
  rw [abs_of_nonneg (by positivity)]
  exact (rate_le small).trans_lt (by norm_num)

/-- Two rates that are printed differently. -/
theorem rates_apart (fine : tolerance ≤ 1 / 2000) (small : Thousandths left) (otherSmall : Thousandths right)
    (apart : left ≠ right) : (Double.finite tolerance).less
      ((Double.round ((left : ℚ) / 10 ^ 3)).sub (Double.round ((right : ℚ) / 10 ^ 3))).abs = true := by
  have nonneg : ∀ number : ℕ, (0 : ℚ) ≤ (number : ℚ) / 10 ^ 3 := fun number => by positivity
  have gap : 1 / 10 ^ 3 ≤ |(left : ℚ) / 10 ^ 3 - right / 10 ^ 3| := by
    have whole : (1 : ℤ) ≤ |(left : ℤ) - right| := Int.one_le_abs (sub_ne_zero.mpr (by exact_mod_cast apart))
    have cast : (1 : ℚ) ≤ |(left : ℚ) - right| := by exact_mod_cast whole
    rw [← sub_div, abs_div, abs_of_pos (by norm_num : (0 : ℚ) < 10 ^ 3)]
    exact div_le_div_of_nonneg_right cast (by norm_num)
  have apartBound := abs_sub_le_of_nonneg_of_le (nonneg left) (rate_le small) (nonneg right)
    (rate_le otherSmall)
  obtain ⟨first, isFirst, nearFirst⟩ := Double.round_near (abs_rate_lt small)
  obtain ⟨second, isSecond, nearSecond⟩ := Double.round_near (abs_rate_lt otherSmall)
  rw [abs_le] at nearFirst nearSecond apartBound
  have difference : |first - second| < 2 ^ 40 := by
    rw [abs_lt]
    exact ⟨by linarith, by linarith⟩
  obtain ⟨third, isThird, nearThird⟩ := Double.round_near difference
  rw [abs_le] at nearThird
  rw [isFirst, isSecond]
  show (Double.finite tolerance).less (Double.abs (Double.round (first - second))) = true
  rw [isThird]
  show decide (tolerance < |third|) = true
  rw [decide_eq_true_eq]
  rcases le_abs.mp gap with up | down
  · calc tolerance ≤ 1 / 2000 := fine
      _ < third := by linarith
      _ ≤ |third| := le_abs_self third
  · calc tolerance ≤ 1 / 2000 := fine
      _ < -third := by linarith
      _ ≤ |third| := neg_le_abs third

/-- The message of a cell; only the first column holds text. -/
def cellDiffers (rowIndex column : ℕ) (left right : Cell) : List Char :=
  if column = 1 then textDiffers rowIndex column else valueDiffers rowIndex column left right

/-- In this column, these cells are compared as texts. -/
def ComparedAsText (tolerance : Double) (column : ℕ) (left right : Cell) : Prop :=
  ∀ rowIndex, compareCell unicode tolerance rowIndex column left right
    = if left ≠ right then .error (.systemExit (cellDiffers rowIndex column left right)) else .ok ()

theorem asText_labels {workload other : List Char} (known : workload ∈ knownWorkloads)
    (otherKnown : other ∈ knownWorkloads) (tolerance : Double) :
    ComparedAsText unicode tolerance 1 (label workload) (label other) := by
  intro rowIndex
  unfold compareCell
  rw [float_label unicode known, float_label unicode otherKnown]
  rfl

theorem asText_rates (nonneg : 0 ≤ tolerance) (fine : tolerance ≤ 1 / 2000) (small : Thousandths left)
    (otherSmall : Thousandths right) {column : ℕ} (behind : column ≠ 1) :
    ComparedAsText unicode (.finite tolerance) column (pointed 3 left) (pointed 3 right) := by
  intro rowIndex
  have first : Float.float unicode (pointed 3 left) = some (Double.round ((left : ℚ) / 10 ^ 3)) :=
    Float.float_pointed 2 left
  have second : Float.float unicode (pointed 3 right) = some (Double.round ((right : ℚ) / 10 ^ 3)) :=
    Float.float_pointed 2 right
  unfold compareCell cellDiffers
  rw [first, second, if_neg behind]
  dsimp only
  by_cases same : left = right
  · have close : (Double.finite tolerance).less
        ((Double.round ((left : ℚ) / 10 ^ 3)).sub (Double.round ((left : ℚ) / 10 ^ 3))).abs ≠ true := by
      obtain ⟨number, isNumber, _⟩ := Double.round_near (abs_rate_lt small)
      rw [isNumber]
      show (Double.finite tolerance).less (Double.abs (Double.round (number - number))) ≠ true
      rw [sub_self, Double.round_zero]
      show decide (tolerance < |0|) ≠ true
      simpa using nonneg
    rw [← same, if_neg close, if_neg (not_not.mpr rfl)]
  · have different : pointed 3 left ≠ pointed 3 right := by
      intro printed
      have read := unicode.float_pointed 3 left
      rw [printed, unicode.float_pointed, Option.some_inj, div_left_inj' (by norm_num), Nat.cast_inj] at read
      exact same read.symm
    rw [if_pos different, if_pos (rates_apart fine small otherSmall same)]

end Cells

/-! ## The first difference -/

/-- Both lists agree below `index`, and have different items there. -/
structure FirstDifference {A : Type} (left right : List A) (index : ℕ) (item other : A) : Prop where
  before : left.take index = right.take index
  here : left[index]? = some item
  there : right[index]? = some other
  differ : item ≠ other

namespace FirstDifference

variable {A : Type} {left right : List A} {index : ℕ} {item other : A}

theorem head (differ : item ≠ other) : FirstDifference (item :: left) (other :: right) 0 item other :=
  ⟨rfl, rfl, rfl, differ⟩

theorem cons (later : FirstDifference left right index item other) (head : A) :
    FirstDifference (head :: left) (head :: right) (index + 1) item other where
  before := by rw [List.take_succ_cons, List.take_succ_cons, later.before]
  here := by rw [List.getElem?_cons_succ, later.here]
  there := by rw [List.getElem?_cons_succ, later.there]
  differ := later.differ

theorem ne (difference : FirstDifference left right index item other) : left ≠ right := by
  rintro rfl
  have same := difference.here.symm.trans difference.there
  exact difference.differ (Option.some.inj same)

end FirstDifference

section Rows

variable (unicode : Unicode) (tolerance : Double)

theorem compareCells_asText (rowIndex column : ℕ) {left right : List Cell}
    (count : left.length = right.length)
    (asText : ∀ index cell other, left[index]? = some cell → right[index]? = some other →
      ComparedAsText unicode tolerance (column + index) cell other) :
    left = right ∧ compareCells unicode tolerance rowIndex column left right = .ok () ∨
    ∃ index cell other, FirstDifference left right index cell other ∧
      compareCells unicode tolerance rowIndex column left right
        = .error (.systemExit (cellDiffers rowIndex (column + index) cell other)) := by
  induction left generalizing column right with
  | nil =>
    cases List.length_eq_zero_iff.mp count.symm
    exact .inl ⟨rfl, rfl⟩
  | cons cell left inductionHypothesis =>
    cases right with
    | nil => cases count
    | cons other right =>
      have here := asText 0 cell other rfl rfl rowIndex
      rw [compareCells]
      by_cases same : cell = other
      · subst same
        have later := inductionHypothesis (column + 1) (Nat.succ.inj count)
          fun index cell other atLeft atRight => by
            rw [Nat.add_assoc, Nat.add_comm 1]
            exact asText (index + 1) cell other atLeft atRight
        rw [Nat.add_zero, if_neg (not_not.mpr rfl)] at here
        rw [here]
        rcases later with ⟨rfl, ok⟩ | ⟨index, first, second, difference, error⟩
        · exact .inl ⟨rfl, ok⟩
        · refine .inr ⟨index + 1, first, second, difference.cons cell, ?_⟩
          rw [Nat.add_assoc, Nat.add_comm 1] at error
          exact error
      · rw [Nat.add_zero, if_pos same] at here
        rw [here]
        exact .inr ⟨0, cell, other, .head same, rfl⟩

end Rows

section Tables

variable (unicode : Unicode) {tolerance : ℚ} (nonneg : 0 ≤ tolerance) (fine : tolerance ≤ 1 / 2000)

include nonneg fine

theorem compareCells_rates (rowIndex : ℕ) {left right : List Cell} (row : RatesRow left)
    (other : RatesRow right) :
    left.length = right.length ∧
    (left = right ∧ compareCells unicode (.finite tolerance) rowIndex 1 left right = .ok () ∨
    ∃ index cell otherCell, FirstDifference left right index cell otherCell ∧
      compareCells unicode (.finite tolerance) rowIndex 1 left right
        = .error (.systemExit (cellDiffers rowIndex (1 + index) cell otherCell))) := by
  obtain ⟨workload, known, numbers, three, small, rfl⟩ := row
  obtain ⟨otherWorkload, otherKnown, others, otherThree, otherSmall, rfl⟩ := other
  have count : (label workload :: numbers.map (pointed 3)).length
      = (label otherWorkload :: others.map (pointed 3)).length := by
    simp [three, otherThree]
  refine ⟨count, compareCells_asText unicode _ rowIndex 1 count ?_⟩
  intro index cell otherCell atLeft atRight
  cases index with
  | zero =>
    cases atLeft
    cases atRight
    exact asText_labels unicode known otherKnown _
  | succ index =>
    rw [List.getElem?_cons_succ, List.getElem?_map, Option.map_eq_some_iff] at atLeft atRight
    obtain ⟨number, found, rfl⟩ := atLeft
    obtain ⟨otherNumber, otherFound, rfl⟩ := atRight
    exact asText_rates unicode nonneg fine (small _ (List.mem_of_getElem? found))
      (otherSmall _ (List.mem_of_getElem? otherFound)) (by omega)

theorem compareRows_rates (rowIndex : ℕ) {expected actual : List (List Cell)}
    (count : expected.length = actual.length) (rows : ∀ row ∈ expected, RatesRow row)
    (otherRows : ∀ row ∈ actual, RatesRow row) :
    expected = actual ∧ compareRows unicode (.finite tolerance) rowIndex expected actual = .ok () ∨
    ∃ index row other column cell otherCell, FirstDifference expected actual index row other ∧
      FirstDifference row other column cell otherCell ∧
      compareRows unicode (.finite tolerance) rowIndex expected actual
        = .error (.systemExit (cellDiffers (rowIndex + index) (column + 1) cell otherCell)) := by
  induction expected generalizing rowIndex actual with
  | nil =>
    cases List.length_eq_zero_iff.mp count.symm
    exact .inl ⟨rfl, rfl⟩
  | cons row expected inductionHypothesis =>
    cases actual with
    | nil => cases count
    | cons other actual =>
      obtain ⟨lengths, here⟩ := compareCells_rates unicode nonneg fine rowIndex
        (rows row List.mem_cons_self) (otherRows other List.mem_cons_self)
      have later := inductionHypothesis (rowIndex + 1) (Nat.succ.inj count)
        (fun row member => rows row (List.mem_cons_of_mem _ member))
        fun row member => otherRows row (List.mem_cons_of_mem _ member)
      rw [compareRows, if_neg (not_not.mpr lengths)]
      rcases here with ⟨rfl, ok⟩ | ⟨column, cell, otherCell, difference, error⟩
      · rw [ok]
        rcases later with ⟨rfl, ok⟩ | ⟨index, first, second, column, cell, otherCell, inRows, inCells, error⟩
        · exact .inl ⟨rfl, ok⟩
        · refine .inr ⟨index + 1, first, second, column, cell, otherCell, inRows.cons row, inCells, ?_⟩
          rw [Nat.add_assoc, Nat.add_comm 1] at error
          exact error
      · rw [error]
        refine .inr ⟨0, row, other, column, cell, otherCell, .head difference.ne, difference, ?_⟩
        rw [Nat.add_comm column, Nat.add_zero]
        rfl

end Tables

/-! ## Files -/

/-- A table that `results_to_csv.py` has made of some logs. -/
def Written (unicode : Unicode) (table : List (List Cell)) : Prop :=
  ∃ read root text, Modest unicode read ∧ resultsToCsv unicode read root text = .ok table

theorem pointed_length_le {number : ℕ} (small : Thousandths number) : (pointed 3 number).length ≤ 17 := by
  obtain ⟨whole, fraction, text, _, _, _, _, count⟩ := pointed_parts 3 number
  have digits : (decimal number).length ≤ 16 := by
    apply decimal_length_le (by decide)
    exact small.trans_lt (by norm_num)
  rw [List.length_append] at count
  rw [text, List.length_append, List.length_cons]
  omega

theorem read_ratesFile {unicode : Unicode} {table : List (List Cell)} (written : Written unicode table) :
    Csv.read .excel (ratesFile table) = some table := by
  obtain ⟨read, root, text, modest, ok⟩ := written
  obtain ⟨rows, rfl, each⟩ := resultsToCsv_rows modest ok
  apply Csv.read_write
  show ∀ row ∈ ratesHeader :: rows, ∀ field ∈ row, field.length ≤ 131072
  rw [List.forall_mem_cons]
  refine ⟨by decide, fun row member field inRow => ?_⟩
  obtain ⟨workload, known, numbers, _, small, rfl⟩ := each row member
  rcases List.mem_cons.mp inRow with rfl | rate
  · fin_cases known <;> decide
  · obtain ⟨number, listed, rfl⟩ := List.mem_map.mp rate
    exact (pointed_length_le (small number listed)).trans (by norm_num)

/-- Whatever the logs were, the comparison of two such files ends in one of three ways.
    Tables with different numbers of rows are told apart by that; else the script
    names the row and the column of the first cell, in reading order, whose text is
    different, with both texts where it is a rate; and it passes only when the two
    files are the same, character by character. -/
theorem compareFiles_rates {unicode : Unicode} {tolerance : ℚ} (nonneg : 0 ≤ tolerance)
    (fine : tolerance ≤ 1 / 2000) {expected actual : List (List Cell)} (written : Written unicode expected)
    (alsoWritten : Written unicode actual) :
    (compareFiles unicode (.finite tolerance) (ratesFile expected) (ratesFile actual) = some (.ok ()) ↔
      ratesFile expected = ratesFile actual) ∧
    (expected.length ≠ actual.length →
      compareFiles unicode (.finite tolerance) (ratesFile expected) (ratesFile actual)
        = some (.error (.systemExit rowCountsDiffer))) ∧
    (expected.length = actual.length → expected ≠ actual →
      ∃ index row other column cell otherCell, FirstDifference expected actual index row other ∧
        FirstDifference row other column cell otherCell ∧
        compareFiles unicode (.finite tolerance) (ratesFile expected) (ratesFile actual)
          = some (.error (.systemExit (cellDiffers (index + 1) (column + 1) cell otherCell)))) := by
  have injective : ratesFile expected = ratesFile actual → expected = actual := by
    intro same
    have back := read_ratesFile written
    rw [same, read_ratesFile alsoWritten] at back
    exact (Option.some.inj back).symm
  have onTables : compareFiles unicode (.finite tolerance) (ratesFile expected) (ratesFile actual)
      = if expected = [] then some (.error .stopIteration)
        else some (compareCsv unicode (.finite tolerance) expected actual) := by
    unfold compareFiles
    rw [read_ratesFile written, read_ratesFile alsoWritten]
    rfl
  obtain ⟨_, _, _, modest, ok⟩ := written
  obtain ⟨_, _, _, otherModest, otherOk⟩ := alsoWritten
  obtain ⟨rows, rfl, each⟩ := resultsToCsv_rows modest ok
  obtain ⟨otherRows, rfl, otherEach⟩ := resultsToCsv_rows otherModest otherOk
  rw [onTables, if_neg (List.cons_ne_nil _ _)]
  rw [compareCsv_header]
  by_cases count : rows.length = otherRows.length
  · rw [if_neg (not_not.mpr count)]
    rcases compareRows_rates unicode nonneg fine 2 count each otherEach with
      ⟨rfl, accepted⟩ | ⟨index, row, other, column, cell, otherCell, inRows, inCells, error⟩
    · exact ⟨iff_of_true (congrArg some accepted) rfl, fun different => absurd rfl different,
        fun _ different => absurd rfl different⟩
    · refine ⟨iff_of_false ?_ ?_, fun different => absurd (by simp [count]) different, fun _ _ => ?_⟩
      · rw [error]
        intro accepted
        cases accepted
      · intro same
        exact inRows.ne (List.cons.inj (injective same)).2
      · refine ⟨index + 1, row, other, column, cell, otherCell, inRows.cons _, inCells, ?_⟩
        rw [error, Nat.add_comm 2]
  · rw [if_pos count]
    have different : (ratesHeader :: rows).length ≠ (ratesHeader :: otherRows).length := by simpa using count
    refine ⟨iff_of_false ?_ ?_, fun _ => rfl, fun same => absurd same different⟩
    · intro accepted
      cases accepted
    · intro same
      exact different (congrArg List.length (injective same))

/-! ## Two small tables -/

section Small

/-- The table of one workload with the same rate in every mode. -/
def oneRate (shown : ℕ) : List (List Cell) :=
  [ratesHeader, ["Uniform".toList, pointed 3 shown, pointed 3 shown, pointed 3 shown]]

/-- A log that is its report only. -/
theorem written_oneRate {shown : ℕ} (small : Thousandths shown) : Written .ascii (oneRate shown) := by
  have newlines : universalNewlines (reportLine 0 (pointed 3 0) (pointed 6 shown))
      = reportLine 0 (pointed 3 0) (pointed 6 shown) := by
    have noReturn : '\r' ∉ reportLine 0 (pointed 3 0) (pointed 6 shown) := by
      apply not_mem_reportLine <;> decide
    have clean := universalNewlines_clean noReturn []
    rw [List.append_nil] at clean
    rw [clean]
    exact List.append_nil _
  have rate : (shown : ℚ) / 10 ^ 6 * 1000 = shown / 1000 := by ring
  refine ⟨fun _ => some (reportLine 0 (pointed 3 0) (pointed 6 shown)), "results".toList,
    "uniform".toList, ?_, ?_⟩
  · intro path log value found ok
    cases found
    rw [newlines, throughput_reportLine, rate] at ok
    cases ok
    have cast : (shown : ℚ) ≤ 10 ^ 15 := by exact_mod_cast small
    rw [div_le_iff₀ (by norm_num)]
    exact cast.trans (by norm_num)
  · have cell : ∀ path, rateCell .ascii (fun _ => some (reportLine 0 (pointed 3 0) (pointed 6 shown))) path
        = .ok (pointed 3 shown) := by
      intro path
      unfold rateCell
      dsimp only
      rw [newlines, throughput_reportLine, rate]
      exact congrArg Except.ok (fixedPoint_thousandths shown)
    have row : ratesRow .ascii (fun _ => some (reportLine 0 (pointed 3 0) (pointed 6 shown)))
        "results".toList "uniform".toList
        = .ok ["Uniform".toList, pointed 3 shown, pointed 3 shown, pointed 3 shown] := by
      unfold ratesRow
      rw [mapM_of_forall fun mode _ => cell _]
      rfl
    have selected : selectedWorkloads .ascii "uniform".toList = ["uniform".toList] := by decide
    have known : (["uniform".toList].filter (· ∉ knownWorkloads)).dedup = [] := by decide
    unfold resultsToCsv
    dsimp only
    rw [selected, known, if_neg (not_not.mpr rfl), List.mapM_cons, row]
    rfl

theorem compareFiles_rates_apart :
    compareFiles .ascii (.finite (1 / 2048)) (ratesFile (oneRate 9537)) (ratesFile (oneRate 9538))
      = some (.error (.systemExit "CSV value differs at row 2, column 2: 9.537 vs 9.538".toList)) := by
  have small : ∀ {shown : ℕ}, shown ≤ 10000 → Thousandths shown := fun less => less.trans (by norm_num)
  have first : pointed 3 9537 = "9.537".toList := by decide
  have second : pointed 3 9538 = "9.538".toList := by decide
  have message : cellDiffers 2 2 (pointed 3 9537) (pointed 3 9538)
      = "CSV value differs at row 2, column 2: 9.537 vs 9.538".toList := by
    rw [first, second]
    decide
  obtain ⟨_, _, told⟩ := @compareFiles_rates .ascii (1 / 2048) (by norm_num) (by norm_num) _ _
    (written_oneRate (small (by norm_num : 9537 ≤ 10000)))
    (written_oneRate (small (by norm_num : 9538 ≤ 10000)))
  have count : ∀ shown, (oneRate shown).length = 2 := fun _ => rfl
  obtain ⟨index, row, other, column, cell, otherCell, inRows, inCells, error⟩ :=
    told ((count 9537).trans (count 9538).symm) (by decide)
  -- Below the header, both tables have one row, and its first column is the same.
  cases index with
  | zero =>
    cases inRows.here
    cases inRows.there
    exact absurd rfl inRows.differ
  | succ index =>
    cases index with
    | succ index => cases inRows.here
    | zero =>
      cases inRows.here
      cases inRows.there
      cases column with
      | zero =>
        cases inCells.here
        cases inCells.there
        exact absurd rfl inCells.differ
      | succ column =>
        cases column with
        | zero =>
          cases inCells.here
          cases inCells.there
          rw [← message]
          exact error
        | succ column =>
          have before := inCells.before
          rw [List.take_succ_cons, List.take_succ_cons, List.take_succ_cons, List.take_succ_cons] at before
          have same := (List.cons.inj (List.cons.inj before).2).1
          exact absurd same (by decide)

end Small

end FdpRocks.Experiment
