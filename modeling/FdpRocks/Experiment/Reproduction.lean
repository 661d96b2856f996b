import FdpRocks.Experiment.ComparedRates
import FdpRocks.Scripts.ModeSeries

/-! # The gate of a reproduction

`reproduce_precollected.sh` makes the table of a figure again and compares the file
with the one that is kept.  `print` is what `csv.writer` makes of a double.

* `compareFiles_curves` — the files pass when all numbers are within the tolerance,
  and only when they are within it but for one rounding.
-/

namespace FdpRocks.Experiment

open FdpRocks.Library FdpRocks.Library.Numerals FdpRocks.Library.PythonText FdpRocks.Scripts

/-! ## The files -/

def curvesHeader : List Cell :=
  ["key_write_count_millions".toList, "alwa_fdp_rocks".toList, "alwa_rocksdb_fdp".toList,
    "dlwa_fdp_rocks".toList, "dlwa_rocksdb_fdp".toList]

/-- The numbers of a row, in the order of the columns. -/
def rowValues (row : Row) : List ℚ :=
  [row.keys, row.alwaFdpRocks, row.alwaRocksdbFdp, row.dlwaFdpRocks, row.dlwaRocksdbFdp]

section Files

variable (print : ℚ → List Char)

def curvesTable (rows : List Row) : List (List Cell) :=
  curvesHeader :: rows.map fun row => (rowValues row).map print

/-- The file that `main` of both converters writes. -/
def curvesFile (rows : List Row) : List Char := Csv.write .excel (curvesTable print rows)

end Files

/-- A finite double whose text is read as the same double. -/
structure ReadsBack (unicode : Unicode) (print : ℚ → List Char) (value : ℚ) : Prop where
  same : Float.float unicode (print value) = some (.finite value)
  short : (print value).length ≤ 131072

/-- Rows whose numbers lie in pairs within `bound`. -/
def Close (bound : ℚ) : List Row → List Row → Prop :=
  List.Forall₂ fun row other =>
    List.Forall₂ (fun left right => |left - right| ≤ bound) (rowValues row) (rowValues other)

/-! ## Two numbers -/

section Numbers

variable {unicode : Unicode} {print : ℚ → List Char} {tolerance left right : ℚ}

theorem within_of_accepted (readLeft : ReadsBack unicode print left) (readRight : ReadsBack unicode print right)
    (accepted : ¬ ToldApart unicode (.finite tolerance) (print left) (print right)) :
    |left - right| ≤ (1 + 1 / 2 ^ 52) * (tolerance + 2 ^ (-1075 : ℤ)) := by
  have close : (Double.finite tolerance).less (Double.abs (Double.round (left - right))) ≠ true :=
    fun far => accepted (.inr ⟨_, _, readLeft.same, readRight.same, far⟩)
  cases rounds : Double.round (left - right) with
  | nan =>
    rw [Double.round_eq] at rounds
    split at rounds <;> cases rounds
  | infinity negative =>
    rw [rounds] at close
    exact absurd rfl close
  | finite number =>
    rw [rounds] at close
    have atMost : |number| ≤ tolerance := by
      simpa [Double.abs, Double.less] using close
    have error := Double.round_error rounds
    have apart : |left - right| ≤ tolerance + (|left - right| / 2 ^ 53 + 2 ^ (-1075 : ℤ)) :=
      calc |left - right| = |number - (number - (left - right))| := by rw [sub_sub_cancel]
        _ ≤ |number| + |number - (left - right)| := abs_sub _ _
        _ ≤ tolerance + (|left - right| / 2 ^ 53 + 2 ^ (-1075 : ℤ)) := add_le_add atMost error
    generalize (2 : ℚ) ^ (-1075 : ℤ) = least at apart ⊢
    have nonneg := abs_nonneg (left - right)
    norm_num at apart ⊢
    linarith

theorem accepted_of_within (exact : Double.round tolerance = .finite tolerance)
    (readLeft : ReadsBack unicode print left) (readRight : ReadsBack unicode print right)
    (within : |left - right| ≤ tolerance) :
    ¬ ToldApart unicode (.finite tolerance) (print left) (print right) := by
  obtain ⟨number, rounds, atMost⟩ := Double.round_within exact within
  rintro (⟨_, noLeft | noRight⟩ | ⟨first, second, isFirst, isSecond, far⟩)
  · rw [readLeft.same] at noLeft
    cases noLeft
  · rw [readRight.same] at noRight
    cases noRight
  · rw [readLeft.same] at isFirst
    rw [readRight.same] at isSecond
    cases isFirst
    cases isSecond
    have less : (Double.finite tolerance).less (Double.abs (Double.round (left - right))) = true := far
    rw [rounds] at less
    have more : tolerance < |number| := by simpa [Double.abs, Double.less] using less
    exact absurd atMost (not_le.mpr more)

end Numbers

/-! ## Two files -/

section Tables

variable {unicode : Unicode} {print : ℚ → List Char} {expected actual : List Row}

theorem read_curvesFile (prints : ∀ row ∈ expected, ∀ value ∈ rowValues row, ReadsBack unicode print value) :
    Csv.read .excel (curvesFile print expected) = some (curvesTable print expected) := by
  apply Csv.read_write
  show ∀ row ∈ curvesTable print expected, ∀ field ∈ row, field.length ≤ 131072
  rw [curvesTable, List.forall_mem_cons]
  refine ⟨by decide, fun row member field inRow => ?_⟩
  obtain ⟨numbers, listed, rfl⟩ := List.mem_map.mp member
  obtain ⟨value, inNumbers, rfl⟩ := List.mem_map.mp inRow
  exact (prints numbers listed value inNumbers).short

/-- The script passes when no two numbers in the same place are told apart. -/
theorem compareFiles_curves_iff (tolerance : Double)
    (prints : ∀ row ∈ expected, ∀ value ∈ rowValues row, ReadsBack unicode print value)
    (alsoPrints : ∀ row ∈ actual, ∀ value ∈ rowValues row, ReadsBack unicode print value) :
    compareFiles unicode tolerance (curvesFile print expected) (curvesFile print actual) = some (.ok ()) ↔
      List.Forall₂ (fun row other => List.Forall₂
        (fun left right => ¬ ToldApart unicode tolerance (print left) (print right))
        (rowValues row) (rowValues other)) expected actual := by
  have onTables : compareFiles unicode tolerance (curvesFile print expected) (curvesFile print actual)
      = some (compareCsv unicode tolerance (curvesTable print expected) (curvesTable print actual)) := by
    unfold compareFiles
    rw [read_curvesFile prints, read_curvesFile alsoPrints]
    rfl
  rw [onTables, Option.some_inj, compareCsv_accepts]
  constructor
  · rintro ⟨⟨_, _, _, first, second, lengths⟩, cells⟩
    cases first
    cases second
    have count := lengths.length_eq
    rw [List.length_map, List.length_map] at count
    refine List.forall₂_iff_zip.mpr ⟨count, fun {row other} inRows => ?_⟩
    refine List.forall₂_iff_zip.mpr ⟨rfl, fun {left right} inCells => ?_⟩
    apply cells (print left, print right)
    rw [alignedCells, List.mem_flatMap]
    refine ⟨((rowValues row).map print, (rowValues other).map print), ?_, ?_⟩
    · show _ ∈ (expected.map fun row => (rowValues row).map print).zip
        (actual.map fun row => (rowValues row).map print)
      rw [List.zip_map]
      exact List.mem_map.mpr ⟨_, inRows, rfl⟩
    · rw [List.zip_map]
      exact List.mem_map.mpr ⟨_, inCells, rfl⟩
  · intro close
    refine ⟨⟨curvesHeader, _, _, rfl, rfl, ?_⟩, ?_⟩
    · rw [List.forall₂_map_left_iff, List.forall₂_map_right_iff]
      exact close.imp fun row other _ => by simp [rowValues]
    · intro pair member
      obtain ⟨rows, inRows, inCells⟩ := List.mem_flatMap.mp member
      change rows ∈ (expected.map fun row => (rowValues row).map print).zip
        (actual.map fun row => (rowValues row).map print) at inRows
      rw [List.zip_map] at inRows
      obtain ⟨⟨row, other⟩, listed, rfl⟩ := List.mem_map.mp inRows
      simp only [Prod.map_apply, List.zip_map] at inCells
      obtain ⟨⟨left, right⟩, numbers, rfl⟩ := List.mem_map.mp inCells
      exact (List.forall₂_iff_zip.mp ((List.forall₂_iff_zip.mp close).2 listed)).2 numbers

/-- For tables of finite doubles, printed so that they read back, and a tolerance that is
    itself a double: files of the same number of rows whose numbers differ by at most
    the tolerance pass; and files that pass have as many rows, and their numbers
    differ by no more than the tolerance and the error of one subtraction. -/
theorem compareFiles_curves {tolerance : ℚ} (exact : Double.round tolerance = .finite tolerance)
    (prints : ∀ row ∈ expected, ∀ value ∈ rowValues row, ReadsBack unicode print value)
    (alsoPrints : ∀ row ∈ actual, ∀ value ∈ rowValues row, ReadsBack unicode print value) :
    (Close tolerance expected actual →
      compareFiles unicode (.finite tolerance) (curvesFile print expected) (curvesFile print actual)
        = some (.ok ())) ∧
    (compareFiles unicode (.finite tolerance) (curvesFile print expected) (curvesFile print actual)
        = some (.ok ()) →
      Close ((1 + 1 / 2 ^ 52) * (tolerance + 2 ^ (-1075 : ℤ))) expected actual) := by
  rw [compareFiles_curves_iff _ prints alsoPrints]
  constructor
  · intro close
    refine List.forall₂_iff_zip.mpr ⟨close.length_eq, fun {row other} inRows => ?_⟩
    have cells := (List.forall₂_iff_zip.mp close).2 inRows
    refine List.forall₂_iff_zip.mpr ⟨rfl, fun {left right} inCells => ?_⟩
    exact accepted_of_within exact (prints row (List.of_mem_zip inRows).1 left (List.of_mem_zip inCells).1)
      (alsoPrints other (List.of_mem_zip inRows).2 right (List.of_mem_zip inCells).2)
      ((List.forall₂_iff_zip.mp cells).2 inCells)
  · intro accepted
    refine List.forall₂_iff_zip.mpr ⟨accepted.length_eq, fun {row other} inRows => ?_⟩
    have cells := (List.forall₂_iff_zip.mp accepted).2 inRows
    refine List.forall₂_iff_zip.mpr ⟨rfl, fun {left right} inCells => ?_⟩
    exact within_of_accepted (prints row (List.of_mem_zip inRows).1 left (List.of_mem_zip inCells).1)
      (alsoPrints other (List.of_mem_zip inRows).2 right (List.of_mem_zip inCells).2)
      ((List.forall₂_iff_zip.mp cells).2 inCells)

end Tables

/-! ## One row -/

section Small

def smallRow (alwa : ℚ) : Row := ⟨0, alwa, 5 / 2, 1, 3 / 2⟩

theorem readsBack_tenths {value : ℚ} (tenths : ℕ) (text : fixedPoint 1 value = pointed 1 tenths)
    (rounds : Double.round ((tenths : ℚ) / 10 ^ 1) = .finite value) (short : tenths < 100) :
    ReadsBack .ascii (fixedPoint 1) value where
  same := by
    rw [text]
    exact (Float.float_pointed 0 tenths).trans (congrArg some rounds)
  short := by
    obtain ⟨whole, fraction, parts, _, _, _, _, count⟩ := pointed_parts 1 tenths
    have digits : (decimal tenths).length ≤ 2 := decimal_length_le (by decide) short
    rw [List.length_append] at count
    rw [text, parts, List.length_append, List.length_cons]
    omega

theorem smallRow_prints : ∀ row ∈ [smallRow (7 / 2), smallRow (9 / 2)], ∀ value ∈ rowValues row,
    ReadsBack .ascii (fixedPoint 1) value := by
  have values : ∀ row ∈ [smallRow (7 / 2), smallRow (9 / 2)], ∀ value ∈ rowValues row,
      value ∈ [0, 7 / 2, 9 / 2, 5 / 2, 1, 3 / 2] := by decide +kernel
  intro row member value inRow
  have listed := values row member value inRow
  simp only [List.mem_cons, List.not_mem_nil, or_false] at listed
  rcases listed with rfl | rfl | rfl | rfl | rfl | rfl
  · exact readsBack_tenths 0 (by decide +kernel) (by decide +kernel) (by decide)
  · exact readsBack_tenths 35 (by decide +kernel) (by decide +kernel) (by decide)
  · exact readsBack_tenths 45 (by decide +kernel) (by decide +kernel) (by decide)
  · exact readsBack_tenths 25 (by decide +kernel) (by decide +kernel) (by decide)
  · exact readsBack_tenths 10 (by decide +kernel) (by decide +kernel) (by decide)
  · exact readsBack_tenths 15 (by decide +kernel) (by decide +kernel) (by decide)

theorem compareFiles_curves_small :
    compareFiles .ascii (.finite (1 / 2 ^ 30)) (curvesFile (fixedPoint 1) [smallRow (7 / 2)])
        (curvesFile (fixedPoint 1) [smallRow (7 / 2)]) = some (.ok ()) ∧
      compareFiles .ascii (.finite (1 / 2 ^ 30)) (curvesFile (fixedPoint 1) [smallRow (7 / 2)])
        (curvesFile (fixedPoint 1) [smallRow (9 / 2)]) ≠ some (.ok ()) := by
  have exact : Double.round (1 / 2 ^ 30) = .finite (1 / 2 ^ 30) := by decide +kernel
  have first : ∀ row ∈ [smallRow (7 / 2)], ∀ value ∈ rowValues row, ReadsBack .ascii (fixedPoint 1) value :=
    fun row member => smallRow_prints row (by rw [List.mem_singleton.mp member]; exact List.mem_cons_self)
  have second : ∀ row ∈ [smallRow (9 / 2)], ∀ value ∈ rowValues row, ReadsBack .ascii (fixedPoint 1) value :=
    fun row member => smallRow_prints row (by rw [List.mem_singleton.mp member]; simp)
  constructor
  · apply (compareFiles_curves exact first first).1
    exact .cons (List.forall₂_same.mpr fun value _ => by norm_num) .nil
  · intro accepted
    have close := (compareFiles_curves exact first second).2 accepted
    obtain ⟨cells, _⟩ := List.forall₂_cons.mp close
    obtain ⟨_, rest⟩ := List.forall₂_cons.mp cells
    obtain ⟨apart, _⟩ := List.forall₂_cons.mp rest
    have least : (2 : ℚ) ^ (-1075 : ℤ) ≤ 2 ^ (0 - 30 : ℤ) :=
      zpow_le_zpow_right₀ (by norm_num) (by norm_num)
    have gap : |(7 / 2 : ℚ) - 9 / 2| = 1 := by norm_num
    change |(7 / 2 : ℚ) - 9 / 2| ≤ _ at apart
    rw [gap] at apart
    generalize (2 : ℚ) ^ (-1075 : ℤ) = smallest at least apart
    norm_num at least apart
    linarith

end Small

end FdpRocks.Experiment
