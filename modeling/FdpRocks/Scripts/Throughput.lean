import FdpRocks.Benchmark.Stats
import FdpRocks.Library.PythonText

/-! # Throughput from the log to the table

`results_to_csv.py` reads the line of `Stats::Report` back with
`THROUGHPUT_RE`.  The printer divides the rate by `1024 * 1024`, the reader
multiplies by 1000, and the column is headed kops; `throughput_report_iff` says
for which rates the result is nevertheless the rate in thousands.
-/

namespace FdpRocks.Scripts

open FdpRocks.Library.Numerals FdpRocks.Library.Pattern FdpRocks.Library.PythonText
open FdpRocks.Benchmark

/-! ## `throughput` -/

/-- `THROUGHPUT_RE`. -/
def throughputRe (unicode : Unicode) : List Piece :=
  literals "randomwrite".toList
    ++ .run 0 unicode.isSpace :: .literal ':' :: .run 0 unicode.isSpace
    :: .run 1 (digitOrPoint unicode) :: .run 1 unicode.isSpace :: (literals "micros/op".toList
    ++ .run 1 unicode.isSpace :: .group 1 (digitOrPoint unicode) :: .run 1 unicode.isSpace
    :: literals "Mops/s".toList)

/-- `throughput`, of a file with this text. -/
def throughput (unicode : Unicode) (path text : List Char) : Except Raised ℚ :=
  if contains text "Write ERROR".toList ∨ contains text "Write FAILED".toList
      ∨ contains text "No space left".toList then
    .error (.valueError ("Failed run: ".toList ++ path))
  else
    match (findAll (throughputRe unicode) 0 text).map Match.groups with
    | [[value]] =>
      match unicode.float value with
      | some number => .ok (number * 1000)
      | none => .error (.valueError ("could not convert string to float: '".toList ++ value ++ ['\'']))
    | values => .error (.valueError ("Expected one throughput result in ".toList ++ path
        ++ ", found ".toList ++ decimal values.length))

/-! ## Reading the report -/

section Report

variable (unicode : Unicode)

theorem pointed_not_space (places scaled : ℕ) (text : List Char) :
    Stops unicode.isSpace (pointed places scaled ++ text) := by
  cases digits : pointed places scaled with
  | nil => exact absurd digits (pointed_ne_nil places scaled)
  | cons head tail =>
    apply stops_cons
    have member : head ∈ pointed places scaled := by
      rw [digits]
      exact List.mem_cons_self
    rcases pointed_characters member with digit | rfl
    · exact unicode.isSpace_of_digit digit
    · exact unicode.isSpace_point

/-- One line in the format of `Report`, with its two numbers already printed. -/
def reportLine (padding : ℕ) (perOp shown : List Char) : List Char :=
  "randomwrite".toList ++ ("  ".toList ++ (':' :: (List.replicate (padding + 1) ' ' ++ (perOp
    ++ (" ".toList ++ ("micros/op".toList ++ (" ".toList ++ (shown ++ (" ".toList
    ++ ("Mops/s".toList ++ "\n".toList))))))))))

theorem throughputRe_reportLine (padding perOp shown : ℕ) :
    matchPieces (throughputRe unicode) (reportLine padding (pointed 3 perOp) (pointed 6 shown))
      = some ⟨[pointed 6 shown], "\n".toList⟩ := by
  have blank : ∀ character ∈ " ".toList, unicode.isSpace character = true := by
    intro character member
    rw [List.mem_singleton.mp member]
    exact unicode.isSpace_blank
  have blanks : ∀ count : ℕ, ∀ character ∈ List.replicate count ' ',
      unicode.isSpace character = true := by
    intro count character member
    rw [List.eq_of_mem_replicate member]
    exact unicode.isSpace_blank
  have visible : ∀ {head : Char} {text : List Char}, head.toNat < 128 → isAsciiSpace head = false →
      Stops unicode.isSpace (head :: text) := by
    intro head text ascii shows
    exact stops_cons ((unicode.isSpace_ascii head ascii).trans shows)
  have numeral : ∀ {places scaled : ℕ}, 1 ≤ (pointed places scaled).length :=
    fun {places scaled} => List.length_pos_of_ne_nil (pointed_ne_nil places scaled)
  -- From the last piece to the first: each run stops at the piece after it.
  have unit := matchPieces_literals "Mops/s".toList [] "\n".toList
  rw [List.append_nil, matchPieces] at unit
  have afterShown := matchPieces_run 1 (by decide) blank (visible (by decide) rfl) unit
  have number := matchPieces_group 1 numeral
    (fun _ => @digitOrPoint_pointed unicode 6 shown _)
    (stops_cons (digitOrPoint_blank unicode)) afterShown
  have afterUnit := matchPieces_run 1 (by decide) blank
    (pointed_not_space unicode 6 shown _) number
  have micros := (matchPieces_literals "micros/op".toList _ _).trans afterUnit
  have afterPerOp := matchPieces_run 1 (by decide) blank (visible (by decide) rfl) micros
  have perOpRun := matchPieces_run 1 numeral
    (fun _ => @digitOrPoint_pointed unicode 3 perOp _)
    (stops_cons (digitOrPoint_blank unicode)) afterPerOp
  have afterColon := matchPieces_run 0 (Nat.zero_le _) (blanks (padding + 1))
    (pointed_not_space unicode 3 perOp _) perOpRun
  have colon : matchPieces (.literal ':' :: _) (':' :: _) = _ := (if_pos rfl).trans afterColon
  have afterName := matchPieces_run 0 (Nat.zero_le _) (blanks 2)
    (stops_cons unicode.isSpace_colon) colon
  exact (matchPieces_literals "randomwrite".toList _ _).trans afterName

theorem not_mem_reportLine {character : Char} (noDigit : character.isDigit = false)
    (noPoint : character ≠ '.') (noBlank : character ≠ ' ') (noColon : character ≠ ':')
    (name : character ∉ "randomwrite".toList) (perOpUnit : character ∉ "micros/op".toList)
    (unit : character ∉ "Mops/s".toList) (lineEnd : character ∉ "\n".toList)
    (padding perOp shown : ℕ) :
    character ∉ reportLine padding (pointed 3 perOp) (pointed 6 shown) := by
  have blanks : ∀ count, character ∉ List.replicate count ' ' :=
    fun count member => noBlank (List.eq_of_mem_replicate member)
  unfold reportLine
  simp only [List.mem_append, not_or]
  refine ⟨name, blanks 2, List.not_mem_cons_of_ne_of_not_mem noColon ?_⟩
  simp only [List.mem_append, not_or]
  exact ⟨blanks _, not_mem_pointed noDigit noPoint 3 perOp, blanks 1, perOpUnit, blanks 1,
    not_mem_pointed noDigit noPoint 6 shown, blanks 1, unit, lineEnd⟩

theorem throughput_reportLine (path : List Char) (padding perOp shown : ℕ) :
    throughput unicode path (reportLine padding (pointed 3 perOp) (pointed 6 shown))
      = .ok ((shown : ℚ) / 10 ^ 6 * 1000) := by
  have noW : 'W' ∉ reportLine padding (pointed 3 perOp) (pointed 6 shown) := by
    apply not_mem_reportLine <;> decide
  have noN : 'N' ∉ reportLine padding (pointed 3 perOp) (pointed 6 shown) := by
    apply not_mem_reportLine <;> decide
  have failures : ¬ (contains (reportLine padding (pointed 3 perOp) (pointed 6 shown))
        "Write ERROR".toList = true
      ∨ contains (reportLine padding (pointed 3 perOp) (pointed 6 shown))
        "Write FAILED".toList = true
      ∨ contains (reportLine padding (pointed 3 perOp) (pointed 6 shown))
        "No space left".toList = true) := by
    rw [contains_iff, contains_iff, contains_iff]
    rintro (error | failed | full)
    · exact not_infix_of_absent (by decide) noW error
    · exact not_infix_of_absent (by decide) noW failed
    · exact not_infix_of_absent (by decide) noN full
  have found : findAll (throughputRe unicode) 0
      (reportLine padding (pointed 3 perOp) (pointed 6 shown))
        = [⟨[pointed 6 shown], "\n".toList⟩] := by
    have matched := throughputRe_reportLine unicode padding perOp shown
    -- Pattern and line both open with the `r` of the name.
    obtain ⟨pieces, pattern⟩ : ∃ pieces, throughputRe unicode = .literal 'r' :: pieces := ⟨_, rfl⟩
    obtain ⟨text, line⟩ : ∃ text,
      reportLine padding (pointed 3 perOp) (pointed 6 shown) = 'r' :: text := ⟨_, rfl⟩
    rw [pattern, line] at matched ⊢
    rw [findAll_literal matched, findAll_absent (by decide : 'r' ∉ "\n".toList)]
  rw [throughput, if_neg failures, found]
  dsimp only [List.map]
  rw [unicode.float_pointed]

theorem reportLine_eq (padding : ℕ) (perOp shown : List Char) :
    padRight 12 "randomwrite".toList ++ " : ".toList ++ (List.replicate padding ' ' ++ perOp)
        ++ " micros/op ".toList ++ shown ++ " Mops/s\n".toList
      = reportLine padding perOp shown := by
  have name : padRight 12 "randomwrite".toList = "randomwrite".toList ++ " ".toList := by decide
  rw [name]
  simp only [List.append_assoc]
  rfl

theorem report_eq {stats : Stats} (someDone : 1 ≤ stats.done) (elapsed : stats.start < stats.finish) :
    ∃ padding perOp : ℕ, stats.report "randomwrite".toList
      = reportLine padding (pointed 3 perOp)
        (pointed 6 (roundHalfEven (stats.done / ((stats.finish - stats.start) / 10 ^ 6)
          / 1024 / 1024 * 10 ^ 6)).toNat) := by
  have length : 0 < (stats.finish - stats.start) / 10 ^ 6 :=
    div_pos (sub_pos.mpr elapsed) (by norm_num)
  have counted : (0 : ℚ) < stats.done := by exact_mod_cast someDone
  have rate : 0 ≤ (stats.done : ℚ) / ((stats.finish - stats.start) / 10 ^ 6) / 1024 / 1024 := by
    positivity
  have perOp : 0 ≤ (stats.finish - stats.start) / 10 ^ 6 * 10 ^ 6 / stats.done := by positivity
  unfold Stats.report
  rw [if_neg (Nat.not_lt.mpr someDone)]
  dsimp only
  rw [if_neg length.ne', fixedPoint_nonneg rate 6, fixedPoint_nonneg perOp 3]
  exact ⟨_, _, reportLine_eq _ _ _⟩

/-- What the reader makes of the reported line. -/
theorem throughput_report (path : List Char) (first : Stats) (others : List Stats)
    (someDone : 1 ≤ ((first :: others).map Stats.done).sum)
    (elapsed : (others.map Stats.start).foldl min first.start
      < (others.map Stats.finish).foldl max first.finish) :
    throughput unicode path ((Stats.mergeAll first others).report "randomwrite".toList)
      = .ok ((roundHalfEven (Stats.rate first others * 10 ^ 6 / 2 ^ 20) : ℚ) / 1000) := by
  rw [← Stats.mergeAll_done] at someDone
  rw [← Stats.mergeAll_start, ← Stats.mergeAll_finish] at elapsed
  obtain ⟨padding, perOp, line⟩ := report_eq someDone elapsed
  have scaled : Stats.rate first others / 1024 / 1024 * 10 ^ 6
      = Stats.rate first others * 10 ^ 6 / 2 ^ 20 := by
    ring
  have nonneg : 0 ≤ Stats.rate first others * 10 ^ 6 / 2 ^ 20 := by
    have := Stats.rate_pos someDone elapsed
    positivity
  obtain ⟨shown, printed⟩ := Int.eq_ofNat_of_zero_le (roundHalfEven_nonneg nonneg)
  rw [line, throughput_reportLine, ← Stats.rate_eq, scaled, printed, Int.toNat_natCast,
    Int.cast_natCast]
  congr 1
  ring

end Report

/-! ## When the table has the rate in thousands -/

/-- The rates, in operations per second, that reach the table within the six
    printed decimals: from half below a whole number, in the printer's unit, to
    half above it, in the reader's. -/
def RateSurvives (rate : ℚ) : Prop :=
  ∃ shown : ℕ,
    ((shown - 1 / 2) * (2 ^ 20 / 10 ^ 6) < rate ∨
      rate = (shown - 1 / 2) * (2 ^ 20 / 10 ^ 6) ∧ shown % 2 = 0) ∧
    rate ≤ shown + 1 / 2

/-- The two units drift apart: nothing above 21.5 operations per second survives. -/
theorem rateSurvives_le {rate : ℚ} (survives : RateSurvives rate) : rate ≤ 43 / 2 := by
  obtain ⟨shown, low, high⟩ := survives
  have band : (shown - 1 / 2) * (2 ^ 20 / 10 ^ 6) ≤ rate := by
    rcases low with below | ⟨tie, _⟩
    · exact below.le
    · exact tie.ge
  have few : (shown : ℚ) < 22 := by
    norm_num at band
    linarith
  have whole : (shown : ℚ) ≤ 21 := by
    exact_mod_cast Nat.le_of_lt_succ (by exact_mod_cast few)
  linarith

theorem rounded_within_iff {rate : ℚ} (nonneg : 0 ≤ rate) :
    |(roundHalfEven (rate * 10 ^ 6 / 2 ^ 20) : ℚ) / 1000 - rate / 1000| ≤ 1 / 2000 ↔
      RateSurvives rate := by
  have above := roundHalfEven_le (rate * 10 ^ 6 / 2 ^ 20)
  -- The printer's unit is the larger one, so the table is never above the rate by more.
  have smaller : rate * 10 ^ 6 / 2 ^ 20 ≤ rate := by
    rw [div_le_iff₀ (by norm_num)]
    exact mul_le_mul_of_nonneg_left (by norm_num) nonneg
  have reduce : |(roundHalfEven (rate * 10 ^ 6 / 2 ^ 20) : ℚ) / 1000 - rate / 1000| ≤ 1 / 2000 ↔
      rate ≤ roundHalfEven (rate * 10 ^ 6 / 2 ^ 20) + 1 / 2 := by
    rw [abs_le]
    constructor
    · rintro ⟨low, _⟩
      linarith
    · intro low
      exact ⟨by linarith, by linarith⟩
  have unit : ∀ bound : ℚ, bound - 1 / 2 < rate * 10 ^ 6 / 2 ^ 20 ↔
      (bound - 1 / 2) * (2 ^ 20 / 10 ^ 6) < rate := by
    intro bound
    constructor <;> intro less <;> norm_num at less ⊢ <;> linarith
  have tie : ∀ bound : ℚ, rate * 10 ^ 6 / 2 ^ 20 = bound - 1 / 2 ↔
      rate = (bound - 1 / 2) * (2 ^ 20 / 10 ^ 6) := by
    intro bound
    constructor <;> intro same <;> norm_num at same ⊢ <;> linarith
  rw [reduce]
  constructor
  · intro close
    have scaled : 0 ≤ rate * 10 ^ 6 / 2 ^ 20 := by positivity
    have reached := le_roundHalfEven.mp (le_refl (roundHalfEven (rate * 10 ^ 6 / 2 ^ 20)))
    obtain ⟨shown, printed⟩ := Int.eq_ofNat_of_zero_le (roundHalfEven_nonneg scaled)
    rw [printed, Int.cast_natCast] at close reached
    rw [unit, tie] at reached
    exact ⟨shown, by exact_mod_cast reached, close⟩
  · rintro ⟨shown, low, high⟩
    have reached : (shown : ℤ) ≤ roundHalfEven (rate * 10 ^ 6 / 2 ^ 20) := by
      rw [le_roundHalfEven, unit, tie]
      exact_mod_cast low
    have cast : (shown : ℚ) ≤ roundHalfEven (rate * 10 ^ 6 / 2 ^ 20) := by exact_mod_cast reached
    linarith

/-- The table has the run's rate in thousands, up to the printed decimals,
    exactly for the rates of `RateSurvives`. -/
theorem throughput_report_iff (unicode : Unicode) (path : List Char) (first : Stats)
    (others : List Stats) (someDone : 1 ≤ ((first :: others).map Stats.done).sum)
    (elapsed : (others.map Stats.start).foldl min first.start
      < (others.map Stats.finish).foldl max first.finish) :
    ∃ value, throughput unicode path ((Stats.mergeAll first others).report "randomwrite".toList)
        = .ok value ∧
      (|value - Stats.rate first others / 1000| ≤ 1 / 2000 ↔
        RateSurvives (Stats.rate first others)) := by
  refine ⟨_, throughput_report unicode path first others someDone elapsed, ?_⟩
  apply rounded_within_iff
  rw [← Stats.mergeAll_done] at someDone
  rw [← Stats.mergeAll_start, ← Stats.mergeAll_finish] at elapsed
  exact (Stats.rate_pos someDone elapsed).le

/-- Twelve operations in two seconds survive: six a second. -/
theorem throughput_report_iff_six :
    ∃ value, throughput .ascii "run.log".toList
        ((Stats.mergeAll ⟨8, 0, 1000000, 1⟩ [⟨4, 500000, 2000000, 3 / 2⟩]).report
          "randomwrite".toList) = .ok value ∧ |value - 6 / 1000| ≤ 1 / 2000 := by
  have rate : Stats.rate ⟨8, 0, 1000000, 1⟩ [⟨4, 500000, 2000000, 3 / 2⟩] = 6 := by
    norm_num [Stats.rate]
  obtain ⟨value, reads, within⟩ := throughput_report_iff .ascii "run.log".toList
    ⟨8, 0, 1000000, 1⟩ [⟨4, 500000, 2000000, 3 / 2⟩] (by decide) (by norm_num)
  rw [rate] at within
  exact ⟨value, reads, within.mpr ⟨6, .inl (by norm_num), by norm_num⟩⟩

/-- A million operations in one second do not. -/
theorem throughput_unit_lost :
    ¬ ∀ (unicode : Unicode) (path : List Char) (first : Stats) (others : List Stats),
      1 ≤ ((first :: others).map Stats.done).sum →
      (others.map Stats.start).foldl min first.start
        < (others.map Stats.finish).foldl max first.finish →
      ∃ value, throughput unicode path ((Stats.mergeAll first others).report "randomwrite".toList)
          = .ok value ∧
        |value - Stats.rate first others / 1000| ≤ 1 / 2000 := by
  intro survives
  have rate : Stats.rate ⟨1000000, 0, 1000000, 1⟩ [] = 1000000 := by
    norm_num [Stats.rate]
  obtain ⟨value, reads, close⟩ := survives .ascii [] ⟨1000000, 0, 1000000, 1⟩ []
    (by decide) (by norm_num)
  rw [throughput_report .ascii [] ⟨1000000, 0, 1000000, 1⟩ [] (by decide) (by norm_num)] at reads
  cases reads
  rw [rate, rounded_within_iff (by norm_num)] at close
  have small := rateSurvives_le close
  norm_num at small

end FdpRocks.Scripts
