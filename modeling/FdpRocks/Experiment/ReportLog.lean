import FdpRocks.Experiment.RunReport
import FdpRocks.Experiment.RunLog

/-! # The report in a run's log

`results_to_csv.py` looks for one line in all that a run has printed.

* `sealed_sound` — no message of a good worker has the name of the report.
* `findAll_reports` — among any other texts, the reports are found in their order.
* `throughput_log` — so the script reads the rate of the run, or refuses it.
-/

namespace FdpRocks.Experiment

open FdpRocks.Benchmark FdpRocks.Library.Numerals FdpRocks.Library.Pattern
open FdpRocks.Library.PythonText FdpRocks.Library.Transition FdpRocks.Scripts

/-! ## Other texts -/

def reportName : List Char := "randomwrite".toList

section Texts

variable (tid : ℕ)

theorem reportName_letters : ∀ character ∈ reportName, character.isAlpha = true :=
  List.all_eq_true.mp rfl

theorem sealed_decimal (value : ℕ) : Sealed reportName (decimal value) :=
  .of_lacks (by decide) (lacks_decimal reportName_letters value)

theorem sealed_fixedPoint (places : ℕ) (value : ℚ) : Sealed reportName (fixedPoint places value) :=
  .of_lacks (by decide) (lacks_fixedPoint reportName_letters places value)

theorem sealed_zeroPadded (width value : ℕ) : Sealed reportName (zeroPadded width value) :=
  .of_lacks (by decide) (lacks_zeroPadded reportName_letters width value)

theorem sealed_thread : Sealed reportName (thread tid) := .append (by decide) (sealed_decimal tid)

theorem sealed_writeProgress (time : ℕ × ℕ) (completedKeys : ℕ) (disk : Option DiskInfo) :
    Sealed reportName ((Message.writeProgress time completedKeys disk).text tid) := by
  have stamp : Sealed reportName (getTimestamp time) :=
    .append (.append (sealed_decimal _) (by decide)) (sealed_zeroPadded _ _)
  have answer : Sealed reportName (getDiskUsage disk) := by
    cases disk with
    | none => exact (by decide : Sealed reportName "N/A".toList)
    | some info =>
      exact .append (.append (.append (sealed_fixedPoint _ _) (by decide)) (sealed_fixedPoint _ _))
        (by decide)
  exact .append (.append (.append (.append (.append (.append (by decide) stamp) (by decide))
    (sealed_decimal _)) (by decide)) answer) (by decide)

theorem sealed_bar (bar : Bar) : Sealed reportName bar.text := by
  have cells : Sealed reportName bar.cells := .of_lacks (by decide) (lacks_cells reportName_letters bar)
  unfold Bar.text
  refine .append (.append (.append (.append (.append (.append (.append (.append (.append (.append
    (.append (.append (.append (.append (.append (.append ?_ cells) ?_) (sealed_fixedPoint _ _))
      ?_) (sealed_decimal _)) ?_) (sealed_decimal _)) ?_) (sealed_fixedPoint _ _)) ?_)
        (sealed_zeroPadded _ _)) ?_) (sealed_zeroPadded _ _)) ?_) (sealed_zeroPadded _ _)) ?_ <;> decide

theorem sealed_tickers (tickers : Tickers) :
    Sealed reportName (printApplicationWriteAmplification tickers) where
  absent := by
    have inClosing : 'd' ∉ blockClosing tickers := by
      apply not_mem_blockClosing <;> decide
    have absent : 'd' ∉ printApplicationWriteAmplification tickers := by
      rw [print_eq]
      repeat rw [List.mem_append, not_or]
      refine ⟨by decide, by decide, by decide, ?_⟩
      apply not_mem_blockCounters _ _ _ _ _ _ _ _ inClosing <;> decide
    exact not_infix_of_absent (by decide) absent
  closed last isLast := by
    cases (tickers_getLast tickers).symm.trans isLast
    decide

/-- The rules around RocksDB's statistics close them off. -/
theorem sealed_statistics {text : List Char} (silent : ¬ reportName <:+: text) :
    Sealed reportName ("\n========== RocksDB Statistics ==========\n".toList
      ++ (text ++ "=========================================\n\n".toList)) := by
  refine .append (by decide) ⟨fun inside => ?_, fun last isLast => ?_⟩
  · have opened : ∀ first ∈ "=========================================\n\n".toList.head?,
        first ∉ reportName := by
      intro first isFirst
      cases isFirst
      decide
    have noLetters : Lacks ['r'] "=========================================\n\n".toList := by decide
    exact (infix_append_of_head opened inside).elim silent
      (noLetters.not_infix List.mem_cons_self (by decide))
  · rw [List.getLast?_append] at isLast
    cases isLast
    decide

theorem sealed_rocksdbStats {stats : Option (List Char)} (tickers : Option Tickers)
    (silent : ∀ text ∈ stats, ¬ reportName <:+: text) :
    Sealed reportName ((Message.rocksdbStats stats tickers).text tid) := by
  refine .append ?_ ?_
  · cases stats with
    | none => exact (by decide : Sealed reportName [])
    | some text => exact sealed_statistics (silent text rfl)
  · cases tickers with
    | none => exact (by decide : Sealed reportName [])
    | some tickers => exact sealed_tickers tickers

theorem sealed_total (count : ℕ) : Sealed reportName ((Message.total count).text tid) :=
  .append (.append (.append (sealed_thread tid) (by decide)) (sealed_decimal _)) (by decide)

/-- A good worker does not name the report. -/
theorem sealed_sound {outside : Outside} {message : Message}
    (silent : ∀ call, ∀ text ∈ outside.rocksdbStats call, ¬ reportName <:+: text)
    (sound : message.Sound outside) : Sealed reportName (message.text tid) := by
  have opening := sealed_thread tid
  cases message with
  | writesCompleted =>
    exact .append (.append (.append (.append (.append opening (by decide)) (sealed_decimal _))
      (by decide)) (sealed_decimal _)) (by decide)
  | writeProgress => exact sealed_writeProgress tid _ _ _
  | stuck successCount status batchCount wbCount =>
    have answer : Sealed reportName (if status.ok then "OK".toList else status.text) := by
      have ok : status.ok = true := sound
      rw [if_pos ok]
      decide
    exact .append (.append (.append (.append (.append (.append (.append (.append (.append opening
      (by decide)) (sealed_decimal _)) (by decide)) answer) (by decide)) (sealed_decimal _)) (by decide))
        (sealed_decimal _)) (by decide)
  | finalFlush successCount batchCount ok =>
    have answer : Sealed reportName (if ok then "OK".toList else "ERROR".toList) := by
      cases ok <;> decide
    exact .append (.append (.append (.append (.append (.append (.append opening (by decide))
      (sealed_decimal _)) (by decide)) (sealed_decimal _)) (by decide)) answer) (by decide)
  | opsCompleted =>
    exact .append (.append (.append opening (by decide)) (sealed_decimal _)) (by decide)
  | progressBar bar => exact .append opening (sealed_bar bar)
  | newline => exact (by decide : Sealed reportName "\n".toList)
  | rocksdbStats stats tickers =>
    apply sealed_rocksdbStats
    intro text isText
    obtain ⟨call, answer⟩ := sound text isText
    exact silent call text answer
  | _ => cases sound

end Texts

/-! ## Reports -/

section Reports

variable (unicode : Unicode)

/-- A line is found wherever it stands. -/
theorem throughputRe_line (padding perOp shown : ℕ) (text : List Char) :
    matchPieces (throughputRe unicode) (reportLine padding (pointed 3 perOp) (pointed 6 shown) ++ text)
      = some ⟨[pointed 6 shown], '\n' :: text⟩ := by
  have blanks : ∀ count : ℕ, ∀ character ∈ List.replicate count ' ',
      unicode.isSpace character = true := by
    intro count character member
    rw [List.eq_of_mem_replicate member]
    exact unicode.isSpace_blank
  have blank : ∀ character ∈ " ".toList, unicode.isSpace character = true := blanks 1
  have visible : ∀ {head : Char} {text : List Char}, head.toNat < 128 → isAsciiSpace head = false →
      Stops unicode.isSpace (head :: text) := by
    intro head text ascii shows
    exact stops_cons ((unicode.isSpace_ascii head ascii).trans shows)
  have numeral : ∀ {places scaled : ℕ}, 1 ≤ (pointed places scaled).length :=
    fun {places scaled} => List.length_pos_of_ne_nil (pointed_ne_nil places scaled)
  have unit := matchPieces_literals "Mops/s".toList [] ('\n' :: text)
  rw [List.append_nil, matchPieces] at unit
  -- from the last piece to the first, each run stops at the piece after it
  have afterShown := matchPieces_run 1 (by decide) blank (visible (by decide) rfl) unit
  have number := matchPieces_group 1 numeral (fun _ => @digitOrPoint_pointed unicode 6 shown _)
    (stops_cons (digitOrPoint_blank unicode)) afterShown
  have afterUnit := matchPieces_run 1 (by decide) blank
    (pointed_not_space unicode 6 shown _) number
  have micros := (matchPieces_literals "micros/op".toList _ _).trans afterUnit
  have afterPerOp := matchPieces_run 1 (by decide) blank (visible (by decide) rfl) micros
  have perOpRun := matchPieces_run 1 numeral (fun _ => @digitOrPoint_pointed unicode 3 perOp _)
    (stops_cons (digitOrPoint_blank unicode)) afterPerOp
  have afterColon := matchPieces_run 0 (Nat.zero_le _) (blanks (padding + 1))
    (pointed_not_space unicode 3 perOp _) perOpRun
  have colon : matchPieces (.literal ':' :: _) (':' :: _) = _ := (if_pos rfl).trans afterColon
  have afterName := matchPieces_run 0 (Nat.zero_le _) (blanks 2)
    (stops_cons unicode.isSpace_colon) colon
  have named := (matchPieces_literals reportName _ _).trans afterName
  unfold reportLine
  rw [List.append_assoc, List.append_assoc, List.cons_append]
  repeat rw [List.append_assoc]
  exact named

/-- A report with this number, or a text that does not name one. -/
def Shows (text : List Char) : Option ℕ → Prop
  | some shown => ∃ padding perOp, text = reportLine padding (pointed 3 perOp) (pointed 6 shown)
  | none => ¬ reportName <:+: text ∧ Ended text

theorem findAll_line_report (padding perOp shown : ℕ) (text : List Char) :
    findAll (throughputRe unicode) 0
        (universalNewlines (reportLine padding (pointed 3 perOp) (pointed 6 shown) ++ text))
      = ⟨[pointed 6 shown], '\n' :: universalNewlines text⟩
        :: findAll (throughputRe unicode) 0 (universalNewlines text) := by
  have clean : '\r' ∉ reportLine padding (pointed 3 perOp) (pointed 6 shown) := by
    apply not_mem_reportLine <;> decide
  have found := throughputRe_line unicode padding perOp shown (universalNewlines text)
  have behind : findAll (throughputRe unicode) 0 ('\n' :: universalNewlines text)
      = findAll (throughputRe unicode) 0 (universalNewlines text) :=
    @findAll_closed reportName ['\n'] _ _ (by decide : Sealed reportName ['\n']).absent
      (by decide : Sealed reportName ['\n']).closed
  -- pattern and line both open with the `r` of the name
  obtain ⟨pieces, pattern⟩ : ∃ pieces, throughputRe unicode = .literal 'r' :: pieces := ⟨_, rfl⟩
  obtain ⟨rest, line⟩ : ∃ rest, reportLine padding (pointed 3 perOp) (pointed 6 shown)
      ++ universalNewlines text = 'r' :: rest := ⟨_, rfl⟩
  rw [universalNewlines_clean clean, ← behind]
  rw [line, pattern] at found ⊢
  exact findAll_literal found

/-- Among any other texts, the reports are found in their order. -/
theorem findAll_reports {chunks : List (List Char)} {shown : List (Option ℕ)}
    (shows : List.Forall₂ Shows chunks shown) :
    (findAll (throughputRe unicode) 0 (universalNewlines chunks.flatten)).map Match.groups
      = (shown.filterMap id).map fun number => [pointed 6 number] := by
  induction shows with
  | nil => rfl
  | @cons chunk number chunks numbers here _ inductionHypothesis =>
    rw [List.flatten_cons]
    cases number with
    | none =>
      obtain ⟨silent, ended⟩ := here
      have skipped : findAll (throughputRe unicode) 0 (universalNewlines (chunk ++ chunks.flatten))
          = findAll (throughputRe unicode) 0 (universalNewlines chunks.flatten) :=
        findAll_line (by decide) (by decide) silent ended
      rw [skipped, inductionHypothesis]
      rfl
    | some shown =>
      obtain ⟨padding, perOp, rfl⟩ := here
      rw [findAll_line_report, List.map_cons, inductionHypothesis]
      rfl

end Reports

/-! ## Whole runs -/

/-- A finished run of all workers, and all that was printed meanwhile: the report, and
    texts that do not name it. -/
structure ReportedRun where
  run : WriteRun
  times : run.Times
  state : Woven (Option run.Worker) Event
  reachable : Reachable run.system state
  finished : ∀ party, state.pending party = []
  quiet : QuietRun run
  before : List (List Char)
  after : List (List Char)
  others : run.others = before ++ WriteRun.reportText times :: after
  unnamed : ∀ text ∈ before ++ after, ¬ reportName <:+: text
  unnamedStats : ∀ tid call, ∀ text ∈ (run.outside tid).rocksdbStats call, ¬ reportName <:+: text

namespace ReportedRun

variable (reported : ReportedRun)

def log : List Char := reported.run.log reported.state.done

def report : List Char := WriteRun.reportText reported.times

def shown : ℕ := WriteRun.shownRate reported.times

theorem report_named : reportName <:+: reported.report := by
  obtain ⟨padding, perOp, line⟩ := WriteRun.reportText_eq reported.times
  rw [report, line]
  exact (List.prefix_append reportName _).isInfix

/-- The report that an event prints. -/
def see : Event → Option ℕ
  | .print (.other text) => if text = reported.report then some reported.shown else none
  | _ => none

theorem see_once (ok : reported.run.AllOk) :
    (reported.state.done.filterMap fun entry => reported.see entry.2) = [reported.shown] := by
  have silent : ∀ entry ∈ reported.state.done, entry.1 ≠ none → reported.see entry.2 = none := by
    rintro ⟨party, event⟩ member other
    cases party with
    | none => exact absurd rfl other
    | some tid =>
      have own := weaving_mem reported.reachable member
      obtain ⟨_, _, messages, _⟩ := (reported.run.trace_spec tid).sound (ok tid)
      cases event with
      | write => rfl
      | print message =>
        cases messages message own with
        | inl sound =>
          cases message with
          | other => cases sound
          | _ => rfl
        | inr total =>
          subst total
          rfl
  have different : ∀ text ∈ reported.before ++ reported.after, text ≠ reported.report := by
    rintro text member rfl
    exact reported.unnamed _ member reported.report_named
  have unseen : ∀ texts : List (List Char), (∀ text ∈ texts, text ∈ reported.before ++ reported.after) →
      (texts.map fun text => Event.print (.other text)).filterMap reported.see = [] := by
    intro texts known
    rw [List.filterMap_map, List.filterMap_eq_nil_iff]
    intro text member
    exact if_neg (different text (known text member))
  have seen : reported.see (.print (.other (WriteRun.reportText reported.times)))
      = some reported.shown := if_pos rfl
  have whole : reported.run.traces none = reported.run.others.map fun text => .print (.other text) := rfl
  rw [filterMap_actionsOf silent, weaving_finished reported.reachable reported.finished, whole,
    reported.others, List.map_append, List.map_cons, List.filterMap_append,
    unseen _ fun _ => List.mem_append_left _, List.filterMap_cons_some seen,
    unseen _ fun _ => List.mem_append_right _]
  rfl

theorem shows_entry (ok : reported.run.AllOk) {entry : Option reported.run.Worker × Event}
    (member : entry ∈ reported.state.done) : Shows (reported.run.entryText entry) (reported.see entry.2) := by
  obtain ⟨party, event⟩ := entry
  have own := weaving_mem reported.reachable member
  cases party with
  | none =>
    obtain ⟨text, isOther, rfl⟩ := List.mem_map.mp own
    show Shows text (if text = reported.report then some reported.shown else none)
    by_cases same : text = reported.report
    · rw [if_pos same, same]
      exact WriteRun.reportText_eq reported.times
    · rw [if_neg same]
      refine ⟨reported.unnamed text ?_, (reported.quiet.others text isOther).2⟩
      rw [reported.others, List.mem_append, List.mem_cons] at isOther
      rw [List.mem_append]
      exact isOther.imp id fun later => later.resolve_left same
  | some tid =>
    cases event with
    | write =>
      show Shows [] none
      exact ⟨by decide, ended_nil⟩
    | print message =>
      obtain ⟨_, _, messages, _⟩ := (reported.run.trace_spec tid).sound (ok tid)
      cases messages message own with
      | inl sound =>
        have unseen : reported.see (.print message) = none := by
          cases message with
          | other => cases sound
          | _ => rfl
        show Shows (message.text tid) (reported.see (.print message))
        rw [unseen]
        exact ⟨(sealed_sound tid (reported.unnamedStats tid) sound).absent, sound_ended sound tid⟩
      | inr total =>
        subst total
        exact ⟨(sealed_total tid _).absent, total_ended _ tid⟩

/-- What is read from the log of a run: its rate in the printed digits, or that a
    write has failed. -/
theorem throughput_log (unicode : Unicode) (path : List Char) :
    (reported.run.AllOk → throughput unicode path (universalNewlines reported.log)
      = .ok ((reported.shown : ℚ) / 1000)) ∧
    (¬ reported.run.AllOk → throughput unicode path (universalNewlines reported.log)
      = .error (.valueError ("Failed run: ".toList ++ path))) := by
  constructor
  · intro ok
    have clean : ∀ needle ∈ errorTexts, ¬ contains (universalNewlines reported.log) needle = true := by
      intro needle isError found
      rw [contains_iff] at found
      refine log_errors reported.reachable reported.quiet ok needle isError ?_
      apply infix_of_universalNewlines _ found
      fin_cases isError <;> decide
    have texts : List.Forall₂ Shows (reported.state.done.map reported.run.entryText)
        (reported.state.done.map fun entry => reported.see entry.2) := by
      rw [List.forall₂_map_left_iff, List.forall₂_map_right_iff, List.forall₂_same]
      exact fun entry => reported.shows_entry ok
    have found := findAll_reports unicode texts
    have once : (reported.state.done.map fun entry => reported.see entry.2).filterMap id
        = [reported.shown] := by
      rw [List.filterMap_map]
      exact reported.see_once ok
    rw [once, ← List.flatMap_def] at found
    have passes : ¬ (contains (universalNewlines reported.log) "Write ERROR".toList = true
        ∨ contains (universalNewlines reported.log) "Write FAILED".toList = true
        ∨ contains (universalNewlines reported.log) "No space left".toList = true) := by
      rintro (error | failed | full)
      · exact clean writeError (by simp [errorTexts]) error
      · exact clean writeFailed (by simp [errorTexts]) failed
      · exact clean noSpaceLeft (by simp [errorTexts]) full
    have thousands : (reported.shown : ℚ) / 10 ^ 6 * 1000 = reported.shown / 1000 := by ring
    unfold throughput
    rw [if_neg passes, log, WriteRun.log, found]
    dsimp only [List.map]
    rw [unicode.float_pointed]
    exact congrArg Except.ok thousands
  · intro fault
    have error : contains (universalNewlines reported.log) "Write ERROR".toList = true := by
      rw [contains_iff]
      exact infix_universalNewlines (by decide) (by decide)
        (log_fault reported.reachable reported.finished fault)
    unfold throughput
    rw [if_pos (.inl error)]

end ReportedRun

end FdpRocks.Experiment
