import FdpRocks.Experiment.RunPhase

/-! # What the log checks of `run_phase` accept

* `sound_quiet` — a good worker prints nothing that is searched for, its total apart.
* `log_total_iff`, `log_errors`, `log_fault` — what the searches find in a log.
* `logChecks_submitted_iff` — when the checks accept exactly the complete runs.
-/

namespace FdpRocks.Experiment

open FdpRocks.Benchmark FdpRocks.Library.Numerals FdpRocks.Library.Pattern
open FdpRocks.Library.Transition

/-! ## Quiet texts -/

/-- All that is searched for after a run of `num` keys. -/
def searched (num : ℕ) : List (List Char) := totalLine (decimal num) :: errorTexts

/-- Nothing that is searched for is in this text. -/
def Quiet (num : ℕ) (text : List Char) : Prop := ∀ needle ∈ searched num, ¬ needle <:+: text

/-- The text ends where a line does. -/
def Ended (text : List Char) : Prop := ∀ last ∈ text.getLast?, last ∈ ['\n', '\r']

theorem ended_append (left : List Char) {right : List Char} (last : Char)
    (isLast : right.getLast? = some last) (lineEnd : last ∈ ['\n', '\r']) : Ended (left ++ right) := by
  intro other isOther
  rw [List.getLast?_append, isLast, Option.some_or] at isOther
  cases isOther
  exact lineEnd

theorem totalLine_contains {character : Char} (count : List Char)
    (member : character ∈ "Total ".toList ++ " writes completed".toList) :
    character ∈ totalLine count := by
  cases List.mem_append.mp member with
  | inl here => exact List.mem_append_left _ here
  | inr later => exact List.mem_append_right _ (List.mem_append_right _ later)

theorem totalLine_cons (count : List Char) : ∃ rest, totalLine count = 'T' :: 'o' :: rest ∧
    ('T' ∉ count → 'T' ∉ rest) := by
  refine ⟨"tal ".toList ++ (count ++ " writes completed".toList), rfl, ?_⟩
  intro absent
  rw [List.mem_append, List.mem_append, not_or, not_or]
  exact ⟨by decide, absent, by decide⟩

/-- No character of the errors is in the text. -/
theorem errorTexts_absent {error space : Char} {text : List Char} (ofErrors : error ∈ ['E', 'W'])
    (ofSpace : space ∈ ['N', 'f', 'p']) (lacks : Lacks [error, space] text) :
    ∀ needle ∈ errorTexts, ¬ needle <:+: text := by
  have inFirst : error ∈ writeError := by
    fin_cases ofErrors <;> decide
  have inSecond : error ∈ writeFailed := by
    fin_cases ofErrors <;> decide
  have inSpace : space ∈ noSpaceLeft := by
    fin_cases ofSpace <;> decide
  intro needle member
  fin_cases member
  · exact lacks.not_infix (by simp) inSpace
  · exact lacks.not_infix (by simp) inFirst
  · exact lacks.not_infix (by simp) inSecond

/-! ## Letters in numbers -/

theorem isAlpha_apart {character : Char} (alpha : character.isAlpha = true) :
    character.isDigit = false ∧ character ∉ ['.', '-', '=', '>', ' ', '0'] := by
  constructor
  · simp [Char.isAlpha, Char.isUpper, Char.isLower, Char.isDigit, UInt32.le_iff_toNat_le] at alpha ⊢
    omega
  · intro sign
    fin_cases sign <;> cases alpha

section Letters

variable {characters : List Char} (letters : ∀ character ∈ characters, character.isAlpha = true)

include letters

theorem lacks_decimal (value : ℕ) : Lacks characters (decimal value) :=
  fun character member => not_mem_decimal (isAlpha_apart (letters character member)).1 value

theorem lacks_fixedPoint (places : ℕ) (value : ℚ) : Lacks characters (fixedPoint places value) := by
  intro character member
  obtain ⟨noDigit, noSign⟩ := isAlpha_apart (letters character member)
  have absent := not_mem_pointed noDigit (by rintro rfl; simp at noSign) places
    (roundHalfEven (|value| * 10 ^ places)).toNat
  rw [fixedPoint]
  split
  · rintro (_ | ⟨_, later⟩)
    · simp at noSign
    · exact absent later
  · exact absent

theorem lacks_zeroPadded (width value : ℕ) : Lacks characters (zeroPadded width value) := by
  refine .append ?_ (lacks_decimal letters value)
  intro character member zero
  have noSign := (isAlpha_apart (letters character member)).2
  rw [List.eq_of_mem_replicate zero] at noSign
  simp at noSign

theorem lacks_cells (bar : Bar) : Lacks characters bar.cells := by
  intro character member inside
  have noSign := (isAlpha_apart (letters character member)).2
  obtain ⟨cell, _, rfl⟩ := List.mem_map.mp inside
  apply noSign
  split
  · simp
  · split <;> simp

end Letters

/-! ## Messages -/

theorem quiet_of_lacks {num : ℕ} {total error space : Char} {text : List Char}
    (ofTotal : total ∈ ['T', 'w']) (ofErrors : error ∈ ['E', 'W']) (ofSpace : space ∈ ['N', 'f', 'p'])
    (lacks : Lacks [total, error, space] text) : Quiet num text := by
  have lacksErrors : Lacks [error, space] text :=
    fun character member => lacks character (List.mem_cons_of_mem _ member)
  intro needle member
  cases List.mem_cons.mp member with
  | inl isTotal =>
    rw [isTotal]
    apply lacks.not_infix List.mem_cons_self
    apply totalLine_contains
    fin_cases ofTotal <;> decide
  | inr isError => exact errorTexts_absent ofErrors ofSpace lacksErrors needle isError

/-- Neither line ends nor rules are part of what is searched for. -/
theorem searched_lacks {num : ℕ} {needle : List Char} (member : needle ∈ searched num) :
    Lacks ['\n', '\r', '='] needle := by
  cases List.mem_cons.mp member with
  | inl isTotal =>
    rw [isTotal]
    refine .append (by decide) (.append ?_ (by decide))
    intro character inside digit
    fin_cases inside <;> exact not_mem_decimal rfl num digit
  | inr isError => fin_cases isError <;> decide

theorem ended_closed {num : ℕ} {needle text : List Char} (member : needle ∈ searched num)
    (ended : Ended text) : ∀ last ∈ text.getLast?, last ∉ needle := by
  intro last isLast
  apply searched_lacks member last
  have lineEnd := ended last isLast
  fin_cases lineEnd <;> decide

theorem Quiet.append {num : ℕ} {left right : List Char} (quietLeft : Quiet num left)
    (ended : Ended left) (quietRight : Quiet num right) : Quiet num (left ++ right) := by
  intro needle member inside
  cases infix_append_of_last (ended_closed member ended) inside with
  | inl here => exact quietLeft needle member here
  | inr later => exact quietRight needle member later

theorem Quiet.append_rule {num : ℕ} {left rule : List Char} (quietLeft : Quiet num left)
    (quietRule : Quiet num rule) (opens : rule.head? = some '=') : Quiet num (left ++ rule) := by
  have opened : ∀ needle ∈ searched num, ∀ first ∈ rule.head?, first ∉ needle := by
    intro needle member first isFirst
    rw [opens] at isFirst
    cases isFirst
    exact searched_lacks member '=' (by decide)
  intro needle member inside
  cases infix_append_of_head (opened needle member) inside with
  | inl here => exact quietLeft needle member here
  | inr later => exact quietRule needle member later

/-- The number of a thread, and then none of these characters. -/
def Threaded (characters : List Char) (tid : ℕ) (text : List Char) : Prop :=
  ∃ rest, text = thread tid ++ rest ∧ Lacks characters rest

theorem Threaded.start (characters : List Char) (tid : ℕ) : Threaded characters tid (thread tid) :=
  ⟨[], (List.append_nil _).symm, fun _ _ => List.not_mem_nil⟩

theorem Threaded.append {characters : List Char} {tid : ℕ} {text more : List Char}
    (threaded : Threaded characters tid text) (lacks : Lacks characters more) :
    Threaded characters tid (text ++ more) := by
  obtain ⟨rest, rfl, lacksRest⟩ := threaded
  exact ⟨rest ++ more, List.append_assoc _ _ _, lacksRest.append lacks⟩

/-- The `T` of a thread does not start a total. -/
theorem totalLine_thread_iff {count : List Char} {tid : ℕ} {text : List Char} :
    totalLine count <:+: thread tid ++ text ↔ totalLine count <:+: text := by
  obtain ⟨needle, shape, _⟩ := totalLine_cons count
  have opening : thread tid ++ text = 'T' :: (("hread ".toList ++ decimal tid) ++ text) := rfl
  have foreign : 'T' ∉ "hread ".toList ++ decimal tid := by
    rw [List.mem_append, not_or]
    exact ⟨by decide, not_mem_decimal rfl tid⟩
  -- an occurrence opens with `To`, the thread with `Th`
  rw [opening, List.infix_cons_iff, shape, infix_skip foreign, or_iff_right]
  intro opens
  cases (List.cons_prefix_cons.mp (List.cons_prefix_cons.mp opens).2).1

theorem lacks_thread {characters : List Char} (ofNumber : ∀ character ∈ characters, character.isAlpha = true)
    (ofWord : Lacks characters "Thread ".toList) (tid : ℕ) : Lacks characters (thread tid) :=
  .append ofWord (lacks_decimal ofNumber tid)

theorem Threaded.quiet {num tid : ℕ} {space : Char} {text : List Char} (ofSpace : space ∈ ['N', 'f', 'p'])
    (threaded : Threaded ['T', 'E', space] tid text) : Quiet num text := by
  obtain ⟨rest, rfl, lacks⟩ := threaded
  intro needle member
  cases List.mem_cons.mp member with
  | inl isTotal =>
    rw [isTotal, totalLine_thread_iff]
    exact lacks.not_infix List.mem_cons_self (totalLine_contains _ (by decide))
  | inr isError =>
    have ofThread : Lacks ['E', space] (thread tid) := by
      fin_cases ofSpace <;> exact lacks_thread (by simp) (by decide) tid
    have ofRest : Lacks ['E', space] rest :=
      fun character member => lacks character (List.mem_cons_of_mem _ member)
    exact errorTexts_absent (by simp) ofSpace (ofThread.append ofRest) needle isError

section Messages

variable (num tid : ℕ)

theorem writesCompleted_quiet (successCount batchCount : ℕ) :
    Quiet num ((Message.writesCompleted successCount batchCount).text tid) := by
  have text : Threaded ['T', 'E', 'N'] tid
      ((Message.writesCompleted successCount batchCount).text tid) := by
    refine .append (.append (.append (.append (.append (.start _ tid) ?_) ?_) ?_) ?_) ?_
    · decide
    · exact lacks_decimal (by simp) _
    · decide
    · exact lacks_decimal (by simp) _
    · decide
  exact text.quiet (by simp)

theorem lacks_getDiskUsage (disk : Option DiskInfo) :
    Lacks ['T', 'W', 'f'] (getDiskUsage disk) := by
  cases disk with
  | none =>
    show Lacks _ "N/A".toList
    decide
  | some info =>
    refine .append (.append (.append ?_ ?_) ?_) ?_
    · exact lacks_fixedPoint (by simp) _ _
    · decide
    · exact lacks_fixedPoint (by simp) _ _
    · decide

theorem writeProgress_quiet (time : ℕ × ℕ) (completedKeys : ℕ) (disk : Option DiskInfo) :
    Quiet num ((Message.writeProgress time completedKeys disk).text tid) := by
  have text : Lacks ['T', 'W', 'f'] ((Message.writeProgress time completedKeys disk).text tid) := by
    refine .append (.append (.append (.append (.append (.append ?_ ?_) ?_) ?_) ?_) ?_) ?_
    · decide
    · refine .append (.append ?_ ?_) ?_
      · exact lacks_decimal (by simp) _
      · decide
      · exact lacks_zeroPadded (by simp) _ _
    · decide
    · exact lacks_decimal (by simp) _
    · decide
    · exact lacks_getDiskUsage disk
    · decide
  exact quiet_of_lacks (by simp) (by simp) (by simp) text

/-- The warning quotes the status. -/
theorem stuck_quiet {status : Status} (ok : status.ok = true)
    (successCount batchCount wbCount : ℕ) :
    Quiet num ((Message.stuck successCount status batchCount wbCount).text tid) := by
  have answer : Lacks ['T', 'E', 'p'] (if status.ok then "OK".toList else status.text) := by
    rw [if_pos ok]
    decide
  have text : Threaded ['T', 'E', 'p'] tid
      ((Message.stuck successCount status batchCount wbCount).text tid) := by
    refine .append (.append (.append (.append (.append (.append (.append (.append (.append
      (.start _ tid) ?_) ?_) ?_) answer) ?_) ?_) ?_) ?_) ?_
    · decide
    · exact lacks_decimal (by simp) _
    · decide
    · decide
    · exact lacks_decimal (by simp) _
    · decide
    · exact lacks_decimal (by simp) _
    · decide
  exact text.quiet (by simp)

theorem finalFlush_quiet {ok : Bool} (returned : ok = true) (successCount batchCount : ℕ) :
    Quiet num ((Message.finalFlush successCount batchCount ok).text tid) := by
  have answer : Lacks ['T', 'E', 'N'] (if ok then "OK".toList else "ERROR".toList) := by
    rw [if_pos returned]
    decide
  have text : Threaded ['T', 'E', 'N'] tid
      ((Message.finalFlush successCount batchCount ok).text tid) := by
    refine .append (.append (.append (.append (.append (.append (.append (.start _ tid)
      ?_) ?_) ?_) ?_) ?_) answer) ?_
    · decide
    · exact lacks_decimal (by simp) _
    · decide
    · exact lacks_decimal (by simp) _
    · decide
    · decide
  exact text.quiet (by simp)

theorem opsCompleted_quiet (done : ℕ) : Quiet num ((Message.opsCompleted done).text tid) := by
  have text : Threaded ['T', 'E', 'N'] tid ((Message.opsCompleted done).text tid) := by
    refine .append (.append (.append (.start _ tid) ?_) ?_) ?_
    · decide
    · exact lacks_decimal (by simp) _
    · decide
  exact text.quiet (by simp)

/-- The bar has an `ETA`, but no small `w`. -/
theorem progressBar_quiet (bar : Bar) : Quiet num ((Message.progressBar bar).text tid) := by
  have text : Lacks ['w', 'W', 'N'] ((Message.progressBar bar).text tid) := by
    refine .append (lacks_thread (by simp) (by decide) tid) ?_
    refine .append (.append (.append (.append (.append (.append (.append (.append (.append (.append
      (.append (.append (.append (.append (.append (.append ?_ ?_) ?_) ?_) ?_) ?_) ?_) ?_) ?_) ?_)
        ?_) ?_) ?_) ?_) ?_) ?_) ?_
    · decide
    · exact lacks_cells (by simp) bar
    · decide
    · exact lacks_fixedPoint (by simp) _ _
    · decide
    · exact lacks_decimal (by simp) _
    · decide
    · exact lacks_decimal (by simp) _
    · decide
    · exact lacks_fixedPoint (by simp) _ _
    · decide
    · exact lacks_zeroPadded (by simp) _ _
    · decide
    · exact lacks_zeroPadded (by simp) _ _
    · decide
    · exact lacks_zeroPadded (by simp) _ _
    · decide
  exact quiet_of_lacks (by simp) (by simp) (by simp) text

theorem newline_quiet : Quiet num (Message.newline.text tid) := by
  have text : Lacks ['T', 'E', 'N'] (Message.newline.text tid) := by
    show Lacks _ "\n".toList
    decide
  exact quiet_of_lacks (by simp) (by simp) (by simp) text

theorem tickers_quiet (tickers : Tickers) :
    Quiet num (printApplicationWriteAmplification tickers) := by
  have counter : ∀ (label : List Char) (bytes : UInt64), Lacks ['T', 'E', 'N'] label →
      Lacks ['T', 'E', 'N'] (label ++ decimal bytes.toNat ++ " (".toList
        ++ fixedPoint 2 (megabytes bytes) ++ " MB)\n".toList) := by
    intro label bytes lacks
    refine .append (.append (.append (.append lacks ?_) ?_) ?_) ?_
    · exact lacks_decimal (by simp) _
    · decide
    · exact lacks_fixedPoint (by simp) _ _
    · decide
  have text : Lacks ['T', 'E', 'N'] (printApplicationWriteAmplification tickers) := by
    refine .append (.append (.append (.append (.append ?_ ?_) ?_) ?_) ?_) ?_
    · decide
    · exact counter _ _ (by decide)
    · exact counter _ _ (by decide)
    · exact counter _ _ (by decide)
    · refine .append (.append ?_ ?_) ?_
      · decide
      · exact lacks_fixedPoint (by simp) _ _
      · decide
    · decide
  exact quiet_of_lacks (by simp) (by simp) (by simp) text

theorem quiet_nil : Quiet num [] :=
  quiet_of_lacks (by simp) (by simp) (by simp) (by decide : Lacks ['T', 'E', 'N'] [])

/-- The statistics stand between two rules. -/
theorem statistics_quiet {text : List Char} (ofStats : Quiet num text) :
    Quiet num ("\n========== RocksDB Statistics ==========\n".toList
      ++ (text ++ "=========================================\n\n".toList)) := by
  have header : Lacks ['T', 'E', 'N'] "\n========== RocksDB Statistics ==========\n".toList := by
    decide
  have rule : Lacks ['T', 'E', 'N'] "=========================================\n\n".toList := by
    decide
  apply Quiet.append
  · exact quiet_of_lacks (by simp) (by simp) (by simp) header
  · intro last isLast
    cases isLast
    decide
  · apply ofStats.append_rule
    · exact quiet_of_lacks (by simp) (by simp) (by simp) rule
    · rfl

theorem rocksdbStats_quiet {stats : Option (List Char)} (tickers : Option Tickers)
    (ofStats : ∀ text ∈ stats, Quiet num text) :
    Quiet num ((Message.rocksdbStats stats tickers).text tid) := by
  cases stats with
  | none =>
    cases tickers with
    | none => exact quiet_nil num
    | some tickers => exact tickers_quiet num tickers
  | some text =>
    have block := statistics_quiet num (ofStats text rfl)
    have ends : Ended ("\n========== RocksDB Statistics ==========\n".toList
        ++ (text ++ "=========================================\n\n".toList)) := by
      rw [← List.append_assoc]
      exact ended_append _ '\n' rfl (by simp)
    cases tickers with
    | none => exact block.append ends (quiet_nil num)
    | some tickers => exact block.append ends (tickers_quiet num tickers)

end Messages

/-- A good worker prints nothing that is searched for, its total apart. -/
theorem sound_quiet {num : ℕ} {outside : Outside} {message : Message}
    (ofStats : ∀ call, ∀ text ∈ outside.rocksdbStats call, Quiet num text)
    (sound : message.Sound outside) (tid : ℕ) : Quiet num (message.text tid) := by
  cases message with
  | writesCompleted => exact writesCompleted_quiet _ _ _ _
  | writeProgress => exact writeProgress_quiet _ _ _ _ _
  | stuck => exact stuck_quiet _ _ sound _ _ _
  | finalFlush => exact finalFlush_quiet _ _ sound _ _
  | opsCompleted => exact opsCompleted_quiet _ _ _
  | progressBar => exact progressBar_quiet _ _ _
  | newline => exact newline_quiet _ _
  | rocksdbStats stats tickers =>
    apply rocksdbStats_quiet
    intro text isText
    obtain ⟨call, answer⟩ := sound text isText
    exact ofStats call text answer
  | _ => cases sound

theorem bar_getLast (bar : Bar) : bar.text.getLast? = some '\r' :=
  List.getLast?_append.trans rfl

theorem tickers_getLast (tickers : Tickers) :
    (printApplicationWriteAmplification tickers).getLast? = some '\n' :=
  List.getLast?_append.trans rfl

theorem sound_ended {outside : Outside} {message : Message} (sound : message.Sound outside)
    (tid : ℕ) : Ended (message.text tid) := by
  cases message with
  | writesCompleted => exact ended_append _ '\n' rfl (by simp)
  | writeProgress => exact ended_append _ '\n' rfl (by simp)
  | stuck => exact ended_append _ '\n' rfl (by simp)
  | finalFlush => exact ended_append _ '\n' rfl (by simp)
  | opsCompleted => exact ended_append _ '\r' rfl (by simp)
  | progressBar bar => exact ended_append _ '\r' (bar_getLast bar) (by simp)
  | newline => exact ended_append [] '\n' rfl (by simp)
  | rocksdbStats stats tickers =>
    cases tickers with
    | some tickers => exact ended_append _ '\n' (tickers_getLast tickers) (by simp)
    | none =>
      cases stats with
      | none =>
        intro last none
        cases none
      | some text =>
        show Ended (("\n========== RocksDB Statistics ==========\n".toList
          ++ (text ++ "=========================================\n\n".toList)) ++ [])
        rw [List.append_nil, ← List.append_assoc]
        exact ended_append _ '\n' rfl (by simp)
  | _ => cases sound

/-! ## Totals -/

theorem total_text (count tid : ℕ) : (Message.total count).text tid
    = thread tid ++ (": ".toList ++ (totalLine (decimal count) ++ "\n".toList)) := by
  -- the searched line stands between the colon and the line break
  have opening : ": Total ".toList = ": ".toList ++ "Total ".toList := rfl
  have closing : " writes completed\n".toList = " writes completed".toList ++ "\n".toList := rfl
  show thread tid ++ ": Total ".toList ++ decimal count ++ " writes completed\n".toList
    = thread tid ++ (": ".toList
      ++ ("Total ".toList ++ (decimal count ++ " writes completed".toList) ++ "\n".toList))
  generalize ": Total ".toList = left at opening
  generalize " writes completed\n".toList = right at closing
  generalize "Total ".toList = total at opening
  generalize " writes completed".toList = completed at closing
  subst opening closing
  simp only [List.append_assoc]

theorem decimal_injective {left right : ℕ} (same : decimal left = decimal right) : left = right := by
  rw [← @Nat.ofDigitChars_ten_toDigits left, ← decimal, same, decimal, Nat.ofDigitChars_ten_toDigits]

/-- A count ends at the blank behind it. -/
theorem totalLine_opens {num count : ℕ} {text : List Char}
    (opens : totalLine (decimal num) <+: totalLine (decimal count) ++ text) : num = count := by
  have opensCount : decimal num ++ " writes completed".toList
      <+: decimal count ++ (" writes completed".toList ++ text) := by
    rw [← List.prefix_append_right_inj "Total ".toList, ← List.append_assoc (decimal count),
      ← List.append_assoc "Total ".toList (_ ++ _)]
    exact opens
  obtain ⟨tail, same⟩ := opensCount
  have stops : ∀ behind, Stops Char.isDigit (" writes completed".toList ++ behind) :=
    fun behind => stops_cons rfl
  apply decimal_injective
  rw [← takeWhile_stops (fun _ => decimal_isDigit) (stops tail), ← List.append_assoc, same,
    takeWhile_stops (fun _ => decimal_isDigit) (stops text)]

theorem total_searched_iff {num count tid : ℕ} :
    totalLine (decimal num) <:+: (Message.total count).text tid ↔ num = count := by
  obtain ⟨needle, shape, _⟩ := totalLine_cons (decimal num)
  obtain ⟨text, shapeText, absentText⟩ := totalLine_cons (decimal count)
  have foreign : 'T' ∉ ": ".toList := by decide
  have absent : 'T' ∉ 'o' :: text ++ "\n".toList := by
    rw [List.cons_append, List.mem_cons, List.mem_append, not_or, not_or]
    exact ⟨by decide, absentText (not_mem_decimal rfl count), by decide⟩
  rw [total_text, totalLine_thread_iff, shape, infix_skip foreign, ← shape]
  constructor
  · intro inside
    rw [shapeText, List.cons_append] at inside
    -- the line has one `T` only, so an occurrence starts with it
    cases List.infix_cons_iff.mp inside with
    | inl opens =>
      rw [← List.cons_append, ← shapeText] at opens
      exact totalLine_opens opens
    | inr later =>
      rw [shape] at later
      exact absurd later (not_infix_of_absent List.mem_cons_self absent)
  · intro same
    subst same
    exact (List.prefix_append _ _).isInfix

theorem total_errors (count tid : ℕ) :
    ∀ needle ∈ errorTexts, ¬ needle <:+: (Message.total count).text tid := by
  have text : Lacks ['E', 'N'] ((Message.total count).text tid) := by
    refine .append (.append (.append (lacks_thread (by simp) (by decide) tid) ?_) ?_) ?_
    · decide
    · exact lacks_decimal (by simp) _
    · decide
  exact errorTexts_absent (by simp) (by simp) text

theorem total_ended (count tid : ℕ) : Ended ((Message.total count).text tid) :=
  ended_append _ '\n' rfl (by simp)

/-! ## The log of a run -/

/-- Neither the rest of the process nor the statistics of RocksDB print anything
    that is searched for. -/
structure QuietRun (run : WriteRun) : Prop where
  others : ∀ text ∈ run.others, Quiet run.flags.num.toNat text ∧ Ended text
  stats : ∀ tid call, ∀ text ∈ (run.outside tid).rocksdbStats call,
    Quiet run.flags.num.toNat text

section Run

variable {run : WriteRun} {state : Woven (Option run.Worker) Event}

/-- Every text of a run without faults is quiet, the totals apart. -/
theorem entry_cases (reachable : Reachable run.system state) (quiet : QuietRun run) (ok : run.AllOk)
    {entry : Option run.Worker × Event} (member : entry ∈ state.done) :
    (Quiet run.flags.num.toNat (run.entryText entry) ∧ Ended (run.entryText entry)) ∨
      ∃ tid : run.Worker,
        run.entryText entry = (Message.total (run.keys tid).length).text tid := by
  obtain ⟨party, event⟩ := entry
  have own := weaving_mem reachable member
  cases party with
  | none =>
    obtain ⟨text, isOther, rfl⟩ := List.mem_map.mp own
    exact .inl (quiet.others text isOther)
  | some tid =>
    cases event with
    -- a write prints nothing by itself
    | write batch status => exact .inl ⟨quiet_nil _, fun last none => nomatch none⟩
    | print message =>
      obtain ⟨_, _, messages, _⟩ := (run.trace_spec tid).sound (ok tid)
      cases messages message own with
      | inl sound => exact .inl ⟨sound_quiet (quiet.stats tid) sound tid, sound_ended sound tid⟩
      | inr total =>
        subst total
        exact .inr ⟨tid, rfl⟩

theorem log_infix_iff (reachable : Reachable run.system state) (quiet : QuietRun run)
    (ok : run.AllOk) {needle : List Char} (member : needle ∈ searched run.flags.num.toNat) :
    needle <:+: run.log state.done ↔ ∃ entry ∈ state.done, needle <:+: run.entryText entry := by
  have some : needle ≠ [] := by
    cases List.mem_cons.mp member with
    | inl isTotal =>
      obtain ⟨rest, shape, _⟩ := totalLine_cons (decimal run.flags.num.toNat)
      rw [isTotal, shape]
      exact List.cons_ne_nil _ _
    | inr isError => fin_cases isError <;> decide
  -- every text ends a line, so an occurrence does not straddle two of them
  have closed : ∀ chunk ∈ state.done.map run.entryText,
      ∀ last ∈ chunk.getLast?, last ∉ needle := by
    intro chunk inLog
    obtain ⟨entry, inDone, rfl⟩ := List.mem_map.mp inLog
    cases entry_cases reachable quiet ok inDone with
    | inl calm => exact ended_closed member calm.2
    | inr total =>
      obtain ⟨tid, text⟩ := total
      rw [text]
      exact ended_closed member (total_ended _ _)
  rw [WriteRun.log, List.flatMap_def, infix_flatten_iff some closed]
  simp

/-- The errors are not in the log of a run without faults. -/
theorem log_errors (reachable : Reachable run.system state) (quiet : QuietRun run)
    (ok : run.AllOk) : ∀ needle ∈ errorTexts, ¬ needle <:+: run.log state.done := by
  intro needle isError inside
  have member : needle ∈ searched run.flags.num.toNat := List.mem_cons_of_mem _ isError
  obtain ⟨entry, inDone, found⟩ := (log_infix_iff reachable quiet ok member).mp inside
  cases entry_cases reachable quiet ok inDone with
  | inl calm => exact calm.1 needle member found
  | inr total =>
    obtain ⟨tid, text⟩ := total
    rw [text] at found
    exact total_errors _ _ needle isError found

/-- The searched total is in the log if one worker has all the keys. -/
theorem log_total_iff (reachable : Reachable run.system state)
    (finished : ∀ party, state.pending party = []) (quiet : QuietRun run) (ok : run.AllOk) :
    totalLine (decimal run.flags.num.toNat) <:+: run.log state.done ↔
      ∃ tid, (run.keys tid).length = run.flags.num.toNat := by
  rw [log_infix_iff reachable quiet ok List.mem_cons_self]
  constructor
  · rintro ⟨entry, inDone, found⟩
    cases entry_cases reachable quiet ok inDone with
    | inl calm => exact absurd found (calm.1 _ List.mem_cons_self)
    | inr total =>
      obtain ⟨tid, text⟩ := total
      rw [text, total_searched_iff] at found
      exact ⟨tid, found.symm⟩
  · rintro ⟨tid, whole⟩
    obtain ⟨_, printed, _⟩ := (run.trace_spec tid).sound (ok tid)
    have inDone : (some tid, .print (.total (run.keys tid).length)) ∈ state.done := by
      rw [← mem_actionsOf, weaving_finished reachable finished]
      exact printed
    exact ⟨_, inDone, total_searched_iff.mpr whole.symm⟩

theorem allSubmitted_iff (reachable : Reachable run.system state)
    (finished : ∀ party, state.pending party = []) : run.AllSubmitted state.done ↔ run.AllOk := by
  constructor
  · intro submitted
    by_contra fault
    obtain ⟨tid, failed⟩ := not_forall.mp fault
    have fewer := ((run.trace_spec tid).fault failed).1
    have all := submitted tid
    rw [weaving_finished reachable finished] at all
    exact fewer.ne (congrArg List.length all)
  · intro ok tid
    rw [weaving_finished reachable finished]
    exact ((run.trace_spec tid).sound (ok tid)).1

/-- Both errors of a write, in the loop and behind it, have the searched text. -/
theorem isError_text {message : Message} (isError : message.IsError) (tid : ℕ) :
    writeError <:+: message.text tid := by
  have further : ∀ {left : List Char} (right : List Char), writeError <:+: left →
      writeError <:+: left ++ right :=
    fun right inside => inside.trans (List.prefix_append _ right).isInfix
  cases message with
  | writeError successCount status =>
    have label : writeError <:+: ": Write ERROR at count ".toList :=
      ⟨": ".toList, " at count ".toList, rfl⟩
    have opening := label.trans (List.suffix_append (thread tid) _).isInfix
    exact further _ (further _ (further _ (further _ opening)))
  | finalWriteError successCount status batchCount =>
    have label : writeError <:+: ": Final Write ERROR at count ".toList :=
      ⟨": Final ".toList, " at count ".toList, rfl⟩
    have opening := label.trans (List.suffix_append (thread tid) _).isInfix
    exact further _ (further _ (further _ (further _ (further _ (further _ opening)))))
  | _ => cases isError

/-- A worker that met a fault leaves the error in the log. -/
theorem log_fault (reachable : Reachable run.system state)
    (finished : ∀ party, state.pending party = []) (fault : ¬ run.AllOk) :
    writeError <:+: run.log state.done := by
  obtain ⟨tid, failed⟩ := not_forall.mp fault
  obtain ⟨_, message, printed, isError⟩ := (run.trace_spec tid).fault failed
  have inDone : (some tid, .print message) ∈ state.done := by
    rw [← mem_actionsOf, weaving_finished reachable finished]
    exact printed
  apply (isError_text isError tid).trans
  rw [WriteRun.log, List.flatMap_def]
  exact List.infix_of_mem_flatten (List.mem_map_of_mem inDone)

end Run

/-! ## The checks -/

theorem logChecks_ok_iff {phase count log : List Char} :
    logChecks phase count log = .ok () ↔
      totalLine count <:+: log ∧ ∀ needle ∈ errorTexts, ¬ needle <:+: log := by
  unfold logChecks
  split
  next absent =>
    rw [Bool.not_eq_true', ← Bool.not_eq_true, contains_iff] at absent
    simp [absent]
  next present =>
    rw [Bool.not_eq_true', Bool.not_eq_false, contains_iff] at present
    split
    next found =>
      obtain ⟨needle, isError, inside⟩ := List.any_eq_true.mp found
      simp only [reduceCtorEq, false_iff, not_and, not_forall, not_not]
      exact fun _ => ⟨needle, isError, contains_iff.mp inside⟩
    next none =>
      refine iff_of_true rfl ⟨present, ?_⟩
      intro needle isError inside
      exact none (List.any_eq_true.mpr ⟨needle, isError, contains_iff.mpr inside⟩)

theorem share_eq (run : WriteRun) (tid : run.Worker) :
    (run.keys tid).length = run.flags.num.toNat / run.flags.workerThreads.toNat
      + if (tid : ℕ) = run.flags.workerThreads.toNat - 1
        then run.flags.num.toNat % run.flags.workerThreads.toNat else 0 := by
  have small : (tid : ℕ) < 2 ^ 32 := tid.isLt.trans run.flags.workerThreads.toNat_lt
  rw [run.shares tid, expectedCount_toNat run.workers, UInt32.toNat_ofNat_of_lt' small]

/-- A worker has all the keys if it is alone, or if the others have none. -/
theorem whole_share_iff (run : WriteRun) :
    (∃ tid, (run.keys tid).length = run.flags.num.toNat) ↔
      run.flags.workerThreads = 1 ∨ run.flags.num.toNat < run.flags.workerThreads.toNat := by
  have workers := workerThreads_pos run.workers
  have split := Nat.div_add_mod run.flags.num.toNat run.flags.workerThreads.toNat
  constructor
  · rintro ⟨tid, whole⟩
    rw [share_eq] at whole
    by_contra others
    obtain ⟨notAlone, enough⟩ := not_or.mp others
    have many : 2 ≤ run.flags.workerThreads.toNat := by
      have notOne : run.flags.workerThreads.toNat ≠ 1 := fun one => notAlone (UInt32.toNat_inj.mp one)
      omega
    have some := Nat.div_pos (not_lt.mp enough) workers
    -- Two workers with as many keys each already have more than the one with the rest.
    have twice := Nat.mul_le_mul_right (run.flags.num.toNat / run.flags.workerThreads.toNat) many
    split_ifs at whole <;> omega
  · rintro (alone | few)
    · have one : run.flags.workerThreads.toNat = 1 := by rw [alone]; rfl
      exact ⟨⟨0, workers⟩, run.single_share alone _⟩
    · refine ⟨⟨run.flags.workerThreads.toNat - 1, by omega⟩, ?_⟩
      rw [share_eq, if_pos rfl, Nat.div_eq_of_lt few, Nat.mod_eq_of_lt few, Nat.zero_add]

/-- The checks tell a run in which all keys were written from one in which a write
    failed, unless several workers share the keys: each of them prints the total of
    its own share, and never the one that is searched for. -/
theorem logChecks_submitted_iff (run : WriteRun) {state : Woven (Option run.Worker) Event}
    (reachable : Reachable run.system state) (finished : ∀ party, state.pending party = [])
    (quiet : QuietRun run) (phase : List Char) :
    (logChecks phase (decimal run.flags.num.toNat) (run.log state.done) = .ok () ↔
        run.AllSubmitted state.done) ↔
      run.flags.workerThreads = 1 ∨ run.flags.num.toNat < run.flags.workerThreads.toNat ∨
        ¬ run.AllOk := by
  rw [logChecks_ok_iff, allSubmitted_iff reachable finished, ← or_assoc, ← whole_share_iff]
  by_cases ok : run.AllOk
  · rw [log_total_iff reachable finished quiet ok, and_iff_left (log_errors reachable quiet ok),
      iff_true_right ok, or_iff_left (not_not_intro ok)]
  · -- a fault is in the log, and the keys of its batch are not written
    refine iff_of_true (iff_of_false ?_ ok) (.inr ok)
    intro accepted
    exact accepted.2 writeError (by simp [errorTexts]) (log_fault reachable finished ok)

theorem calmRun_quiet {workerThreads : UInt32} {num : UInt64} (workers : workerThreads ≠ 0)
    (someKeys : num ≠ 0) : QuietRun (calmRun workerThreads num workers someKeys) where
  others _ none := nomatch none
  stats _ _ _ none := nomatch none

theorem logChecks_submitted_single :
    ∃ state : Woven (Option (calmRun 1 20000 (by decide) (by decide)).Worker) Event,
      Reachable (calmRun 1 20000 (by decide) (by decide)).system state ∧
      (logChecks "phase1".toList (decimal (20000 : UInt64).toNat)
          ((calmRun 1 20000 (by decide) (by decide)).log state.done) = .ok () ↔
        (calmRun 1 20000 (by decide) (by decide)).AllSubmitted state.done) := by
  obtain ⟨state, reachable, finished, _⟩ :=
    WriteRun.progressLines_inTurn _ (@calmRun_allOk 1 20000 (by decide) (by decide))
  have checks := logChecks_submitted_iff _ reachable finished (calmRun_quiet _ _) "phase1".toList
  exact ⟨state, reachable, checks.mpr (.inl rfl)⟩

/-- Two workers write two keys, and the phase is not accepted. -/
theorem sharedRun_refused :
    ∃ state : Woven (Option (calmRun 2 2 (by decide) (by decide)).Worker) Event,
      Reachable (calmRun 2 2 (by decide) (by decide)).system state ∧
      (∀ party, state.pending party = []) ∧
      (calmRun 2 2 (by decide) (by decide)).AllSubmitted state.done ∧
      logChecks "phase1".toList (decimal (2 : UInt64).toNat)
        ((calmRun 2 2 (by decide) (by decide)).log state.done) ≠ .ok () := by
  have ok := @calmRun_allOk 2 2 (by decide) (by decide)
  obtain ⟨state, reachable, finished, _⟩ := WriteRun.progressLines_inTurn _ ok
  refine ⟨state, reachable, finished, (allSubmitted_iff reachable finished).mpr ok, ?_⟩
  intro accepted
  have total := (logChecks_ok_iff.mp accepted).1
  have whole := (log_total_iff reachable finished (calmRun_quiet _ _) ok).mp total
  exact absurd ((whole_share_iff _).mp whole) (by decide)

end FdpRocks.Experiment
