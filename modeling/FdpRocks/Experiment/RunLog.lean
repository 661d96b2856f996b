import FdpRocks.Experiment.SilentTexts
import FdpRocks.Scripts.WaSeries

/-! # What the converter reads from a run's log

The log of a run is whatever its workers and the rest of the process print, in
any order.

* `filePoints_log` — the progress lines in it are all that is found of them.
* `progressPoints_logs` — the points of several logs.
* `textBlocks_log` — so are the write-amplification blocks.
-/

namespace FdpRocks.Experiment

open FdpRocks.Benchmark FdpRocks.Library.Numerals FdpRocks.Library.Pattern
open FdpRocks.Library.PythonText FdpRocks.Scripts

/-! ## Other texts -/

theorem silent_tickers (tickers : Tickers) :
    ¬ progressMarker <:+: printApplicationWriteAmplification tickers := by
  have inClosing : '[' ∉ blockClosing tickers := by
    apply not_mem_blockClosing <;> decide
  have absent : '[' ∉ printApplicationWriteAmplification tickers := by
    rw [print_eq]
    repeat rw [List.mem_append, not_or]
    refine ⟨by decide, by decide, by decide, ?_⟩
    apply not_mem_blockCounters _ _ _ _ _ _ _ _ inClosing <;> decide
  exact not_infix_of_absent (by decide) absent

/-- Only a progress line has the marker of one. -/
theorem silent_line (tid : ℕ) {message : Message} (plain : Plain progressMarker message)
    (other : message.completedKeys = none) :
    ¬ progressMarker <:+: message.text tid ∧ Ended (message.text tid) := by
  have known : progressMarker ∈ markers := List.mem_cons_self
  cases message with
  | rocksdbStats stats tickers =>
    refine ⟨?_, rocksdbStats_ended tid stats tickers⟩
    cases tickers with
    | none => exact silent_statistics tid known plain
    | some tickers =>
      rw [statistics_text]
      intro inside
      have closed : ∀ last ∈ ((Message.rocksdbStats stats none).text tid).getLast?,
          last ∉ progressMarker := by
        intro last isLast
        have lineEnd := rocksdbStats_ended tid stats none last isLast
        fin_cases lineEnd <;> decide
      cases infix_append_of_last closed inside with
      | inl here => exact silent_statistics tid known plain here
      | inr later => exact silent_tickers tickers later
  | _ => exact silent_message tid known plain other (by simp)

/-! ## One progress line -/

section Lines

variable (unicode : Unicode)

/-- A time in seconds and microseconds. -/
def seconds (time : ℕ × ℕ) : ℚ := time.1 + time.2 / 10 ^ 6

theorem getTimestamp_eq (time : ℕ × ℕ) :
    getTimestamp time = decimal time.1 ++ '.' :: zeroPadded 6 time.2 := by
  unfold getTimestamp
  rw [List.append_assoc]
  rfl

theorem zeroPadded_digits {width value : ℕ} {character : Char}
    (member : character ∈ zeroPadded width value) : character.isDigit = true := by
  cases List.mem_append.mp member with
  | inl zero =>
    rw [List.eq_of_mem_replicate zero]
    rfl
  | inr digit => exact decimal_isDigit digit

theorem float_getTimestamp {time : ℕ × ℕ} (small : time.2 < 10 ^ 6) :
    unicode.float (getTimestamp time) = some (seconds time) := by
  have whole : ∀ character ∈ decimal time.1, unicode.isDigit character = true :=
    fun character member => unicode.isDigit_of_digit (decimal_isDigit member)
  have fraction : (zeroPadded 6 time.2).all unicode.isDigit = true := by
    rw [List.all_eq_true]
    exact fun character member => unicode.isDigit_of_digit (zeroPadded_digits member)
  have stops : Stops unicode.isDigit ('.' :: zeroPadded 6 time.2) := stops_cons unicode.isDigit_point
  have rest : (decimal time.1 ++ '.' :: zeroPadded 6 time.2).dropWhile unicode.isDigit
      = '.' :: zeroPadded 6 time.2 := by
    rw [List.dropWhile_append_of_pos whole, List.dropWhile_cons_of_neg (by simp)]
  have ascii : ∀ character ∈ decimal time.1 ++ zeroPadded 6 time.2, character.isDigit = true := by
    intro character member
    cases List.mem_append.mp member with
    | inl digit => exact decimal_isDigit digit
    | inr digit => exact zeroPadded_digits digit
  have places : (zeroPadded 6 time.2).length = 6 := by
    have short := decimal_length_le (by decide) small
    rw [zeroPadded, List.length_append, List.length_replicate]
    omega
  have value : Nat.ofDigitChars 10 (decimal time.1 ++ zeroPadded 6 time.2) 0
      = 10 ^ 6 * time.1 + time.2 := by
    have padding : Nat.ofDigitChars 10 (zeroPadded 6 time.2) 0 = time.2 := by
      rw [zeroPadded, Nat.ofDigitChars_append, Nat.ofDigitChars_replicate_zero, decimal,
        Nat.mul_zero, Nat.ofDigitChars_ten_toDigits]
    rw [Nat.ofDigitChars_append, Nat.ofDigitChars_eq_ofDigitChars_zero, places, padding, decimal,
      Nat.ofDigitChars_ten_toDigits]
  have someWhole : decimal time.1 ++ zeroPadded 6 time.2 ≠ [] :=
    fun none => decimal_ne_nil time.1 (List.append_eq_nil_iff.mp none).1
  rw [getTimestamp_eq, Unicode.float, takeWhile_stops whole stops, rest]
  dsimp only
  rw [if_pos ⟨rfl, fraction, someWhole⟩, unicode.int_ascii ascii, value, places, seconds]
  push_cast
  congr 1
  ring

/-- A progress line up to its key count. -/
def front (time : ℕ × ℕ) (completedKeys : ℕ) : List Char :=
  progressMarker ++ ([' '] ++ ("timestamp=".toList ++ (getTimestamp time ++ ([' ']
    ++ ("completed_keys=".toList ++ decimal completedKeys)))))

/-- The end of a progress line. -/
def usage (disk : Option DiskInfo) : List Char :=
  " disk_usage=".toList ++ (getDiskUsage disk ++ "\n".toList)

theorem writeProgress_text (tid : ℕ) (time : ℕ × ℕ) (completedKeys : ℕ) (disk : Option DiskInfo) :
    (Message.writeProgress time completedKeys disk).text tid
      = front time completedKeys ++ usage disk := by
  have opening : "[write-progress] timestamp=".toList
      = progressMarker ++ ([' '] ++ "timestamp=".toList) := rfl
  have middle : " completed_keys=".toList = [' '] ++ "completed_keys=".toList := rfl
  show "[write-progress] timestamp=".toList ++ getTimestamp time ++ " completed_keys=".toList
      ++ decimal completedKeys ++ " disk_usage=".toList ++ getDiskUsage disk ++ "\n".toList = _
  generalize "[write-progress] timestamp=".toList = left at opening
  generalize " completed_keys=".toList = right at middle
  subst opening middle
  unfold front usage
  repeat rw [List.append_assoc]

theorem getTimestamp_characters {time : ℕ × ℕ} {character : Char}
    (member : character ∈ getTimestamp time) : character.isDigit = true ∨ character = '.' := by
  rw [getTimestamp_eq, List.mem_append, List.mem_cons] at member
  rcases member with digit | point | digit
  · exact .inl (decimal_isDigit digit)
  · exact .inr point
  · exact .inl (zeroPadded_digits digit)

theorem writeProgressRe_front (time : ℕ × ℕ) (completedKeys : ℕ) {rest : List Char}
    (ends : Stops unicode.isDigit rest) :
    matchPieces (writeProgressRe unicode) (front time completedKeys ++ rest)
      = some ⟨[getTimestamp time, decimal completedKeys], rest⟩ := by
  have blank : ∀ character ∈ [' '], unicode.isSpace character = true := by
    intro character member
    rw [List.mem_singleton.mp member]
    exact unicode.isSpace_blank
  have stamp : ∀ character ∈ getTimestamp time, digitOrPoint unicode character = true := by
    intro character member
    cases getTimestamp_characters member with
    | inl digit => simp [digitOrPoint, unicode.isDigit_of_digit digit]
    | inr point => simp [digitOrPoint, point]
  have keys : ∀ character ∈ decimal completedKeys, unicode.isDigit character = true :=
    fun character member => unicode.isDigit_of_digit (decimal_isDigit member)
  have visible : ∀ {head : Char} {rest : List Char}, head.toNat < 128 → isAsciiSpace head = false →
      Stops unicode.isSpace (head :: rest) := by
    intro head rest ascii shows
    exact stops_cons ((unicode.isSpace_ascii head ascii).trans shows)
  have someStamp : 1 ≤ (getTimestamp time).length := by
    rw [getTimestamp_eq, List.length_append, List.length_cons]
    omega
  have someKeys : 1 ≤ (decimal completedKeys).length := List.length_pos_of_ne_nil (decimal_ne_nil _)
  -- from the last piece to the first, each run stops at the piece after it
  have number := @matchPieces_group 1 _ [] _ _ _ someKeys keys ends rfl
  have label := (matchPieces_literals "completed_keys=".toList _ _).trans number
  have space := matchPieces_run 1 (by decide) blank (visible (by decide) rfl) label
  have stamped := matchPieces_group 1 someStamp stamp (stops_cons (digitOrPoint_blank unicode)) space
  have named := (matchPieces_literals "timestamp=".toList _ _).trans stamped
  have spaced := matchPieces_run 1 (by decide) blank (visible (by decide) rfl) named
  have marked := (matchPieces_literals progressMarker _ _).trans spaced
  unfold front
  repeat rw [List.append_assoc]
  exact marked

theorem noReturn_front (time : ℕ × ℕ) (completedKeys : ℕ) : '\r' ∉ front time completedKeys := by
  have stamp : '\r' ∉ getTimestamp time := by
    intro member
    cases getTimestamp_characters member with
    | inl digit => cases digit
    | inr point => cases point
  refine List.not_mem_append ?_ (List.not_mem_append ?_ (List.not_mem_append ?_
    (List.not_mem_append stamp (List.not_mem_append ?_ (List.not_mem_append ?_
      (not_mem_decimal rfl completedKeys)))))) <;> decide

theorem silent_usage (disk : Option DiskInfo) :
    ¬ progressMarker <:+: usage disk ∧ Ended (usage disk) := by
  have fixed := lacks_fixedPoint (by simp : ∀ character ∈ ['w'], character.isAlpha = true)
  have answer : Lacks ['w'] (getDiskUsage disk) := by
    cases disk with
    | none => exact (by decide : Lacks ['w'] "N/A".toList)
    | some info => exact .append (.append (.append (fixed _ _) (by decide)) (fixed _ _)) (by decide)
  have line : Lacks ['w'] (usage disk) := .append (by decide) (.append answer (by decide))
  constructor
  · exact line.not_infix List.mem_cons_self (by decide)
  · unfold usage
    rw [← List.append_assoc]
    exact ended_append _ '\n' rfl (by simp)

end Lines

/-! ## Whole logs -/

/-- What the converter makes of an event: a progress line is a point. -/
def reportedPoint : Event → Option (ℚ × ℕ)
  | .print (.writeProgress time completedKeys _) => some (seconds time, completedKeys)
  | _ => none

section Logs

variable (unicode : Unicode)

/-- One line is found, and what follows it is searched on. -/
theorem findAll_progress (tid : ℕ) (time : ℕ × ℕ) (completedKeys : ℕ) (disk : Option DiskInfo)
    (text : List Char) :
    findAll (writeProgressRe unicode) 0
        (universalNewlines ((Message.writeProgress time completedKeys disk).text tid ++ text))
      = ⟨[getTimestamp time, decimal completedKeys], universalNewlines (usage disk ++ text)⟩
        :: findAll (writeProgressRe unicode) 0 (universalNewlines text) := by
  have opens : Stops unicode.isDigit (universalNewlines (usage disk ++ text)) := by
    have blank := @universalNewlines_clean [' '] (by decide)
      ("disk_usage=".toList ++ (getDiskUsage disk ++ "\n".toList) ++ text)
    have same : usage disk ++ text
        = [' '] ++ ("disk_usage=".toList ++ (getDiskUsage disk ++ "\n".toList) ++ text) := rfl
    rw [same, blank]
    exact stops_cons unicode.isDigit_blank
  have found := writeProgressRe_front unicode time completedKeys opens
  obtain ⟨silent, ended⟩ := silent_usage disk
  have skip : findAll (writeProgressRe unicode) 0 (universalNewlines (usage disk ++ text))
      = findAll (writeProgressRe unicode) 0 (universalNewlines text) :=
    findAll_line (by decide) (by decide) silent ended
  -- pattern and line both open with the bracket of the marker
  obtain ⟨pieces, pattern⟩ : ∃ pieces, writeProgressRe unicode = .literal '[' :: pieces := ⟨_, rfl⟩
  obtain ⟨rest, line⟩ : ∃ rest, front time completedKeys ++ universalNewlines (usage disk ++ text)
      = '[' :: rest := ⟨_, rfl⟩
  rw [writeProgress_text, List.append_assoc, universalNewlines_clean (noReturn_front _ _)]
  rw [line] at found ⊢
  rw [← skip]
  rw [pattern] at found ⊢
  exact findAll_literal found

variable {run : WriteRun}

theorem filePoints_progress (tid : ℕ) {time : ℕ × ℕ} (small : time.2 < 10 ^ 6) (completedKeys : ℕ)
    (disk : Option DiskInfo) {text : List Char} {points : List (ℚ × ℕ)}
    (rest : filePoints unicode text = pure points) :
    filePoints unicode ((Message.writeProgress time completedKeys disk).text tid ++ text)
      = pure ((seconds time, completedKeys) :: points) := by
  unfold filePoints at rest ⊢
  rw [findAll_progress, List.mapM_cons, rest]
  have point : progressPoint unicode
      ⟨[getTimestamp time, decimal completedKeys], universalNewlines (usage disk ++ text)⟩
        = pure (seconds time, completedKeys) := by
    have stamp : [getTimestamp time, decimal completedKeys].getD 0 [] = getTimestamp time := rfl
    have keys : [getTimestamp time, decimal completedKeys].getD 1 [] = decimal completedKeys := rfl
    unfold progressPoint
    dsimp only
    rw [stamp, keys, float_getTimestamp unicode small, unicode.int_decimal]
  rw [point]
  rfl

/-- In the log of any texts in any order, exactly the progress lines are found, in
    their order. -/
theorem filePoints_log (unicode : Unicode) (run : WriteRun)
    (printed : List (Option run.Worker × Event))
    (plain : ∀ party message, (party, Event.print message) ∈ printed → Plain progressMarker message) :
    filePoints unicode (run.log printed)
      = pure (printed.filterMap fun entry => reportedPoint entry.2) := by
  induction printed with
  | nil => rfl
  | cons entry printed inductionHypothesis =>
    have rest := inductionHypothesis fun party message member =>
      plain party message (List.mem_cons_of_mem _ member)
    obtain ⟨party, event⟩ := entry
    obtain ⟨tid, text⟩ : ∃ tid, run.entryText (party, event) = event.text tid := by
      cases party <;> exact ⟨_, rfl⟩
    have log : run.log ((party, event) :: printed) = event.text tid ++ run.log printed := by
      rw [WriteRun.log, List.flatMap_cons, text]
      rfl
    rw [log]
    cases event with
    | write batch status => exact rest
    | print message =>
      have here := plain party message List.mem_cons_self
      cases reported : message.completedKeys with
      | none =>
        obtain ⟨silent, ended⟩ := silent_line tid here reported
        have quiet : reportedPoint ((party, Event.print message) : Option run.Worker × Event).2 = none := by
          cases message with
          | writeProgress => cases reported
          | _ => rfl
        rw [List.filterMap_cons, quiet, ← rest]
        unfold filePoints
        exact congrArg (List.mapM (progressPoint unicode))
          (findAll_line (by decide) (by decide) silent ended)
      | some keys =>
        cases message with
        | writeProgress time completedKeys disk =>
          exact filePoints_progress unicode tid here completedKeys disk rest
        | _ => cases reported

end Logs

/-! ## Several logs -/

/-- What one log was written by, and its texts in their order. -/
structure PrintedLog where
  run : WriteRun
  printed : List (Option run.Worker × Event)
  plain : ∀ party message, (party, Event.print message) ∈ printed → Plain progressMarker message

namespace PrintedLog

def content (log : PrintedLog) : List Char := log.run.log log.printed

def points (log : PrintedLog) : List (ℚ × ℕ) := log.printed.filterMap fun entry => reportedPoint entry.2

end PrintedLog

theorem mapM_filePoints (unicode : Unicode) (logs : List PrintedLog) :
    (logs.map PrintedLog.content).mapM (filePoints unicode) = pure (logs.map PrintedLog.points) := by
  induction logs with
  | nil => rfl
  | cons log logs inductionHypothesis =>
    have here := filePoints_log unicode log.run log.printed log.plain
    rw [List.map_cons, List.mapM_cons, PrintedLog.content, here, inductionHypothesis]
    rfl

/-- Whatever stands between the progress lines of some logs, in whatever order the
    workers have printed them: the converter refuses logs without any, and sorts
    the lines of all others by time and then by keys. -/
theorem progressPoints_logs (unicode : Unicode) (logs : List PrintedLog) :
    (progressPoints unicode (logs.map PrintedLog.content)).run
        = some (if logs.flatMap PrintedLog.points = [] then
            .error (.valueError "No machine-readable progress samples found".toList)
          else .ok (sortPoints (logs.flatMap PrintedLog.points))) ∧
    (sortPoints (logs.flatMap PrintedLog.points)).Perm (logs.flatMap PrintedLog.points) ∧
    (sortPoints (logs.flatMap PrintedLog.points)).Pairwise fun point later =>
      point.1 < later.1 ∨ point.1 = later.1 ∧ point.2 ≤ later.2 := by
  refine ⟨?_, List.perm_insertionSort _ _, ?_⟩
  · have flat : (logs.map PrintedLog.points).flatten = logs.flatMap PrintedLog.points :=
      List.flatMap_def.symm
    unfold progressPoints
    rw [mapM_filePoints, pure_bind, flat]
    by_cases none : logs.flatMap PrintedLog.points = []
    · rw [if_pos none, if_pos none]
      rfl
    · rw [if_neg none, if_neg none]
      rfl
  · exact (List.pairwise_insertionSort _ _).imp fun ordered => Prod.Lex.toLex_le_toLex.1 ordered

/-- The later of two workers has printed first, and an error is between them. -/
def crossed : PrintedLog where
  run := calmRun 2 20000 (by decide) (by decide)
  printed := [(some ⟨1, by decide⟩, .print (.writeProgress (7, 250000) 10000 none)),
    (some ⟨0, by decide⟩, .print (.writeFailed 10000 "IO error: No space left on device".toList 10000)),
    (some ⟨0, by decide⟩, .print (.writeProgress (5, 0) 10000 none))]
  plain := by
    intro party message member
    simp only [List.mem_cons, List.not_mem_nil, or_false, Prod.mk.injEq, Event.print.injEq] at member
    rcases member with ⟨_, rfl⟩ | ⟨_, rfl⟩ | ⟨_, rfl⟩
    · exact (by decide : 250000 < 10 ^ 6)
    · exact (by decide : ¬ progressMarker <:+: "IO error: No space left on device".toList)
    · exact (by decide : 0 < 10 ^ 6)

theorem progressPoints_logs_crossed :
    (progressPoints .ascii [crossed.content]).run
      = some (.ok [(seconds (5, 0), 10000), (seconds (7, 250000), 10000)]) := by
  have sorted : sortPoints [(seconds (7, 250000), 10000), (seconds (5, 0), 10000)]
      = [(seconds (5, 0), 10000), (seconds (7, 250000), 10000)] := by decide +kernel
  have read := (progressPoints_logs .ascii [crossed]).1
  have points : [crossed].flatMap PrintedLog.points
      = [(seconds (7, 250000), 10000), (seconds (5, 0), 10000)] := rfl
  rw [points, if_neg (List.cons_ne_nil _ _), sorted] at read
  exact read

/-! ## Blocks -/

/-- A text that ends a line and has blocks with these counters in it. -/
def Blocked (text : List Char) (held : List Tickers) : Prop :=
  ∃ entries last, text = logText entries last ∧ (∀ entry ∈ entries, ¬ marker <:+: entry.1) ∧
    ¬ marker <:+: last ∧ Ended last ∧ entries.map Prod.snd = held

theorem ended_nil : Ended [] := fun _ none => nomatch none

namespace Blocked

variable {text more : List Char} {held later : List Tickers}

theorem of_silent (silent : ¬ marker <:+: text) (ended : Ended text) : Blocked text [] :=
  ⟨[], text, rfl, by simp, silent, ended, rfl⟩

theorem nil : Blocked [] [] := of_silent (by decide) ended_nil

theorem of_tickers (silent : ¬ marker <:+: text) (tickers : Tickers) :
    Blocked (text ++ printApplicationWriteAmplification tickers) [tickers] := by
  refine ⟨[(text, tickers)], [], ?_, ?_, by decide, ended_nil, rfl⟩
  · show _ = text ++ (printApplicationWriteAmplification tickers ++ [])
    rw [List.append_nil]
  · intro entry member
    rw [List.mem_singleton.mp member]
    exact silent

theorem append (blocked : Blocked text held) (blockedMore : Blocked more later) :
    Blocked (text ++ more) (held ++ later) := by
  obtain ⟨entries, last, rfl, gapsFree, lastFree, ended, rfl⟩ := blocked
  obtain ⟨others, ending, rfl, othersFree, endingFree, endingEnded, rfl⟩ := blockedMore
  have closed : ∀ character ∈ last.getLast?, character ∉ marker := by
    intro character isLast
    have lineEnd := ended character isLast
    fin_cases lineEnd <;> decide
  induction entries with
  | nil =>
    -- the last line of the one goes in front of what comes first in the other
    cases others with
    | nil =>
      refine ⟨[], last ++ ending, rfl, gapsFree, ?_, ?_, rfl⟩
      · intro inside
        exact (infix_append_of_last closed inside).elim lastFree endingFree
      · intro character isLast
        cases ending with
        | nil =>
          rw [List.append_nil] at isLast
          exact ended character isLast
        | cons head tail =>
          rw [List.getLast?_append_of_ne_nil _ (List.cons_ne_nil head tail)] at isLast
          exact endingEnded character isLast
    | cons first others =>
      refine ⟨(last ++ first.1, first.2) :: others, ending, ?_, ?_, endingFree, endingEnded, rfl⟩
      · show last ++ (first.1 ++ _) = (last ++ first.1) ++ _
        rw [List.append_assoc]
      · obtain ⟨firstFree, restFree⟩ := List.forall_mem_cons.mp othersFree
        refine List.forall_mem_cons.mpr ⟨fun inside => ?_, restFree⟩
        exact (infix_append_of_last closed inside).elim lastFree firstFree
  | cons entry entries inductionHypothesis =>
    obtain ⟨entryFree, restFree⟩ := List.forall_mem_cons.mp gapsFree
    obtain ⟨merged, final, same, mergedFree, rest⟩ := inductionHypothesis restFree
    refine ⟨entry :: merged, final, ?_, List.forall_mem_cons.mpr ⟨entryFree, mergedFree⟩,
      rest.1, rest.2.1, congrArg (entry.2 :: ·) rest.2.2⟩
    show (entry.1 ++ (printApplicationWriteAmplification entry.2 ++ logText entries last)) ++ _
      = entry.1 ++ (printApplicationWriteAmplification entry.2 ++ logText merged final)
    rw [← same, List.append_assoc, List.append_assoc]

end Blocked

/-- The counters of the blocks that a message adds to the log. -/
def Holds : Message → List Tickers → Prop
  | .rocksdbStats stats tickers, held => (∀ text ∈ stats, ¬ marker <:+: text) ∧ held = tickers.toList
  | .other text, held => Blocked text held
  | message, held => Plain marker message ∧ held = []

theorem silent_writeProgress (tid : ℕ) (time : ℕ × ℕ) (completedKeys : ℕ) (disk : Option DiskInfo) :
    ¬ marker <:+: (Message.writeProgress time completedKeys disk).text tid := by
  have digits : ∀ value, Lacks ['U'] (decimal value) := lacks_decimal (by simp)
  have fixed := lacks_fixedPoint (by simp : ∀ character ∈ ['U'], character.isAlpha = true)
  have answer : Lacks ['U'] (getDiskUsage disk) := by
    cases disk with
    | none => exact (by decide : Lacks ['U'] "N/A".toList)
    | some info => exact .append (.append (.append (fixed _ _) (by decide)) (fixed _ _)) (by decide)
  have stamp : Lacks ['U'] (getTimestamp time) :=
    .append (.append (digits _) (by decide)) (lacks_zeroPadded (by simp) _ _)
  have text : Lacks ['U'] ((Message.writeProgress time completedKeys disk).text tid) :=
    .append (.append (.append (.append (.append (.append (by decide) stamp) (by decide)) (digits _))
      (by decide)) answer) (by decide)
  exact text.not_infix List.mem_cons_self (by decide)

theorem blocked_message (tid : ℕ) {message : Message} {held : List Tickers}
    (holds : Holds message held) : Blocked (message.text tid) held := by
  have known : marker ∈ markers := by simp [markers]
  cases message with
  | rocksdbStats stats tickers =>
    obtain ⟨silent, rfl⟩ := holds
    have statistics := silent_statistics tid known silent
    cases tickers with
    | none => exact .of_silent statistics (rocksdbStats_ended tid stats none)
    | some tickers =>
      rw [statistics_text]
      exact .of_tickers statistics tickers
  | other text => exact holds
  | writeProgress time completedKeys disk =>
    obtain ⟨_, rfl⟩ := holds
    exact .of_silent (silent_writeProgress tid time completedKeys disk)
      (ended_append _ '\n' rfl (by simp))
  | _ =>
    obtain ⟨plain, rfl⟩ := holds
    obtain ⟨silent, ended⟩ := silent_message tid known plain rfl (by simp)
    exact .of_silent silent ended

/-- The counters that an event adds to the log. -/
def Adds : Event → List Tickers → Prop
  | .write _ _, held => held = []
  | .print message, held => Holds message held

/-- In the log of any texts in any order, exactly the printed blocks are found, in
    their order. -/
theorem textBlocks_log (unicode : Unicode) (run : WriteRun)
    {printed : List (Option run.Worker × Event)} {held : List (List Tickers)}
    (holds : List.Forall₂ (fun entry tickers => Adds entry.2 tickers) printed held) :
    textBlocks unicode (run.log printed) = held.flatten.map sample := by
  have blocked : Blocked (run.log printed) held.flatten := by
    induction holds with
    | nil => exact .nil
    | @cons entry tickers printed held here _ inductionHypothesis =>
      rw [WriteRun.log, List.flatMap_cons, List.flatten_cons]
      refine .append ?_ inductionHypothesis
      obtain ⟨party, event⟩ := entry
      obtain ⟨tid, text⟩ : ∃ tid, run.entryText (party, event) = event.text tid := by
        cases party <;> exact ⟨_, rfl⟩
      rw [text]
      cases event with
      | write batch status =>
        obtain rfl : tickers = [] := here
        exact .nil
      | print message => exact blocked_message tid here
  obtain ⟨entries, last, text, gapsFree, lastFree, _, same⟩ := blocked
  rw [text, textBlocks, blocksFrom_newlines unicode gapsFree lastFree, ← same, List.map_map]
  rfl

end FdpRocks.Experiment
