import FdpRocks.Experiment.RunPhaseSoundness
import FdpRocks.Scripts.ProgressPoints
import FdpRocks.Scripts.WaBlocksRoundTrip

/-! # Texts that the converters pass over

`results_to_wa_csv.py` looks for two markers in the log of a run.

* `silent_message` — no message has one by accident.
* `silent_statistics` — nor have RocksDB's own statistics, up to the counters
  that are printed behind them.
-/

namespace FdpRocks.Experiment

open FdpRocks.Benchmark FdpRocks.Library.Numerals FdpRocks.Library.Pattern
open FdpRocks.Library.PythonText FdpRocks.Scripts

/-! ## Silence -/

def markers : List (List Char) := [progressMarker, marker]

/-- Each marker has one of these letters. -/
theorem not_infix_of_letters {needle text : List Char} (member : needle ∈ markers)
    (lacks : Lacks ['g', 'U'] text) : ¬ needle <:+: text := by
  fin_cases member
  · exact lacks.not_infix (by simp : 'g' ∈ _) (by decide)
  · exact lacks.not_infix (by simp : 'U' ∈ _) (by decide)

/-- Each marker starts with one of these characters. -/
theorem infix_behind {needle left text : List Char} (member : needle ∈ markers)
    (lacks : Lacks ['[', 'U'] left) : needle <:+: left ++ text ↔ needle <:+: text := by
  fin_cases member
  · exact infix_skip (lacks '[' (by simp))
  · exact infix_skip (lacks 'U' (by simp))

/-- What may follow a quoted text: no end of a marker opens like this. -/
def seams : List (List Char) := ["\n".toList, " (b".toList, ", b".toList, "===".toList]

theorem seams_apart : ∀ needle ∈ markers, ∀ seam ∈ seams, ∀ ending ∈ needle.tails, ending ≠ [] →
    ¬ ending.take 3 <+: seam := by
  decide

/-- A quoted text has a marker in it, or the line has none. -/
theorem infix_quoted {needle left text right seam : List Char} (member : needle ∈ markers)
    (lacksLeft : Lacks ['[', 'U'] left) (lacksRight : Lacks ['g', 'U'] right)
    (opens : right.take 3 = seam) (known : seam ∈ seams) (inside : needle <:+: left ++ text ++ right) :
    needle <:+: text := by
  rw [List.append_assoc, infix_behind member lacksLeft] at inside
  rcases List.infix_append_iff_ne_nil.mp inside with here | later | ⟨_, ending, _, some, same, _, start⟩
  · exact here
  · exact absurd later (not_infix_of_letters member lacksRight)
  · have tail : ending ∈ needle.tails := by
      rw [List.mem_tails, same]
      exact List.suffix_append _ _
    exact absurd (opens ▸ start.take 3) (seams_apart needle member seam known ending tail some)

/-! ## Messages -/

/-- What a message quotes from elsewhere has no such marker in it, and a time has
    less than a million microseconds. -/
def Plain (needle : List Char) : Message → Prop
  | .writeProgress time _ _ => time.2 < 10 ^ 6
  | .writeError _ status | .writeFailed _ status _ | .finalWriteError _ status _ => ¬ needle <:+: status
  | .stuck _ status _ _ => status.ok = true ∨ ¬ needle <:+: status.text
  | .rocksdbStats stats _ => ∀ text ∈ stats, ¬ needle <:+: text
  | .other text => ¬ needle <:+: text ∧ Ended text
  | _ => True

section Texts

variable (tid : ℕ) {needle : List Char} (member : needle ∈ markers)

theorem lacksLetters_decimal (value : ℕ) : Lacks ['g', 'U'] (decimal value) :=
  lacks_decimal (by simp) value

theorem lacksLetters_thread : Lacks ['g', 'U'] (thread tid) := lacks_thread (by simp) (by decide) tid

/-- All that stands before a quoted status. -/
theorem lacksFirst_statusLine {label : List Char} (ofLabel : Lacks ['[', 'U'] label) (count : ℕ) :
    Lacks ['[', 'U'] (thread tid ++ label ++ decimal count ++ ": ".toList) := by
  have number : ∀ value, Lacks ['[', 'U'] (decimal value) := by
    intro value character member
    fin_cases member <;> exact not_mem_decimal rfl value
  exact .append (.append (.append (.append (by decide) (number tid)) ofLabel) (number count)) (by decide)

theorem lacksLetters_bar (bar : Bar) : Lacks ['g', 'U'] bar.text := by
  have letters : ∀ character ∈ ['g', 'U'], character.isAlpha = true := by simp
  have fixed := lacks_fixedPoint letters
  have padded := lacks_zeroPadded letters
  unfold Bar.text
  refine .append (.append (.append (.append (.append (.append (.append (.append (.append (.append
    (.append (.append (.append (.append (.append (.append ?_ (lacks_cells letters bar)) ?_) (fixed _ _))
      ?_) (lacksLetters_decimal _)) ?_) (lacksLetters_decimal _)) ?_) (fixed _ _)) ?_) (padded _ _)) ?_)
        (padded _ _)) ?_) (padded _ _)) ?_ <;> decide

theorem rocksdbStats_ended (stats : Option (List Char)) (tickers : Option Tickers) :
    Ended ((Message.rocksdbStats stats tickers).text tid) := by
  cases stats with
  | none => exact @sound_ended .calm (.rocksdbStats none tickers) (fun _ none => nomatch none) tid
  | some text =>
    let answering : Outside := { Outside.calm with rocksdbStats := fun _ => some text }
    refine @sound_ended answering (.rocksdbStats (some text) tickers) ?_ tid
    intro other same
    exact ⟨0, same⟩

/-- The counters stand behind the statistics. -/
theorem statistics_text (stats : Option (List Char)) (tickers : Tickers) :
    (Message.rocksdbStats stats (some tickers)).text tid
      = (Message.rocksdbStats stats none).text tid ++ printApplicationWriteAmplification tickers := by
  unfold Message.text
  dsimp only
  rw [List.append_nil]

include member

theorem silent_writeError (count : ℕ) {status : List Char} (silent : ¬ needle <:+: status) :
    ¬ needle <:+: (Message.writeError count status).text tid := by
  intro inside
  exact silent (@infix_quoted _ _ _ _ "\n".toList member
    (lacksFirst_statusLine tid (by decide) count) (by decide) rfl (by decide) inside)

/-- Two lines that end in the size of the batch. -/
theorem silent_batchLine {label status : List Char} (ofLabel : Lacks ['[', 'U'] label)
    (count batchCount : ℕ) (silent : ¬ needle <:+: status) :
    ¬ needle <:+: thread tid ++ label ++ decimal count ++ ": ".toList ++ status
      ++ " (batch_count=".toList ++ decimal batchCount ++ ")\n".toList := by
  have closing : Lacks ['g', 'U'] (" (batch_count=".toList ++ (decimal batchCount ++ ")\n".toList)) :=
    .append (by decide) (.append (lacksLetters_decimal _) (by decide))
  intro inside
  rw [List.append_assoc _ (decimal batchCount), List.append_assoc _ " (batch_count=".toList] at inside
  exact silent (@infix_quoted _ _ _ _ " (b".toList member (lacksFirst_statusLine tid ofLabel count)
    closing rfl (by decide) inside)

theorem silent_stuck {status : Status} (silent : status.ok = true ∨ ¬ needle <:+: status.text)
    (successCount batchCount wbCount : ℕ) :
    ¬ needle <:+: (Message.stuck successCount status batchCount wbCount).text tid := by
  have answer : ¬ needle <:+: (if status.ok then "OK".toList else status.text) := by
    split
    · exact not_infix_of_letters member (by decide)
    next failed => exact silent.resolve_left failed
  have number : ∀ value, Lacks ['[', 'U'] (decimal value) := by
    intro value character known
    fin_cases known <;> exact not_mem_decimal rfl value
  have left : Lacks ['[', 'U'] (thread tid ++ ": WARNING - success_count stuck at ".toList
      ++ decimal successCount ++ " for 5+ seconds! Last Write status=".toList) :=
    .append (.append (.append (.append (by decide) (number tid)) (by decide)) (number _)) (by decide)
  have right : Lacks ['g', 'U'] (", batch_count=".toList ++ (decimal batchCount
      ++ (", current wb.Count()=".toList ++ (decimal wbCount ++ "\n".toList)))) :=
    .append (by decide) (.append (lacksLetters_decimal _) (.append (by decide)
      (.append (lacksLetters_decimal _) (by decide))))
  have shape : (Message.stuck successCount status batchCount wbCount).text tid
      = (thread tid ++ ": WARNING - success_count stuck at ".toList
          ++ decimal successCount ++ " for 5+ seconds! Last Write status=".toList)
        ++ (if status.ok then "OK".toList else status.text)
        ++ (", batch_count=".toList ++ (decimal batchCount
          ++ (", current wb.Count()=".toList ++ (decimal wbCount ++ "\n".toList)))) := by
    unfold Message.text
    dsimp only
    repeat rw [List.append_assoc]
  rw [shape]
  exact fun inside => answer (@infix_quoted _ _ _ _ ", b".toList member left right rfl (by decide) inside)

/-- The rules around RocksDB's own statistics close them off. -/
theorem silent_statistics {stats : Option (List Char)} (silent : ∀ text ∈ stats, ¬ needle <:+: text) :
    ¬ needle <:+: (Message.rocksdbStats stats none).text tid := by
  cases stats with
  | none => exact not_infix_of_letters member fun _ _ => List.not_mem_nil
  | some text =>
    have shape : (Message.rocksdbStats (some text) none).text tid
        = "\n========== RocksDB Statistics ==========\n".toList ++ text
          ++ "=========================================\n\n".toList := by
      unfold Message.text
      dsimp only
      rw [List.append_nil, List.append_assoc]
    rw [shape]
    intro inside
    exact silent text rfl (@infix_quoted _ _ _ _ "===".toList member (by decide) (by decide) rfl
      (by decide) inside)

/-- No message has a marker by accident, and each ends a line. -/
theorem silent_message {message : Message} (plain : Plain needle message)
    (noProgress : message.completedKeys = none)
    (noStatistics : ∀ stats tickers, message ≠ .rocksdbStats stats tickers) :
    ¬ needle <:+: message.text tid ∧ Ended (message.text tid) := by
  cases message with
  | writeProgress => cases noProgress
  | rocksdbStats stats tickers => exact absurd rfl (noStatistics stats tickers)
  | writeError count status =>
    exact ⟨silent_writeError tid member count plain, ended_append _ '\n' rfl (by simp)⟩
  | writeFailed count status batchCount =>
    refine ⟨?_, ended_append _ '\n' rfl (by simp)⟩
    exact silent_batchLine tid member (by decide) count batchCount plain
  | finalWriteError count status batchCount =>
    refine ⟨?_, ended_append _ '\n' rfl (by simp)⟩
    exact silent_batchLine tid member (by decide) count batchCount plain
  | stuck => exact ⟨silent_stuck tid member plain _ _ _, ended_append _ '\n' rfl (by simp)⟩
  | writesCompleted =>
    refine ⟨not_infix_of_letters member ?_, ended_append _ '\n' rfl (by simp)⟩
    exact .append (.append (.append (.append (.append (lacksLetters_thread tid) (by decide))
      (lacksLetters_decimal _)) (by decide)) (lacksLetters_decimal _)) (by decide)
  | finalFlush _ _ ok =>
    have answer : Lacks ['g', 'U'] (if ok then "OK".toList else "ERROR".toList) := by
      cases ok <;> decide
    refine ⟨not_infix_of_letters member ?_, ended_append _ '\n' rfl (by simp)⟩
    exact .append (.append (.append (.append (.append (.append (.append (lacksLetters_thread tid)
      (by decide)) (lacksLetters_decimal _)) (by decide)) (lacksLetters_decimal _)) (by decide)) answer)
        (by decide)
  | total =>
    refine ⟨not_infix_of_letters member ?_, ended_append _ '\n' rfl (by simp)⟩
    exact .append (.append (.append (lacksLetters_thread tid) (by decide)) (lacksLetters_decimal _))
      (by decide)
  | opsCompleted =>
    refine ⟨not_infix_of_letters member ?_, ended_append _ '\r' rfl (by simp)⟩
    exact .append (.append (.append (lacksLetters_thread tid) (by decide)) (lacksLetters_decimal _))
      (by decide)
  | progressBar bar =>
    refine ⟨not_infix_of_letters member ?_, ended_append _ '\r' (bar_getLast bar) (by simp)⟩
    exact .append (lacksLetters_thread tid) (lacksLetters_bar bar)
  | newline =>
    have alone : Lacks ['g', 'U'] "\n".toList := by decide
    exact ⟨not_infix_of_letters member alone, ended_append [] '\n' rfl (by simp)⟩
  | other => exact plain

end Texts

end FdpRocks.Experiment
