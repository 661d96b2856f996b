import FdpRocks.Scripts.WaBlocks

/-! # Write-amplification blocks come back as they were printed

* `readSample_block` — the window from a block's marker holds its three numbers
  and they are the first the patterns find.
* `blocksFrom_block`, `blocksFrom_gap` — nothing else in a log is taken for a block.
* `waBlocks_log` — the whole log.
-/

namespace FdpRocks.Scripts

open FdpRocks.Library.Numerals FdpRocks.Library.Pattern FdpRocks.Library.PythonText
open FdpRocks.Benchmark

/-! ## The shape of a printed block -/

def title : List Char := "========== Application Write Amplification ==========\n".toList

def indent : List Char := "  ".toList

/-- Between a counter and its megabytes. -/
def paren : List Char := " (".toList

def unitEnd : List Char := " MB)\n".toList

def flushLabel : List Char := "Flush bytes written:".toList

def flushTail : List Char := "lush bytes written:".toList

def compactTail : List Char := "ompaction bytes written:".toList

def compactLabel : List Char := "Compaction bytes written:".toList

def amplificationLabel : List Char := "  Application write amplification: ".toList

def formula : List Char := " ( (flush + compact) / user )\n".toList

def rule : List Char := "=====================================================\n\n".toList

/-- From behind a counter to the next label. -/
def lineEnd (mb : List Char) : List Char := paren ++ (mb ++ (unitEnd ++ indent))

/-- From behind the marker on; `rest` follows the parenthesis of the last counter. -/
def counters (user userMb flush flushMb compact rest : List Char) : List Char :=
  List.replicate 2 ' ' ++ (user ++ (lineEnd userMb
    ++ (flushLabel ++ (List.replicate 10 ' ' ++ (flush ++ (lineEnd flushMb
    ++ (compactLabel ++ (List.replicate 5 ' ' ++ (compact ++ (paren ++ rest))))))))))

def closing (compactMb amplification : List Char) : List Char :=
  compactMb ++ (unitEnd ++ (amplificationLabel ++ (amplification ++ (formula ++ rule))))

def blockCounters (tickers : Tickers) (rest : List Char) : List Char :=
  counters (decimal tickers.userBytes.toNat) (fixedPoint 2 (megabytes tickers.userBytes))
    (decimal tickers.flushBytes.toNat) (fixedPoint 2 (megabytes tickers.flushBytes))
    (decimal tickers.compactBytes.toNat) rest

def blockClosing (tickers : Tickers) : List Char :=
  closing (fixedPoint 2 (megabytes tickers.compactBytes)) (fixedPoint 2 (writeAmp tickers))

theorem print_eq (tickers : Tickers) :
    printApplicationWriteAmplification tickers
      = title ++ (indent ++ (marker ++ blockCounters tickers (blockClosing tickers))) := by
  have userLine : "  User bytes written (ingest):  ".toList
      = indent ++ (marker ++ List.replicate 2 ' ') := by decide
  have flushLine : "  Flush bytes written:          ".toList
      = indent ++ (flushLabel ++ List.replicate 10 ' ') := by decide
  have compactLine : "  Compaction bytes written:     ".toList
      = indent ++ (compactLabel ++ List.replicate 5 ' ') := by decide
  unfold printApplicationWriteAmplification
  generalize "  User bytes written (ingest):  ".toList = userText at userLine
  generalize "  Flush bytes written:          ".toList = flushText at flushLine
  generalize "  Compaction bytes written:     ".toList = compactText at compactLine
  subst userLine flushLine compactLine
  unfold blockCounters blockClosing counters closing lineEnd
  repeat rw [List.append_assoc]
  rfl

theorem blockCounters_append (tickers : Tickers) (rest : List Char) :
    blockCounters tickers rest = blockCounters tickers [] ++ rest := by
  unfold blockCounters counters
  rw [List.append_nil]
  repeat rw [List.append_assoc]

/-! ## Characters of a block -/

section Characters

variable {character : Char} (noDigit : character.isDigit = false) (noPoint : character ≠ '.')
  (tickers : Tickers)

include noDigit noPoint

/-- A character of a block that is in no number is in one of the fixed texts. -/
theorem not_mem_lineEnd (noBlank : character ≠ ' ') (inParen : character ∉ paren)
    (inUnit : character ∉ unitEnd) (bytes : UInt64) :
    character ∉ lineEnd (fixedPoint 2 (megabytes bytes)) := by
  unfold lineEnd
  repeat rw [List.mem_append, not_or]
  refine ⟨inParen, not_mem_fixedPoint noDigit noPoint (megabytes_nonneg bytes) 2, inUnit, ?_⟩
  exact fun member => noBlank (List.eq_of_mem_replicate (show character ∈ List.replicate 2 ' ' from member))

theorem not_mem_blockCounters (noBlank : character ≠ ' ') (inParen : character ∉ paren)
    (inUnit : character ∉ unitEnd) (inFlush : character ∉ flushLabel)
    (inCompact : character ∉ compactLabel) {rest : List Char} (inRest : character ∉ rest) :
    character ∉ blockCounters tickers rest := by
  have blanks : ∀ count, character ∉ List.replicate count ' ' :=
    fun count member => noBlank (List.eq_of_mem_replicate member)
  have counter := not_mem_decimal noDigit
  have ends := not_mem_lineEnd noDigit noPoint noBlank inParen inUnit
  unfold blockCounters counters
  repeat rw [List.mem_append, not_or]
  exact ⟨blanks 2, counter _, ends _, inFlush, blanks 10, counter _, ends _, inCompact, blanks 5,
    counter _, inParen, inRest⟩

theorem not_mem_blockClosing (inUnit : character ∉ unitEnd) (inLabel : character ∉ amplificationLabel)
    (inFormula : character ∉ formula) (inRule : character ∉ rule) :
    character ∉ blockClosing tickers := by
  unfold blockClosing closing
  repeat rw [List.mem_append, not_or]
  exact ⟨not_mem_fixedPoint noDigit noPoint (megabytes_nonneg _) 2, inUnit, inLabel,
    not_mem_fixedPoint noDigit noPoint (writeAmp_nonneg _) 2, inFormula, inRule⟩

end Characters

/-- The marker behind its first character. -/
def markerTail : List Char := "ser bytes written (ingest):".toList

/-- Only the marker has a capital `U`. -/
theorem noMarker_opening : 'U' ∉ title ++ indent := by decide

theorem noMarker_block (tickers : Tickers) :
    'U' ∉ markerTail ++ blockCounters tickers (blockClosing tickers) := by
  have inClosing : 'U' ∉ blockClosing tickers := by
    apply not_mem_blockClosing <;> decide
  rw [List.mem_append, not_or]
  refine ⟨by decide, ?_⟩
  apply not_mem_blockCounters _ _ _ _ _ _ _ _ inClosing <;> decide

/-- The text translation of `read_text` leaves a block alone. -/
theorem noReturn_print (tickers : Tickers) :
    '\r' ∉ printApplicationWriteAmplification tickers := by
  have inClosing : '\r' ∉ blockClosing tickers := by
    apply not_mem_blockClosing <;> decide
  rw [print_eq]
  repeat rw [List.mem_append, not_or]
  refine ⟨by decide, by decide, by decide, ?_⟩
  apply not_mem_blockCounters _ _ _ _ _ _ _ _ inClosing <;> decide

/-! ## Reading one block -/

variable (unicode : Unicode)

/-- A whole line of another label is passed over. -/
theorem labelled_skip (first : Char) {label : List Char} (noDigit : first.isDigit = false)
    (noPoint : first ≠ '.') (noBlank : first ≠ ' ') (inParen : first ∉ paren)
    (inUnit : first ∉ unitEnd) (inLabel : first ∉ label) (tail : List Char) (blanks value : ℕ)
    (bytes : UInt64) (text : List Char) :
    search (labelled unicode (first :: tail)) (label ++ (List.replicate blanks ' '
        ++ (decimal value ++ (lineEnd (fixedPoint 2 (megabytes bytes)) ++ text))))
      = search (labelled unicode (first :: tail)) text := by
  have inBlanks : first ∉ List.replicate blanks ' ' :=
    fun member => noBlank (List.eq_of_mem_replicate member)
  have inValue := not_mem_decimal noDigit value
  have inEnd := not_mem_lineEnd noDigit noPoint noBlank inParen inUnit bytes
  calc search (labelled unicode (first :: tail)) _
      = search (labelled unicode (first :: tail)) _ := search_skip inLabel _
    _ = search (labelled unicode (first :: tail)) _ := search_skip inBlanks _
    _ = search (labelled unicode (first :: tail)) _ := search_skip inValue _
    _ = search (labelled unicode (first :: tail)) text := search_skip inEnd _

/-- A label, blanks and a printed number are matched whole. -/
theorem labelled_here (label : List Char) (blanks value : ℕ) {rest : List Char}
    (ends : Stops unicode.isDigit rest) :
    search (labelled unicode label) (label
        ++ (List.replicate (blanks + 1) ' ' ++ (decimal value ++ rest)))
      = some ⟨[decimal value], rest⟩ := by
  have spaces : ∀ character ∈ List.replicate (blanks + 1) ' ', unicode.isSpace character = true := by
    intro character member
    rw [List.eq_of_mem_replicate member]
    exact unicode.isSpace_blank
  have digits : ∀ character ∈ decimal value, unicode.isDigit character = true :=
    fun character member => unicode.isDigit_of_digit (decimal_isDigit member)
  have some : 1 ≤ (decimal value).length := List.length_pos_of_ne_nil (decimal_ne_nil value)
  have starts : Stops unicode.isSpace (decimal value ++ rest) := by
    cases text : decimal value with
    | nil => exact absurd text (decimal_ne_nil value)
    | cons head tail =>
      apply stops_cons
      apply unicode.isSpace_of_digit
      apply @decimal_isDigit value
      rw [text]
      exact List.mem_cons_self
  have number := @matchPieces_group 1 _ [] _ _ _ some digits ends rfl
  have space := matchPieces_run 1 (by rw [List.length_replicate]; omega) spaces starts
    number
  exact search_here ((matchPieces_literals label _ _).trans space)

def sample (tickers : Tickers) : Sample :=
  ⟨tickers.userBytes.toNat, tickers.flushBytes.toNat, tickers.compactBytes.toNat⟩

theorem counters_length {user userMb flush flushMb compact : List Char} (userShort : user.length ≤ 20)
    (userMbShort : userMb.length ≤ 17) (flushShort : flush.length ≤ 20)
    (flushMbShort : flushMb.length ≤ 17) (compactShort : compact.length ≤ 20) :
    (marker ++ counters user userMb flush flushMb compact []).length ≤ 700 := by
  have fixed : marker.length = 28 ∧ paren.length = 2 ∧ unitEnd.length = 5 ∧ indent.length = 2 ∧
      flushLabel.length = 20 ∧ compactLabel.length = 25 := by decide
  unfold counters lineEnd
  simp only [List.length_append, List.length_replicate, List.length_nil, fixed]
  linarith

/-- The window from a block's marker on gives the block's counters. -/
theorem readSample_block (tickers : Tickers) (rest : List Char) :
    readSample unicode ((marker ++ blockCounters tickers rest).take 700)
      = some (sample tickers) := by
  have short : (marker ++ blockCounters tickers []).length ≤ 700 :=
    counters_length (counter_length _) (megabytes_length _) (counter_length _) (megabytes_length _)
      (counter_length _)
  rw [blockCounters_append, ← List.append_assoc, List.take_append, List.take_of_length_le short,
    List.append_assoc, ← blockCounters_append]
  generalize rest.take (700 - (marker ++ blockCounters tickers []).length) = window
  have ends : ∀ text mb : List Char, Stops unicode.isDigit (lineEnd mb ++ text) :=
    fun _ _ => stops_cons unicode.isDigit_blank
  have lastEnd : Stops unicode.isDigit (paren ++ window) := stops_cons unicode.isDigit_blank
  obtain ⟨_, user⟩ : ∃ after, search (userRe unicode) (marker ++ blockCounters tickers window)
      = some ⟨[decimal tickers.userBytes.toNat], after⟩ :=
    ⟨_, labelled_here unicode marker 1 _ (ends _ _)⟩
  -- No line before its own has the capital a label opens with.
  obtain ⟨_, flush⟩ : ∃ after, search (flushRe unicode) (marker ++ blockCounters tickers window)
      = some ⟨[decimal tickers.flushBytes.toNat], after⟩ := by
    have skips := labelled_skip unicode 'F' rfl (by decide) (by decide) (by decide)
      (by decide) (by decide : 'F' ∉ marker) flushTail 2
    exact ⟨_, (skips _ _ _).trans (labelled_here unicode flushLabel 9 _ (ends _ _))⟩
  obtain ⟨_, compact⟩ : ∃ after, search (compactRe unicode) (marker ++ blockCounters tickers window)
      = some ⟨[decimal tickers.compactBytes.toNat], after⟩ := by
    have skipsUser := labelled_skip unicode 'C' rfl (by decide) (by decide) (by decide)
      (by decide) (by decide : 'C' ∉ marker) compactTail 2
    have skipsFlush := labelled_skip unicode 'C' rfl (by decide) (by decide) (by decide)
      (by decide) (by decide : 'C' ∉ flushLabel) compactTail 10
    exact ⟨_, (skipsUser _ _ _).trans ((skipsFlush _ _ _).trans
      (labelled_here unicode compactLabel 4 _ lastEnd))⟩
  rw [readSample, user, flush, compact]
  simp [firstGroup, sample]

/-! ## The rest of a log -/

theorem blocksFrom_skip {skipped text : List Char}
    (nowhere : ∀ rest, rest <:+ skipped → rest ≠ [] → ¬ marker <+: rest ++ text) (position : ℕ) :
    blocksFrom unicode position (skipped ++ text)
      = blocksFrom unicode (position + skipped.length) text := by
  induction skipped generalizing position with
  | nil => rfl
  | cons head skipped inductionHypothesis =>
    have here : ¬ marker <+: head :: (skipped ++ text) :=
      nowhere (head :: skipped) List.suffix_rfl (List.cons_ne_nil _ _)
    rw [List.cons_append, blocksFrom,
      if_neg (fun opens => here (List.isPrefixOf_iff_prefix.mp opens)), List.nil_append,
      inductionHypothesis (fun rest suffix => nowhere rest (suffix.trans (List.suffix_cons _ _))),
      List.length_cons, Nat.add_right_comm, Nat.add_assoc]

/-- No occurrence starts in text without the marker's first letter. -/
theorem nowhere_of_absent {skipped : List Char} (absent : 'U' ∉ skipped) (text : List Char) :
    ∀ rest, rest <:+ skipped → rest ≠ [] → ¬ marker <+: rest ++ text := by
  intro rest suffix some opens
  cases rest with
  | nil => exact some rfl
  | cons head rest =>
    obtain ⟨rfl, _⟩ := List.cons_prefix_cons.mp (show 'U' :: markerTail <+: head :: (rest ++ text)
      from opens)
    exact absent (suffix.subset List.mem_cons_self)

/-- An occurrence of the marker adds the block of its window. -/
theorem blocksFrom_marker {text : List Char} {found : Sample} (position : ℕ)
    (window : readSample unicode ((marker ++ text).take 700) = some found) :
    blocksFrom unicode position (marker ++ text)
      = (position, found) :: blocksFrom unicode (position + 1) (markerTail ++ text) := by
  have opens : marker.isPrefixOf ('U' :: (markerTail ++ text)) = true :=
    List.isPrefixOf_iff_prefix.mpr (List.prefix_append marker text)
  show blocksFrom unicode position ('U' :: (markerTail ++ text)) = _
  rw [blocksFrom, if_pos opens]
  rw [show marker ++ text = 'U' :: (markerTail ++ text) from rfl] at window
  rw [window]
  rfl

theorem blocksFrom_block (tickers : Tickers) (text : List Char) (position : ℕ) :
    ∃ start later, blocksFrom unicode position (printApplicationWriteAmplification tickers ++ text)
      = (start, sample tickers) :: blocksFrom unicode later text := by
  have split : printApplicationWriteAmplification tickers ++ text
      = (title ++ indent) ++ (marker ++ (blockCounters tickers (blockClosing tickers) ++ text)) := by
    rw [print_eq]
    repeat rw [List.append_assoc]
  have window := readSample_block unicode tickers (blockClosing tickers ++ text)
  have regroup : blockCounters tickers (blockClosing tickers ++ text)
      = blockCounters tickers (blockClosing tickers) ++ text := by
    rw [blockCounters_append, ← List.append_assoc, ← blockCounters_append]
  rw [regroup] at window
  rw [split, blocksFrom_skip unicode (nowhere_of_absent noMarker_opening _),
    blocksFrom_marker unicode _ window, ← List.append_assoc,
    blocksFrom_skip unicode (nowhere_of_absent (noMarker_block tickers) _)]
  exact ⟨_, _, rfl⟩

/-- Nothing that starts before a block is a block, unless it was there already. -/
theorem blocksFrom_gap {gap : List Char} (free : ¬ marker <:+: gap) (tickers : Tickers)
    (text : List Char) (position : ℕ) :
    blocksFrom unicode position (gap ++ (printApplicationWriteAmplification tickers ++ text))
      = blocksFrom unicode (position + gap.length)
        (printApplicationWriteAmplification tickers ++ text) := by
  apply blocksFrom_skip
  intro rest suffix _
  -- A block opens with `=`, which the marker does not have.
  exact not_prefix_straddle (by decide : '=' ∉ marker)
    (fun inside => free (inside.trans suffix.isInfix))

theorem blocksFrom_last {last : List Char} (free : ¬ marker <:+: last) (position : ℕ) :
    blocksFrom unicode position last = [] := by
  have nowhere : ∀ rest, rest <:+ last → rest ≠ [] → ¬ marker <+: rest ++ [] := by
    intro rest suffix _
    rw [List.append_nil]
    exact fun opens => free (opens.isInfix.trans suffix.isInfix)
  have none := blocksFrom_skip unicode nowhere position
  rw [List.append_nil] at none
  exact none

/-! ## Whole logs -/

/-- A log: blocks with other text before, between and after them. -/
def logText (entries : List (List Char × Tickers)) (last : List Char) : List Char :=
  entries.foldr
    (fun entry rest => entry.1 ++ (printApplicationWriteAmplification entry.2 ++ rest)) last

theorem blocksFrom_log {entries : List (List Char × Tickers)} {last : List Char}
    (gapsFree : ∀ entry ∈ entries, ¬ marker <:+: entry.1) (lastFree : ¬ marker <:+: last)
    (position : ℕ) :
    (blocksFrom unicode position (logText entries last)).map Prod.snd
      = entries.map fun entry => sample entry.2 := by
  induction entries generalizing position with
  | nil =>
    show (blocksFrom unicode position last).map Prod.snd = []
    rw [blocksFrom_last unicode lastFree]
    rfl
  | cons entry entries inductionHypothesis =>
    have rest := inductionHypothesis (fun entry member => gapsFree entry (List.mem_cons_of_mem _ member))
    obtain ⟨start, later, block⟩ := blocksFrom_block unicode entry.2 (logText entries last)
      (position + entry.1.length)
    show (blocksFrom unicode position (entry.1 ++ (printApplicationWriteAmplification entry.2
      ++ logText entries last))).map Prod.snd = _
    rw [blocksFrom_gap unicode (gapsFree entry List.mem_cons_self), block, List.map_cons, rest,
      List.map_cons]

theorem universalNewlines_log (entries : List (List Char × Tickers)) (last : List Char) :
    universalNewlines (logText entries last)
      = logText (entries.map fun entry => (universalNewlines entry.1, entry.2))
        (universalNewlines last) := by
  induction entries with
  | nil => rfl
  | cons entry entries inductionHypothesis =>
    have opens : (printApplicationWriteAmplification entry.2 ++ logText entries last).head?
        ≠ some '\n' := by
      rw [print_eq]
      show some '=' ≠ some '\n'
      decide
    show universalNewlines (entry.1 ++ (printApplicationWriteAmplification entry.2
      ++ logText entries last)) = _
    rw [universalNewlines_append _ _ opens, universalNewlines_clean (noReturn_print entry.2),
      inductionHypothesis]
    rfl

/-- Reading in text mode loses no block: no marker appears in the text between blocks. -/
theorem blocksFrom_newlines {entries : List (List Char × Tickers)} {last : List Char}
    (gapsFree : ∀ entry ∈ entries, ¬ marker <:+: entry.1) (lastFree : ¬ marker <:+: last) :
    (blocksFrom unicode 0 (universalNewlines (logText entries last))).map Prod.snd
      = entries.map fun entry => sample entry.2 := by
  have oneLine : '\n' ∉ marker := by decide
  have translatedFree : ∀ entry ∈ entries.map fun entry => (universalNewlines entry.1, entry.2),
      ¬ marker <:+: entry.1 := by
    intro entry member inside
    obtain ⟨original, known, rfl⟩ := List.mem_map.mp member
    exact gapsFree original known (infix_of_universalNewlines oneLine inside)
  have translatedLast : ¬ marker <:+: universalNewlines last :=
    fun inside => lastFree (infix_of_universalNewlines oneLine inside)
  rw [universalNewlines_log, blocksFrom_log unicode translatedFree translatedLast, List.map_map]
  rfl

/-- What was printed comes back, whatever stands between the blocks, and the
    converter refuses exactly a log without blocks or with nothing written last. -/
theorem waBlocks_log (unicode : Unicode) (path : List Char) (entries : List (List Char × Tickers))
    (last : List Char) (gapsFree : ∀ entry ∈ entries, ¬ marker <:+: entry.1)
    (lastFree : ¬ marker <:+: last) :
    ((∃ tickers ∈ (entries.map Prod.snd).getLast?, 0 < tickers.userBytes) →
        waBlocks unicode path (logText entries last)
          = some (.ok (entries.map fun entry => sample entry.2))) ∧
      ((∃ message, waBlocks unicode path (logText entries last)
          = some (.error (.valueError message))) ↔
        entries = [] ∨ ∃ tickers ∈ (entries.map Prod.snd).getLast?, tickers.userBytes = 0) := by
  have translated := blocksFrom_newlines unicode gapsFree lastFree
  have returned : waBlocks unicode path (logText entries last)
      = some (if (entries.map fun entry => sample entry.2).getLast?.all (fun last => last.user ≤ 0) then
          .error (.valueError ("No valid write-amplification samples in ".toList ++ path))
        else
          .ok (entries.map fun entry => sample entry.2)) := by
    rw [waBlocks_eq]
    dsimp only
    rw [translated]
  rw [returned]
  rcases List.eq_nil_or_concat entries with rfl | ⟨earlier, entry, rfl⟩
  · simp
  · have positive : 0 < entry.2.userBytes ↔ 0 < (sample entry.2).user := by
      rw [UInt64.lt_iff_toNat_lt]
      rfl
    have zero : entry.2.userBytes = 0 ↔ (sample entry.2).user = 0 := by
      rw [← UInt64.toNat_inj]
      rfl
    simp only [List.concat_eq_append, List.map_append, List.map_cons, List.map_nil,
      List.getLast?_concat, Option.mem_def, Option.some.injEq, exists_eq_left', Option.all_some]
    rw [positive, zero]
    by_cases none : (sample entry.2).user = 0
    · simp [none]
    · have some : ¬ (sample entry.2).user ≤ 0 := by omega
      simp [none, some]

/-- Two blocks with a line before each and nothing after. -/
theorem waBlocks_log_two :
    waBlocks .ascii "run.log".toList (logText [("phase 1\n".toList, ⟨100, 40, 60⟩),
        ("phase 2\n".toList, ⟨200, 90, 130⟩)] [])
      = some (.ok [⟨100, 40, 60⟩, ⟨200, 90, 130⟩]) := by
  have read := waBlocks_log .ascii "run.log".toList [("phase 1\n".toList, ⟨100, 40, 60⟩),
    ("phase 2\n".toList, ⟨200, 90, 130⟩)] [] (by decide) (by decide)
  exact read.1 ⟨_, rfl, by decide⟩

end FdpRocks.Scripts
