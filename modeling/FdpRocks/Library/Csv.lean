import Mathlib

/-! # Comma-separated tables

A writer that quotes only where it must, and a reader that takes a text line by
line, a character at a time.

* `run_quoted`, `run_plain` — what the reader makes of one written field.
* `read_write` — whatever the fields are, a written table is read back.
-/

namespace FdpRocks.Library.Csv

/-- The characters that a table is made of, neither of them a line break, and the
    length that a field that is read may have. -/
structure Dialect where
  delimiter : Char
  quote : Char
  fieldLimit : ℕ
  distinct : delimiter ≠ quote
  delimiterInLine : delimiter ∉ ['\r', '\n']
  quoteInLine : quote ∉ ['\r', '\n']

def Dialect.excel : Dialect := ⟨',', '"', 131072, by decide, by decide, by decide⟩

abbrev Field : Type := List Char

variable (dialect : Dialect)

/-! ## Writing -/

/-- Such a field has to stand between quotes. -/
def mustQuote (field : Field) : Bool :=
  field.any fun character => character ∈ [dialect.delimiter, dialect.quote, '\r', '\n']

/-- Quotes are doubled. -/
def quoted (field : Field) : List Char :=
  field.flatMap fun character =>
    if character = dialect.quote then [dialect.quote, dialect.quote] else [character]

def writeField (field : Field) : List Char :=
  if mustQuote dialect field then dialect.quote :: (quoted dialect field ++ [dialect.quote]) else field

/-- A lone empty field is quoted, so that the line is not empty. -/
def writeRow : List Field → List Char
  | [[]] => [dialect.quote, dialect.quote, '\r', '\n']
  | fields => [dialect.delimiter].intercalate (fields.map (writeField dialect)) ++ ['\r', '\n']

def write (rows : List (List Field)) : List Char := rows.flatMap (writeRow dialect)

/-! ## Reading -/

/-- The characters of a text, with `none` at the end of every line. -/
def symbols : List Char → List (Option Char)
  | [] => []
  | '\r' :: '\n' :: text => some '\r' :: some '\n' :: none :: symbols text
  | '\r' :: text => some '\r' :: none :: symbols text
  | '\n' :: text => some '\n' :: none :: symbols text
  | [last] => [some last, none]
  | head :: text => some head :: symbols text

inductive State where
  | startRecord | startField | inField | inQuotedField | quoteInQuotedField | eatCrnl
deriving DecidableEq

structure Reader where
  state : State
  field : Field
  fields : List Field

def Reader.fresh : Reader := ⟨.startRecord, [], []⟩

namespace Reader

variable (reader : Reader)

/-- An error in a field that is full. -/
def add (character : Char) : Option Reader :=
  if reader.field.length < dialect.fieldLimit then some { reader with field := reader.field ++ [character] }
  else none

def enter (state : State) : Reader := { reader with state }

/-- The field is complete. -/
def save (state : State) : Reader := ⟨state, [], reader.fields ++ [reader.field]⟩

/-- The end of a field and of its line. -/
def endLine : Option Char → Reader
  | none => reader.save .startRecord
  | some _ => reader.save .eatCrnl

def isBreak : Option Char → Bool
  | none => true
  | some character => character = '\r' || character = '\n'

/-- At the start of a field. -/
def stepStart (symbol : Option Char) : Option Reader :=
  match symbol with
  | none => some (reader.endLine none)
  | some character =>
    if isBreak symbol then some (reader.endLine symbol)
    else if character = dialect.quote then some (reader.enter .inQuotedField)
    else if character = dialect.delimiter then some (reader.save .startField)
    else (reader.enter .inField).add dialect character

/-- One symbol; `none` is an error. -/
def step (symbol : Option Char) : Option Reader :=
  match reader.state, symbol with
  | .startRecord, none => some reader
  | .startRecord, some character =>
    if isBreak (some character) then some (reader.enter .eatCrnl)
    else reader.stepStart dialect (some character)
  | .startField, symbol => reader.stepStart dialect symbol
  | .inField, none => some (reader.endLine none)
  | .inField, some character =>
    if isBreak (some character) then some (reader.endLine (some character))
    else if character = dialect.delimiter then some (reader.save .startField)
    else reader.add dialect character
  | .inQuotedField, none => some reader
  | .inQuotedField, some character =>
    if character = dialect.quote then some (reader.enter .quoteInQuotedField)
    else reader.add dialect character
  | .quoteInQuotedField, none => some (reader.endLine none)
  | .quoteInQuotedField, some character =>
    if character = dialect.quote then (reader.enter .inQuotedField).add dialect character
    else if character = dialect.delimiter then some (reader.save .startField)
    else if isBreak (some character) then some (reader.endLine (some character))
    else (reader.enter .inField).add dialect character
  | .eatCrnl, none => some (reader.enter .startRecord)
  | .eatCrnl, some character => if isBreak (some character) then some reader else none

end Reader

/-- The records of what is left; at the end of the text, an open field is closed. -/
def run : Reader → List (Option Char) → Option (List (List Field))
  | reader, [] =>
    if reader.field ≠ [] ∨ reader.state = .inQuotedField then some [(reader.save .startRecord).fields]
    else some []
  | reader, some character :: rest => do run (← reader.step dialect (some character)) rest
  | reader, none :: rest => do
    let next ← reader.step dialect none
    if next.state = .startRecord then return next.fields :: (← run .fresh rest)
    else run next rest

def read (text : List Char) : Option (List (List Field)) := run dialect .fresh (symbols text)

example : write .excel [["a,b".toList, "say \"hi\"".toList], [[]]]
    = "\"a,b\",\"say \"\"hi\"\"\"\r\n\"\"\r\n".toList := by decide
example : read .excel "a,\"b\r\nc\"\nd".toList
    = some [["a".toList, "b\r\nc".toList], ["d".toList]] := by decide

/-! ## One symbol at a time -/

section Symbols

variable {dialect} {reader next : Reader} {character : Char} {rest : List (Option Char)}
  {text : List Char}

theorem run_step (steps : reader.step dialect (some character) = some next) :
    run dialect reader (some character :: rest) = run dialect next rest := by
  rw [run, steps]
  rfl

theorem run_line (steps : reader.step dialect none = some next) (inside : next.state ≠ .startRecord) :
    run dialect reader (none :: rest) = run dialect next rest := by
  rw [run, steps, Option.bind_eq_bind, Option.bind_some, if_neg inside]

theorem run_record (steps : reader.step dialect none = some next) (ended : next.state = .startRecord) :
    run dialect reader (none :: rest) = (run dialect .fresh rest).map (next.fields :: ·) := by
  rw [run, steps, Option.bind_eq_bind, Option.bind_some, if_pos ended]
  cases run dialect .fresh rest <;> rfl

theorem symbols_cons (inLine : character ∉ ['\r', '\n']) (some : text ≠ []) :
    symbols (character :: text) = Option.some character :: symbols text := by
  simp only [List.mem_cons, List.not_mem_nil, or_false, not_or] at inLine
  rw [symbols]
  · simp [inLine]
  · simp [inLine]
  · simp [inLine]
  · simpa using some

/-- A line may end behind a character. -/
theorem symbols_head (character : Char) (text : List Char) :
    symbols (character :: text) = some character :: symbols text ∨
      symbols (character :: text) = some character :: none :: symbols text := by
  by_cases inLine : character ∈ ['\r', '\n']
  · rcases List.mem_pair.mp inLine with rfl | rfl
    · cases text with
      | nil => exact .inr rfl
      | cons head text =>
        by_cases pair : head = '\n'
        · subst pair
          exact .inl rfl
        · right
          rw [symbols]
          simpa using pair
    · exact .inr rfl
  · by_cases some : text = []
    · subst some
      simp only [List.mem_cons, List.not_mem_nil, or_false, not_or] at inLine
      exact .inr (by simp [symbols, inLine])
    · exact .inl (symbols_cons inLine some)

end Symbols

/-! ## Fields -/

section Fields

variable {dialect} {kept field : Field} {fields : List Field} {text : List Char}

/-- Between quotes, a line may end anywhere. -/
theorem run_inQuotes {character : Char} (notQuote : character ≠ dialect.quote)
    (room : kept.length < dialect.fieldLimit) :
    run dialect ⟨.inQuotedField, kept, fields⟩ (symbols (character :: text))
      = run dialect ⟨.inQuotedField, kept ++ [character], fields⟩ (symbols text) := by
  have steps : Reader.step dialect ⟨.inQuotedField, kept, fields⟩ (some character)
      = some ⟨.inQuotedField, kept ++ [character], fields⟩ := by
    simp [Reader.step, Reader.add, notQuote, room]
  cases symbols_head character text with
  | inl inside => rw [inside, run_step steps]
  | inr ends => rw [ends, run_step steps, run_line rfl (by simp)]

theorem run_doubled (room : kept.length < dialect.fieldLimit) (some : text ≠ []) :
    run dialect ⟨.inQuotedField, kept, fields⟩ (symbols (dialect.quote :: dialect.quote :: text))
      = run dialect ⟨.inQuotedField, kept ++ [dialect.quote], fields⟩ (symbols text) := by
  have first : Reader.step dialect ⟨.inQuotedField, kept, fields⟩ (Option.some dialect.quote)
      = Option.some ⟨.quoteInQuotedField, kept, fields⟩ := by
    simp [Reader.step, Reader.enter]
  have second : Reader.step dialect ⟨.quoteInQuotedField, kept, fields⟩ (Option.some dialect.quote)
      = Option.some ⟨.inQuotedField, kept ++ [dialect.quote], fields⟩ := by
    simp [Reader.step, Reader.add, Reader.enter, room]
  rw [symbols_cons dialect.quoteInLine (List.cons_ne_nil _ _), run_step first,
    symbols_cons dialect.quoteInLine some, run_step second]

/-- What stands between quotes is kept as it was. -/
theorem run_quoted (some : text ≠ []) (room : kept.length + field.length ≤ dialect.fieldLimit) :
    run dialect ⟨.inQuotedField, kept, fields⟩ (symbols (quoted dialect field ++ text))
      = run dialect ⟨.inQuotedField, kept ++ field, fields⟩ (symbols text) := by
  induction field generalizing kept with
  | nil =>
    rw [List.append_nil]
    rfl
  | cons character field inductionHypothesis =>
    rw [List.length_cons] at room
    have here : kept.length < dialect.fieldLimit := by omega
    have later : (kept ++ [character]).length + field.length ≤ dialect.fieldLimit := by
      rw [List.length_append, List.length_singleton]
      omega
    have rest := inductionHypothesis later
    rw [List.append_assoc, List.singleton_append] at rest
    rw [quoted, List.flatMap_cons, ← quoted, List.append_assoc, ← rest]
    by_cases isQuote : character = dialect.quote
    · rw [if_pos isQuote, isQuote]
      exact run_doubled here (by simp [some])
    · rw [if_neg isQuote]
      exact run_inQuotes isQuote here

/-- A field without special characters is kept as it is. -/
theorem run_plain (some : text ≠ []) (plain : mustQuote dialect field = false)
    (room : kept.length + field.length ≤ dialect.fieldLimit) :
    run dialect ⟨.inField, kept, fields⟩ (symbols (field ++ text))
      = run dialect ⟨.inField, kept ++ field, fields⟩ (symbols text) := by
  induction field generalizing kept with
  | nil =>
    rw [List.append_nil]
    rfl
  | cons character field inductionHypothesis =>
    rw [List.length_cons] at room
    have here : kept.length < dialect.fieldLimit := by omega
    have later : (kept ++ [character]).length + field.length ≤ dialect.fieldLimit := by
      rw [List.length_append, List.length_singleton]
      omega
    rw [mustQuote, List.any_cons, Bool.or_eq_false_iff] at plain
    obtain ⟨plainHere, plainRest⟩ := plain
    simp only [decide_eq_false_iff_not, List.mem_cons, List.not_mem_nil, or_false, not_or] at plainHere
    obtain ⟨noDelimiter, noQuote, noReturn, noBreak⟩ := plainHere
    have rest := inductionHypothesis plainRest later
    rw [List.append_assoc, List.singleton_append] at rest
    have steps : Reader.step dialect ⟨.inField, kept, fields⟩ (Option.some character)
        = Option.some ⟨.inField, kept ++ [character], fields⟩ := by
      simp [Reader.step, Reader.isBreak, Reader.add, noDelimiter, noReturn, noBreak, here]
    rw [List.cons_append, symbols_cons (by simp [noReturn, noBreak]) (by simp [some]), run_step steps, rest]

/-- A reader that has taken a whole field. -/
def Ready (state : State) (field : Field) : Prop :=
  state = .startField ∧ field = [] ∨ state = .inField ∨ state = .quoteInQuotedField

theorem run_field (some : text ≠ []) (room : field.length ≤ dialect.fieldLimit) :
    ∃ state, Ready state field ∧
      run dialect ⟨.startField, [], fields⟩ (symbols (writeField dialect field ++ text))
        = run dialect ⟨state, field, fields⟩ (symbols text) := by
  by_cases special : mustQuote dialect field = true
  · refine ⟨.quoteInQuotedField, .inr (.inr rfl), ?_⟩
    have opens : Reader.step dialect ⟨.startField, [], fields⟩ (Option.some dialect.quote)
        = Option.some ⟨.inQuotedField, [], fields⟩ := by
      have inLine := dialect.quoteInLine
      simp only [List.mem_cons, List.not_mem_nil, or_false, not_or] at inLine
      simp [Reader.step, Reader.stepStart, Reader.isBreak, Reader.enter, inLine]
    have closes : Reader.step dialect ⟨.inQuotedField, field, fields⟩ (Option.some dialect.quote)
        = Option.some ⟨.quoteInQuotedField, field, fields⟩ := by
      simp [Reader.step, Reader.enter]
    have inside := @run_quoted dialect [] field fields (dialect.quote :: text) (List.cons_ne_nil _ _)
      (by simpa using room)
    rw [writeField, if_pos special, List.cons_append, List.append_assoc, List.singleton_append,
      symbols_cons dialect.quoteInLine (by simp), run_step opens, inside, List.nil_append,
      symbols_cons dialect.quoteInLine some, run_step closes]
  · rw [writeField, if_neg special]
    cases field with
    | nil => exact ⟨.startField, .inl ⟨rfl, rfl⟩, rfl⟩
    | cons character field =>
      refine ⟨.inField, .inr (.inl rfl), ?_⟩
      rw [Bool.not_eq_true, mustQuote, List.any_cons, Bool.or_eq_false_iff] at special
      obtain ⟨plainHere, plainRest⟩ := special
      simp only [decide_eq_false_iff_not, List.mem_cons, List.not_mem_nil, or_false, not_or] at plainHere
      obtain ⟨noDelimiter, noQuote, noReturn, noBreak⟩ := plainHere
      rw [List.length_cons] at room
      have here : 0 < dialect.fieldLimit := by omega
      have steps : Reader.step dialect ⟨.startField, [], fields⟩ (Option.some character)
          = Option.some ⟨.inField, [character], fields⟩ := by
        simp [Reader.step, Reader.stepStart, Reader.isBreak, Reader.enter, Reader.add, noDelimiter,
          noQuote, noReturn, noBreak, here]
      have rest := @run_plain dialect [character] field fields text some plainRest
        (by rw [List.length_singleton]; omega)
      rw [List.cons_append, symbols_cons (by simp [noReturn, noBreak]) (by simp [some]), run_step steps,
        rest, List.singleton_append]

theorem run_delimiter {state : State} (ready : Ready state field) (some : text ≠ []) :
    run dialect ⟨state, field, fields⟩ (symbols (dialect.delimiter :: text))
      = run dialect ⟨.startField, [], fields ++ [field]⟩ (symbols text) := by
  have inLine := dialect.delimiterInLine
  simp only [List.mem_cons, List.not_mem_nil, or_false, not_or] at inLine
  have steps : Reader.step dialect ⟨state, field, fields⟩ (Option.some dialect.delimiter)
      = Option.some ⟨.startField, [], fields ++ [field]⟩ := by
    rcases ready with ⟨rfl, rfl⟩ | rfl | rfl <;>
      simp [Reader.step, Reader.stepStart, Reader.isBreak, Reader.save, inLine, dialect.distinct]
  rw [symbols_cons dialect.delimiterInLine some, run_step steps]

theorem run_rowEnd {state : State} (ready : Ready state field) :
    run dialect ⟨state, field, fields⟩ (symbols ('\r' :: '\n' :: text))
      = (run dialect .fresh (symbols text)).map ((fields ++ [field]) :: ·) := by
  have returns : Reader.step dialect ⟨state, field, fields⟩ (some '\r')
      = some ⟨.eatCrnl, [], fields ++ [field]⟩ := by
    have noQuote : '\r' ≠ dialect.quote := fun same => dialect.quoteInLine (by simp [← same])
    have noDelimiter : '\r' ≠ dialect.delimiter := fun same => dialect.delimiterInLine (by simp [← same])
    rcases ready with ⟨rfl, rfl⟩ | rfl | rfl <;>
      simp [Reader.step, Reader.stepStart, Reader.isBreak, Reader.endLine, Reader.save, noQuote,
        noDelimiter]
  have breaks : Reader.step dialect ⟨.eatCrnl, [], fields ++ [field]⟩ (some '\n')
      = some ⟨.eatCrnl, [], fields ++ [field]⟩ := rfl
  have ends : Reader.step dialect ⟨.eatCrnl, [], fields ++ [field]⟩ none
      = some ⟨.startRecord, [], fields ++ [field]⟩ := rfl
  rw [symbols, run_step returns, run_step breaks, run_record ends rfl]

end Fields

/-! ## Rows -/

section Rows

variable {dialect} {fields : List Field} {text : List Char}

theorem run_fields (first : Field) (others : List Field)
    (room : ∀ field ∈ first :: others, field.length ≤ dialect.fieldLimit) :
    run dialect ⟨.startField, [], fields⟩ (symbols
        ([dialect.delimiter].intercalate ((first :: others).map (writeField dialect)) ++ '\r' :: '\n' :: text))
      = (run dialect .fresh (symbols text)).map ((fields ++ first :: others) :: ·) := by
  induction others generalizing first fields with
  | nil =>
    obtain ⟨state, ready, read⟩ := @run_field dialect first fields ('\r' :: '\n' :: text)
      (List.cons_ne_nil _ _) (room first List.mem_cons_self)
    rw [List.map_singleton, List.intercalate_singleton, read, run_rowEnd ready]
  | cons second others inductionHypothesis =>
    obtain ⟨state, ready, read⟩ := @run_field dialect first fields (dialect.delimiter
        :: ([dialect.delimiter].intercalate ((second :: others).map (writeField dialect))
          ++ '\r' :: '\n' :: text)) (List.cons_ne_nil _ _) (room first List.mem_cons_self)
    have rest := @inductionHypothesis (fields ++ [first]) second
      fun field member => room field (List.mem_cons_of_mem _ member)
    rw [List.map_cons, List.map_cons, List.intercalate_cons_cons, ← List.map_cons, List.append_assoc,
      List.append_assoc, List.singleton_append, read, run_delimiter ready (by simp), rest,
      List.append_assoc, List.singleton_append]

/-- A record starts like a field, unless its line is empty. -/
theorem run_fresh {character : Char} (inLine : character ∉ ['\r', '\n']) :
    run dialect .fresh (symbols (character :: text))
      = run dialect ⟨.startField, [], []⟩ (symbols (character :: text)) := by
  have notBreak : Reader.isBreak (some character) = false := by
    simpa [Reader.isBreak] using inLine
  have same : Reader.step dialect .fresh (some character)
      = Reader.step dialect ⟨.startField, [], []⟩ (some character) := by
    show (if Reader.isBreak (some character) = true then _ else Reader.stepStart dialect .fresh _) = _
    rw [notBreak, if_neg Bool.false_ne_true]
    rfl
  cases symbols_head character text with
  | inl inside => rw [inside, run, run, same]
  | inr ends => rw [ends, run, run, same]

/-- The first character of a line that is not empty. -/
theorem writeRow_opens {first : Field} {others : List Field} (filled : first :: others ≠ [[]]) :
    ∃ character rest, character ∉ ['\r', '\n'] ∧
      [dialect.delimiter].intercalate ((first :: others).map (writeField dialect))
        = character :: rest := by
  cases first with
  | nil =>
    cases others with
    | nil => exact absurd rfl filled
    | cons second others =>
      refine ⟨_, [dialect.delimiter].intercalate ((second :: others).map (writeField dialect)),
        dialect.delimiterInLine, ?_⟩
      rw [List.map_cons, List.map_cons, List.intercalate_cons_cons]
      rfl
  | cons head first =>
    obtain ⟨character, rest, inLine, opens⟩ : ∃ character rest, character ∉ ['\r', '\n'] ∧
        writeField dialect (head :: first) = character :: rest := by
      by_cases special : mustQuote dialect (head :: first) = true
      · exact ⟨_, _, dialect.quoteInLine, if_pos special⟩
      · refine ⟨head, first, ?_, if_neg special⟩
        rw [Bool.not_eq_true, mustQuote, List.any_cons, Bool.or_eq_false_iff] at special
        have plain := special.1
        simp only [decide_eq_false_iff_not, List.mem_cons, List.not_mem_nil, or_false, not_or] at plain
        simp [plain]
    cases others with
    | nil =>
      refine ⟨character, rest, inLine, ?_⟩
      rw [List.map_singleton, List.intercalate_singleton, opens]
    | cons second others =>
      refine ⟨character, rest ++ ([dialect.delimiter]
        ++ [dialect.delimiter].intercalate ((second :: others).map (writeField dialect))), inLine, ?_⟩
      rw [List.map_cons, List.map_cons, List.intercalate_cons_cons, opens, List.append_assoc]
      rfl

theorem run_writeRow (row : List Field) (room : ∀ field ∈ row, field.length ≤ dialect.fieldLimit) :
    run dialect .fresh (symbols (writeRow dialect row ++ text))
      = (run dialect .fresh (symbols text)).map (row :: ·) := by
  cases row with
  | nil =>
    have breaks : Reader.step dialect ⟨.eatCrnl, [], []⟩ (some '\n') = some ⟨.eatCrnl, [], []⟩ := rfl
    have opens : Reader.step dialect .fresh (some '\r') = some ⟨.eatCrnl, [], []⟩ := rfl
    have ends : Reader.step dialect ⟨.eatCrnl, [], []⟩ none = some .fresh := rfl
    show run dialect .fresh (symbols ('\r' :: '\n' :: text)) = _
    rw [symbols, run_step opens, run_step breaks, run_record ends rfl]
    rfl
  | cons first others =>
    by_cases empty : first :: others = [[]]
    · obtain ⟨rfl, rfl⟩ := List.cons.inj empty
      have inLine := dialect.quoteInLine
      simp only [List.mem_cons, List.not_mem_nil, or_false, not_or] at inLine
      have opens : Reader.step dialect ⟨.startField, [], []⟩ (some dialect.quote)
          = some ⟨.inQuotedField, [], []⟩ := by
        simp [Reader.step, Reader.stepStart, Reader.isBreak, Reader.enter, inLine]
      have closes : Reader.step dialect ⟨.inQuotedField, [], []⟩ (some dialect.quote)
          = some ⟨.quoteInQuotedField, [], []⟩ := by
        simp [Reader.step, Reader.enter]
      show run dialect .fresh (symbols (dialect.quote :: dialect.quote :: '\r' :: '\n' :: text)) = _
      rw [run_fresh dialect.quoteInLine, symbols_cons dialect.quoteInLine (by simp), run_step opens,
        symbols_cons dialect.quoteInLine (by simp), run_step closes, run_rowEnd (.inr (.inr rfl))]
      rfl
    · obtain ⟨character, rest, inLine, opens⟩ := @writeRow_opens dialect first others empty
      have written : writeRow dialect (first :: others)
          = [dialect.delimiter].intercalate ((first :: others).map (writeField dialect)) ++ ['\r', '\n'] := by
        rw [writeRow]
        exact empty
      have read := @run_fields dialect [] text first others room
      rw [opens, List.cons_append] at read
      rw [written, opens, List.append_assoc, List.cons_append, run_fresh inLine]
      exact read

/-- A written table is read back. -/
theorem read_write {rows : List (List Field)}
    (room : ∀ row ∈ rows, ∀ field ∈ row, field.length ≤ dialect.fieldLimit) :
    read dialect (write dialect rows) = some rows := by
  induction rows with
  | nil => rfl
  | cons row rows inductionHypothesis =>
    have rest := inductionHypothesis fun other member => room other (List.mem_cons_of_mem _ member)
    have here := @run_writeRow dialect (write dialect rows) row (room row List.mem_cons_self)
    rw [read] at rest
    rw [read, write, List.flatMap_cons, ← write, here, rest]
    rfl

end Rows

end FdpRocks.Library.Csv
