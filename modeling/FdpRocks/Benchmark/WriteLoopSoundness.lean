import FdpRocks.Benchmark.WriteLoop

/-! # What a worker writes and what it says

* `Submits` — all that one `db1->Write` with its messages does, in the loop and
  behind it.
* `Written` — the trace so far against the keys, the statuses and the reports.
* `doSimpleRandomWrite_total` — the trace of a whole run.
-/

namespace FdpRocks.Benchmark

open FdpRocks.Library.Loop

/-! ## Observations of a trace -/

/-- `completed_keys` of a progress line. -/
def Message.completedKeys : Message → Option ℕ
  | .writeProgress _ completedKeys _ => some completedKeys
  | _ => none

namespace Event

/-- The keys of a write. -/
@[simp] def batch : Event → List UInt64
  | .write batch _ => batch
  | .print _ => []

/-- The keys of a write that returned OK. -/
@[simp] def submitted : Event → List UInt64
  | .write batch status => if status.ok then batch else []
  | .print _ => []

@[simp] def completedKeys : Event → Option ℕ
  | .write _ _ => none
  | .print message => message.completedKeys

/-- A call of `db1->Write`, with what it returned. -/
@[simp] def call : Event → Option (List UInt64 × Status)
  | .write batch status => some (batch, status)
  | .print _ => none

theorem submitted_length_le (event : Event) : event.submitted.length ≤ event.batch.length := by
  cases event with
  | write batch status =>
    rw [submitted, Event.batch]
    split
    · exact le_refl _
    · exact Nat.zero_le _
  | print message => exact le_refl _

end Event

/-- How many keys were written after each write, if `start` were before. -/
def writeEnds (start : ℕ) : List Event → List ℕ
  | [] => []
  | .write batch _ :: events => (start + batch.length) :: writeEnds (start + batch.length) events
  | .print _ :: events => writeEnds start events

theorem writeEnds_append (start : ℕ) (earlier later : List Event) :
    writeEnds start (earlier ++ later)
      = writeEnds start earlier ++ writeEnds (start + (earlier.flatMap Event.batch).length) later := by
  induction earlier generalizing start with
  | nil => simp [writeEnds]
  | cons event earlier inductionHypothesis =>
    cases event with
    | write batch status => simp [writeEnds, inductionHypothesis, Nat.add_assoc]
    | print message => simp [writeEnds, inductionHypothesis]

section Prints

variable (messages : List Message)

@[simp] theorem flatMap_batch_prints : (messages.map Event.print).flatMap Event.batch = [] := by
  simp

@[simp] theorem flatMap_submitted_prints :
    (messages.map Event.print).flatMap Event.submitted = [] := by
  simp

@[simp] theorem call_prints : (messages.map Event.print).filterMap Event.call = [] := by
  simp

@[simp] theorem completedKeys_prints :
    (messages.map Event.print).filterMap Event.completedKeys
      = messages.filterMap Message.completedKeys := by
  rw [List.filterMap_map]
  rfl

@[simp] theorem writeEnds_prints (start : ℕ) : writeEnds start (messages.map Event.print) = [] := by
  induction messages with
  | nil => rfl
  | cons message messages inductionHypothesis => exact inductionHypothesis

end Prints

/-- What is printed while every write returns OK, the last line apart. -/
def Message.Sound (outside : Outside) : Message → Prop
  | .writesCompleted _ _ | .writeProgress _ _ _ | .opsCompleted _ | .progressBar _ | .newline => True
  | .stuck _ status _ _ => status.ok = true
  | .finalFlush _ _ ok => ok = true
  | .rocksdbStats stats _ => ∀ text ∈ stats, ∃ call, outside.rocksdbStats call = some text
  | .writeError _ _ | .writeFailed _ _ _ | .finalWriteError _ _ _ | .total _ | .other _ => False

/-- What is printed only after a write that did not return OK. -/
def Message.IsError : Message → Prop
  | .writeError _ _ | .finalWriteError _ _ _ => True
  | _ => False

/-- The first `calls` writes all return OK. -/
def Outside.AllOk (outside : Outside) (calls : ℕ) : Prop :=
  ∀ call < calls, (outside.write call).ok = true

theorem Outside.allOk_succ {outside : Outside} {calls : ℕ} :
    outside.AllOk (calls + 1) ↔ outside.AllOk calls ∧ (outside.write calls).ok = true := by
  constructor
  · exact fun all => ⟨fun call before => all call (Nat.lt_succ_of_lt before), all calls (Nat.lt_succ_self _)⟩
  · rintro ⟨earlier, last⟩ call before
    cases Nat.lt_succ_iff_lt_or_eq.mp before with
    | inl less => exact earlier call less
    | inr same => exact same ▸ last

variable {flags : Flags} {baseKeys : UInt64} {tid : ℕ} {outside : Outside}

namespace Writer

/-! ## Steps that only print -/

/-- Only messages of one kind are added, and no progress line. -/
structure Aside (kind : Message → Prop) (before after : Writer) : Prop where
  rest : after.rest = before.rest
  wb : after.wb = before.wb
  successCount : after.successCount = before.successCount
  writes : after.writes = before.writes
  finishedOps : after.finishedOps = before.finishedOps
  trace : ∃ messages : List Message, after.trace = before.trace ++ messages.map Event.print ∧
    (∀ message ∈ messages, kind message) ∧ messages.filterMap Message.completedKeys = []

theorem Aside.refl {kind : Message → Prop} (writer : Writer) : Aside kind writer writer :=
  ⟨rfl, rfl, rfl, rfl, rfl, [], by simp⟩

theorem Aside.trans {kind : Message → Prop} {first second third : Writer}
    (before : Aside kind first second) (after : Aside kind second third) :
    Aside kind first third := by
  obtain ⟨messages, trace, kinds, silent⟩ := before.trace
  obtain ⟨more, traceAfter, kindsAfter, silentAfter⟩ := after.trace
  refine ⟨after.rest.trans before.rest, after.wb.trans before.wb,
    after.successCount.trans before.successCount, after.writes.trans before.writes,
    after.finishedOps.trans before.finishedOps, messages ++ more, ?_, ?_, ?_⟩
  · rw [traceAfter, trace, List.map_append, List.append_assoc]
  · intro message member
    cases List.mem_append.mp member with
    | inl earlier => exact kinds message earlier
    | inr later => exact kindsAfter message later
  · rw [List.filterMap_append, silent, silentAfter, List.append_nil]

theorem aside_print {kind : Message → Prop} {message : Message} (sound : kind message)
    (silent : message.completedKeys = none) (writer : Writer) :
    Aside kind writer (writer.print message) :=
  ⟨rfl, rfl, rfl, rfl, rfl, [message], rfl, by simpa using sound, by simp [silent]⟩

/-- Nothing but counters of reports and of outside calls changes. -/
theorem aside_of_trace {kind : Message → Prop} {before after : Writer}
    (rest : after.rest = before.rest) (wb : after.wb = before.wb)
    (successCount : after.successCount = before.successCount)
    (writes : after.writes = before.writes) (finishedOps : after.finishedOps = before.finishedOps)
    (trace : after.trace = before.trace) : Aside kind before after :=
  ⟨rest, wb, successCount, writes, finishedOps, [], by simp [trace]⟩

theorem aside_printProgressBar (writer : Writer) :
    Aside (Message.Sound outside) writer (writer.printProgressBar outside) := by
  unfold printProgressBar
  split
  next => exact aside_print (by trivial) rfl writer
  next =>
    have ticked : Aside (Message.Sound outside) writer writer.tick := aside_of_trace rfl rfl rfl rfl rfl rfl
    exact ticked.trans (aside_print (by trivial) rfl writer.tick)

theorem aside_crossBoundaries (turns : ℕ) (writer : Writer) :
    Aside (Message.Sound outside) writer (writer.crossBoundaries outside turns) := by
  induction turns generalizing writer with
  | zero => exact .refl writer
  | succ turns inductionHypothesis =>
    have turned : Aside (Message.Sound outside) writer
        { writer with progress := writer.progress.cross (outside.clock writer.reads) }.tick :=
      aside_of_trace rfl rfl rfl rfl rfl rfl
    exact turned.trans (inductionHypothesis _)

theorem aside_reportByCount (writer : Writer) :
    Aside (Message.Sound outside) writer (writer.reportByCount outside) := by
  unfold reportByCount
  split
  next =>
    have raised : Aside (Message.Sound outside) writer { writer with progress := writer.progress.raiseNextReport } :=
      aside_of_trace rfl rfl rfl rfl rfl rfl
    exact raised.trans (aside_printProgressBar _)
  next => exact .refl writer

theorem aside_reportByTime (writer : Writer) :
    Aside (Message.Sound outside) writer (writer.reportByTime flags outside) := by
  unfold reportByTime
  dsimp only
  split
  next => exact .refl writer
  next =>
    split
    next =>
      refine .trans ?_ (aside_printProgressBar _)
      exact aside_of_trace rfl rfl rfl rfl rfl rfl
    next => exact aside_of_trace rfl rfl rfl rfl rfl rfl

theorem aside_finishedBatchOp (batch : ℕ) (writer : Writer) :
    Aside (Message.Sound outside) { writer with finishedOps := writer.finishedOps ++ [batch] }
      (writer.finishedBatchOp flags outside batch) := by
  unfold finishedBatchOp
  refine .trans ?_ (aside_reportByTime _)
  refine .trans ?_ (aside_reportByCount _)
  refine .trans ?_ (aside_crossBoundaries _ _)
  exact aside_of_trace rfl rfl rfl rfl rfl rfl

theorem aside_maybePrintRocksDBStats (writer : Writer) :
    Aside (Message.Sound outside) writer (writer.maybePrintRocksDBStats tid outside) := by
  unfold maybePrintRocksDBStats
  dsimp only
  split
  · split
    · refine .trans ?_ (aside_print ?_ rfl _)
      · exact aside_of_trace rfl rfl rfl rfl rfl rfl
      · exact fun text known => ⟨_, known⟩
    · exact aside_of_trace rfl rfl rfl rfl rfl rfl
  · exact .refl writer

theorem aside_checkStuck (status : Status) (batchCount : ℕ) (writer : Writer) :
    Aside (fun message => status.ok = true → message.Sound outside) writer
      (writer.checkStuck outside status batchCount) := by
  unfold checkStuck
  dsimp only
  split
  · split
    · have told : Aside (fun message => status.ok = true → message.Sound outside) writer.tick
          (writer.tick.print (.stuck writer.successCount status batchCount writer.wb.length)) :=
        aside_print id rfl writer.tick
      exact ⟨told.rest, told.wb, told.successCount, told.writes, told.finishedOps, told.trace⟩
    · exact aside_of_trace rfl rfl rfl rfl rfl rfl
  · exact aside_of_trace rfl rfl rfl rfl rfl rfl

end Writer

/-! ## One write -/

/-- The counts among these at which progress is reported. -/
def due (counts : List ℕ) : List ℕ := counts.filter fun count => IsDue count

theorem due_append (earlier later : List ℕ) : due (earlier ++ later) = due earlier ++ due later :=
  List.filter_append _ _

/-- `total_keys`, in 64 bits. -/
def totalKeys (baseKeys : UInt64) (count : ℕ) : ℕ := (baseKeys.toNat + count) % 2 ^ 64

namespace Writer

/-- The batch is written, and what is printed tells how that went. -/
structure Submits (baseKeys : UInt64) (outside : Outside) (before after : Writer) : Prop where
  rest : after.rest = before.rest
  wb : after.wb = []
  writes : after.writes = before.writes + 1
  finishedOps : after.finishedOps = before.finishedOps
  successCount : after.successCount = before.successCount
    + if (outside.write before.writes).ok then before.wb.length else 0
  trace : ∃ messages : List Message,
    after.trace = before.trace
      ++ .write before.wb (outside.write before.writes) :: messages.map Event.print ∧
    ((outside.write before.writes).ok = true → (∀ message ∈ messages, message.Sound outside) ∧
      messages.filterMap Message.completedKeys
        = (due [after.successCount]).map (totalKeys baseKeys)) ∧
    ((outside.write before.writes).ok = false → ∃ message ∈ messages, message.IsError)

theorem Submits.aside {before middle after : Writer} (submits : Submits baseKeys outside before middle)
    (aside : Aside (fun message => (outside.write before.writes).ok = true → message.Sound outside)
      middle after) :
    Submits baseKeys outside before after := by
  obtain ⟨messages, trace, sound, error⟩ := submits.trace
  obtain ⟨more, traceAfter, kinds, silent⟩ := aside.trace
  refine ⟨aside.rest.trans submits.rest, aside.wb.trans submits.wb, aside.writes.trans submits.writes,
    aside.finishedOps.trans submits.finishedOps, aside.successCount.trans submits.successCount, messages ++ more, ?_, ?_, ?_⟩
  · rw [traceAfter, trace, List.map_append, List.append_assoc, List.cons_append]
  · intro ok
    refine ⟨?_, ?_⟩
    · intro message member
      cases List.mem_append.mp member with
      | inl earlier => exact (sound ok).1 message earlier
      | inr later => exact kinds message later ok
    · rw [List.filterMap_append, silent, List.append_nil, (sound ok).2, aside.successCount]
  · intro failed
    obtain ⟨message, member, isError⟩ := error failed
    exact ⟨message, List.mem_append_left _ member, isError⟩

/-- Behind an error it does not matter what else is printed. -/
theorem Submits.reportProgress {before after : Writer} (submits : Submits baseKeys outside before after)
    (failed : (outside.write before.writes).ok = false) (line : Message) :
    Submits baseKeys outside before (after.reportProgress baseKeys outside line) := by
  obtain ⟨messages, trace, _, error⟩ := submits.trace
  obtain ⟨message, member, isError⟩ := error failed
  refine ⟨submits.rest, submits.wb, submits.writes, submits.finishedOps, submits.successCount,
    messages ++ [line, .writeProgress (outside.timeOfDay after.reads)
      (totalKeys baseKeys after.successCount) (outside.disk (after.reads + 1))],
    ?_, fun ok => ?_, fun _ => ⟨message, List.mem_append_left _ member, isError⟩⟩
  · simp [Writer.reportProgress, print, trace, totalKeys]
  · rw [failed] at ok
    cases ok

/-- A write that returned OK, and the report that may be due after it. -/
theorem reported_submits {writer written : Writer} {line : Message}
    (ok : (outside.write writer.writes).ok = true)
    (counted : written = { writer.write outside with
      successCount := writer.successCount + writer.wb.length })
    (sound : line.Sound outside) (silent : line.completedKeys = none) :
    Submits baseKeys outside writer
      (if IsDue written.successCount then written.reportProgress baseKeys outside line
        else written) := by
  have fails : ¬ (outside.write writer.writes).ok = false := by rw [ok]; exact Bool.noConfusion
  subst counted
  dsimp only
  split
  next reached =>
    refine ⟨rfl, rfl, rfl, rfl, by rw [ok]; rfl, [line, .writeProgress (outside.timeOfDay writer.reads)
      (totalKeys baseKeys (writer.successCount + writer.wb.length))
      (outside.disk (writer.reads + 1))], ?_, ?_, fun failed => absurd failed fails⟩
    · simp [reportProgress, print, write, totalKeys]
    · intro _
      constructor
      · rintro message (_ | ⟨_, _ | ⟨_, none⟩⟩)
        · exact sound
        · trivial
        · cases none
      · have one : due [writer.successCount + writer.wb.length]
            = [writer.successCount + writer.wb.length] := by
          simp [due, reached]
        rw [List.filterMap_cons, silent]
        show _ = (due [writer.successCount + writer.wb.length]).map _
        rw [one]
        rfl
  next missed =>
    refine ⟨rfl, rfl, rfl, rfl, by rw [ok]; rfl, [], rfl, ?_, fun failed => absurd failed fails⟩
    intro _
    refine ⟨fun _ member => absurd member List.not_mem_nil, ?_⟩
    have none : due [writer.successCount + writer.wb.length] = [] := by
      simp [due, missed]
    show _ = (due [writer.successCount + writer.wb.length]).map _
    rw [none]
    rfl

theorem commit_submits (writer : Writer) :
    Submits baseKeys outside writer (writer.commit baseKeys outside) := by
  unfold commit
  dsimp only
  split
  next ok =>
    refine Submits.aside ?_ (aside_checkStuck _ _ _)
    exact reported_submits ok rfl trivial rfl
  next failed =>
    refine Submits.aside ?_ (aside_checkStuck _ _ _)
    refine ⟨rfl, rfl, rfl, rfl, by rw [if_neg failed]; rfl,
      [.writeError writer.successCount (outside.write writer.writes).text,
        .writeFailed writer.successCount (outside.write writer.writes).text writer.wb.length], ?_,
      fun ok => absurd ok failed, fun _ => ⟨_, List.mem_cons_self, trivial⟩⟩
    simp [print, write]

theorem finalFlush_submits {writer : Writer} (some : writer.wb ≠ []) :
    Submits baseKeys outside writer (writer.finalFlush baseKeys outside) := by
  unfold finalFlush
  rw [if_neg some]
  dsimp only
  by_cases ok : (outside.write writer.writes).ok = true
  · rw [if_pos ok]
    exact reported_submits ok rfl ok rfl
  · rw [if_neg ok]
    -- The report that may follow says more, but the error has been printed.
    have told : Submits baseKeys outside writer ((writer.write outside).print
        (.finalWriteError writer.successCount (outside.write writer.writes).text
          writer.wb.length)) :=
      ⟨rfl, rfl, rfl, rfl, by rw [if_neg ok]; rfl, [.finalWriteError writer.successCount
          (outside.write writer.writes).text writer.wb.length], by simp [print, write],
        fun isOk => absurd isOk ok, fun _ => ⟨_, List.mem_cons_self, trivial⟩⟩
    split
    next => exact told.reportProgress (Bool.eq_false_iff.mpr ok) _
    next => exact told

/-! ## All writes so far -/

/-- The keys are split between the writes, the batch and the rest, and the trace
    tells whether every write returned OK. -/
structure Written (baseKeys : UInt64) (outside : Outside) (keys : List UInt64) (writer : Writer) :
    Prop where
  split : writer.trace.flatMap Event.batch ++ (writer.wb ++ writer.rest) = keys
  statuses : (writer.trace.filterMap Event.call).map Prod.snd
    = (List.range writer.writes).map outside.write
  counted : writer.successCount = (writer.trace.flatMap Event.submitted).length
  sound : outside.AllOk writer.writes →
    writer.trace.flatMap Event.submitted = writer.trace.flatMap Event.batch ∧
    (∀ message, .print message ∈ writer.trace → message.Sound outside) ∧
    writer.trace.filterMap Event.completedKeys
      = (due (writeEnds 0 writer.trace)).map (totalKeys baseKeys)
  fault : ¬ outside.AllOk writer.writes →
    (writer.trace.flatMap Event.submitted).length < (writer.trace.flatMap Event.batch).length ∧
    ∃ message, .print message ∈ writer.trace ∧ message.IsError

variable {keys : List UInt64} {writer after : Writer}

theorem mem_prints {message : Message} {messages : List Message} :
    Event.print message ∈ messages.map Event.print ↔ message ∈ messages := by
  simp

theorem submitted_length_le (trace : List Event) :
    (trace.flatMap Event.submitted).length ≤ (trace.flatMap Event.batch).length := by
  induction trace with
  | nil => exact le_refl _
  | cons event trace inductionHypothesis =>
    rw [List.flatMap_cons, List.flatMap_cons, List.length_append, List.length_append]
    exact Nat.add_le_add event.submitted_length_le inductionHypothesis

theorem Written.aside (written : Written baseKeys outside keys writer)
    (aside : Aside (Message.Sound outside) writer after) : Written baseKeys outside keys after := by
  obtain ⟨messages, trace, kinds, silent⟩ := aside.trace
  constructor
  case split =>
    rw [trace, aside.wb, aside.rest, List.flatMap_append, flatMap_batch_prints, List.append_nil]
    exact written.split
  case statuses =>
    rw [aside.writes, trace, List.filterMap_append, call_prints, List.append_nil]
    exact written.statuses
  case counted =>
    rw [aside.successCount, trace, List.flatMap_append, flatMap_submitted_prints, List.append_nil]
    exact written.counted
  case sound =>
    rw [aside.writes, trace, List.flatMap_append, List.flatMap_append,
      List.filterMap_append, writeEnds_append, flatMap_batch_prints, flatMap_submitted_prints,
      completedKeys_prints, writeEnds_prints, silent]
    repeat rw [List.append_nil]
    intro ok
    obtain ⟨submitted, sound, progress⟩ := written.sound ok
    refine ⟨submitted, ?_, progress⟩
    intro message member
    cases List.mem_append.mp member with
    | inl earlier => exact sound message earlier
    | inr later => exact kinds message (mem_prints.mp later)
  -- an error that was printed stays printed
  case fault =>
    rw [aside.writes, trace, List.flatMap_append, List.flatMap_append, flatMap_batch_prints,
      flatMap_submitted_prints]
    repeat rw [List.append_nil]
    intro failed
    obtain ⟨lost, message, member, isError⟩ := written.fault failed
    exact ⟨lost, message, List.mem_append_left _ member, isError⟩

theorem Written.submit (written : Written baseKeys outside keys writer) (some : writer.wb ≠ [])
    (submits : Submits baseKeys outside writer after) : Written baseKeys outside keys after := by
  obtain ⟨messages, trace, sound, error⟩ := submits.trace
  -- the batch moves from `wb` into the trace, and counts if the status is OK
  have batches : after.trace.flatMap Event.batch
      = writer.trace.flatMap Event.batch ++ writer.wb := by
    rw [trace, List.flatMap_append, List.flatMap_cons, flatMap_batch_prints, List.append_nil,
      Event.batch]
  have submitted : after.trace.flatMap Event.submitted = writer.trace.flatMap Event.submitted
      ++ if (outside.write writer.writes).ok then writer.wb else [] := by
    rw [trace, List.flatMap_append, List.flatMap_cons, flatMap_submitted_prints, List.append_nil,
      Event.submitted]
  constructor
  case split =>
    rw [batches, submits.wb, submits.rest, List.nil_append, List.append_assoc]
    exact written.split
  case statuses =>
    rw [submits.writes, trace, List.filterMap_append, List.map_append, written.statuses,
      List.range_succ, List.map_append, List.filterMap_cons, call_prints]
    rfl
  case counted =>
    rw [submits.successCount, submitted, List.length_append, written.counted]
    split <;> rfl
  case sound =>
    rw [submits.writes, Outside.allOk_succ]
    rintro ⟨earlier, ok⟩
    obtain ⟨same, soundBefore, progress⟩ := written.sound earlier
    have count : after.successCount = (writer.trace.flatMap Event.batch).length + writer.wb.length := by
      rw [submits.successCount, if_pos ok, written.counted, same]
    refine ⟨?_, ?_, ?_⟩
    · rw [submitted, batches, if_pos ok, same]
    · rw [trace]
      intro message member
      cases List.mem_append.mp member with
      | inl before => exact soundBefore message before
      | inr here =>
        cases List.mem_cons.mp here with
        | inl write => cases write
        | inr printed => exact (sound ok).1 message (mem_prints.mp printed)
    · rw [trace, List.filterMap_append, progress, writeEnds_append, Nat.zero_add, writeEnds,
        writeEnds_prints, due_append, List.map_append, ← count, ← (sound ok).2,
        List.filterMap_cons, completedKeys_prints]
      rfl
  case fault =>
    rw [submits.writes, Outside.allOk_succ, submitted, batches, List.length_append,
      List.length_append]
    intro failed
    have fewer := submitted_length_le writer.trace
    have pending : 0 < writer.wb.length := List.length_pos_of_ne_nil some
    cases status : (outside.write writer.writes).ok with
    | true =>
      -- Then an earlier write failed.
      obtain ⟨lost, message, member, isError⟩ :=
        written.fault (fun earlier => failed ⟨earlier, status⟩)
      refine ⟨?_, message, ?_, isError⟩
      · rw [if_pos rfl]
        omega
      · rw [trace]
        exact List.mem_append_left _ member
    | false =>
      obtain ⟨message, member, isError⟩ := error status
      refine ⟨?_, message, ?_, isError⟩
      · rw [if_neg Bool.false_ne_true, List.length_nil]
        omega
      · rw [trace]
        exact List.mem_append_right _ (List.mem_cons_of_mem _ (mem_prints.mpr member))

/-! ## The loop -/

/-- Inside the loop the batch is never full, and every write had a full one. -/
structure Filling (flags : Flags) (baseKeys : UInt64) (outside : Outside) (keys : List UInt64)
    (writer : Writer) : Prop where
  written : Written baseKeys outside keys writer
  room : writer.wb.length < flags.batch.toNat
  full : ∀ call ∈ writer.trace.filterMap Event.call, call.1.length = flags.batch.toNat
  ends : writeEnds 0 writer.trace
    = (List.range writer.writes).map fun call => flags.batch.toNat * (call + 1)
  length : (writer.trace.flatMap Event.batch).length = flags.batch.toNat * writer.writes

theorem filling_start (positive : 0 < flags.batch.toNat) (keys : List UInt64) :
    Filling flags baseKeys outside keys (start flags outside keys) where
  written := by
    constructor
    case split => rfl
    case statuses => rfl
    case counted => rfl
    case sound =>
      intro _
      exact ⟨rfl, fun _ member => absurd member List.not_mem_nil, rfl⟩
    case fault =>
      intro failed
      exact absurd (fun call before => absurd before (Nat.not_lt_zero call)) failed
  room := positive
  full := fun _ member => absurd member List.not_mem_nil
  ends := rfl
  length := rfl

theorem Filling.aside (filling : Filling flags baseKeys outside keys writer)
    (aside : Aside (Message.Sound outside) writer after) :
    Filling flags baseKeys outside keys after := by
  obtain ⟨messages, trace, _⟩ := aside.trace
  constructor
  case written => exact filling.written.aside aside
  case room => rw [aside.wb]; exact filling.room
  case full =>
    rw [trace, List.filterMap_append, call_prints, List.append_nil]
    exact filling.full
  case ends =>
    rw [aside.writes, trace, writeEnds_append, writeEnds_prints, List.append_nil]
    exact filling.ends
  case length =>
    rw [aside.writes, trace, List.flatMap_append, flatMap_batch_prints, List.append_nil]
    exact filling.length

theorem Filling.commit (written : Written baseKeys outside keys writer)
    (full : writer.wb.length = flags.batch.toNat) (positive : 0 < flags.batch.toNat)
    (earlier : ∀ call ∈ writer.trace.filterMap Event.call, call.1.length = flags.batch.toNat)
    (ends : writeEnds 0 writer.trace
      = (List.range writer.writes).map fun call => flags.batch.toNat * (call + 1))
    (length : (writer.trace.flatMap Event.batch).length = flags.batch.toNat * writer.writes) :
    Filling flags baseKeys outside keys (writer.commit baseKeys outside) := by
  have submits : Submits baseKeys outside writer (writer.commit baseKeys outside) :=
    commit_submits writer
  have some : writer.wb ≠ [] := List.ne_nil_of_length_pos (full ▸ positive)
  obtain ⟨messages, trace, _⟩ := submits.trace
  constructor
  case written => exact written.submit some submits
  case room => rw [submits.wb]; exact positive
  case full =>
    rw [trace, List.filterMap_append, List.filterMap_cons, call_prints]
    intro call member
    cases List.mem_append.mp member with
    | inl before => exact earlier call before
    | inr here => rw [List.mem_singleton.mp here]; exact full
  case ends =>
    rw [submits.writes, trace, writeEnds_append, Nat.zero_add, writeEnds, writeEnds_prints, ends,
      length, full, List.range_succ, List.map_append]
    rfl
  case length =>
    rw [submits.writes, trace, List.flatMap_append, List.flatMap_cons, flatMap_batch_prints,
      List.append_nil, List.length_append, length, Event.batch, full, Nat.mul_add_one]

/-- One key moves from the rest to the batch. -/
theorem Filling.put (filling : Filling flags baseKeys outside keys writer) {key : UInt64}
    {rest : List UInt64} (next : writer.rest = key :: rest) :
    Filling flags baseKeys outside keys
        ({ writer with rest }.put flags baseKeys outside key) ∧
      ({ writer with rest }.put flags baseKeys outside key).rest = rest ∧
      ({ writer with rest }.put flags baseKeys outside key).finishedOps = writer.finishedOps := by
  have room := filling.room
  have added : Written baseKeys outside keys { writer with rest, wb := writer.wb ++ [key] } := by
    constructor
    case split =>
      show writer.trace.flatMap Event.batch ++ ((writer.wb ++ [key]) ++ rest) = keys
      rw [List.append_assoc, List.singleton_append, ← next]
      exact filling.written.split
    case statuses => exact filling.written.statuses
    case counted => exact filling.written.counted
    case sound => exact filling.written.sound
    case fault => exact filling.written.fault
  unfold Writer.put
  dsimp only
  split
  -- this key fills the batch
  next full =>
    have submits := @commit_submits baseKeys outside { writer with rest, wb := writer.wb ++ [key] }
    exact ⟨.commit added full (Nat.zero_lt_of_lt room) filling.full filling.ends filling.length,
      submits.rest, submits.finishedOps⟩
  next short =>
    refine ⟨⟨added, ?_, filling.full, filling.ends, filling.length⟩, rfl, rfl⟩
    have length : (writer.wb ++ [key]).length = writer.wb.length + 1 := List.length_append
    show (writer.wb ++ [key]).length < flags.batch.toNat
    omega

/-- `j` counts the keys that the `for` loop took. -/
theorem Filling.fillBatch (filling : Filling flags baseKeys outside keys writer) (budget j : ℕ) :
    Filling flags baseKeys outside keys (writer.fillBatch flags baseKeys outside budget j).2 ∧
      (writer.fillBatch flags baseKeys outside budget j).2.rest = writer.rest.drop budget ∧
      (writer.fillBatch flags baseKeys outside budget j).2.finishedOps = writer.finishedOps ∧
      (writer.fillBatch flags baseKeys outside budget j).1
        + (writer.fillBatch flags baseKeys outside budget j).2.rest.length
          = j + writer.rest.length := by
  -- one key for each turn of the `for` loop, until it or the keys run out
  induction budget generalizing writer j with
  | zero => exact ⟨filling, rfl, rfl, rfl⟩
  | succ budget inductionHypothesis =>
    cases next : writer.rest with
    | nil =>
      rw [Writer.fillBatch, next]
      exact ⟨filling, next, rfl, by rw [next]⟩
    | cons key rest =>
      obtain ⟨kept, shorter, unfinished⟩ := filling.put next
      obtain ⟨later, dropped, finished, taken⟩ := inductionHypothesis kept (j + 1)
      rw [shorter] at dropped taken
      rw [Writer.fillBatch, next]
      refine ⟨later, dropped, finished.trans unfinished, taken.trans ?_⟩
      rw [List.length_cons, Nat.add_assoc, Nat.add_comm 1]

/-- Between two turns of the outer loop, `FinishedBatchOp` has been told of all
    keys taken. -/
structure Turning (flags : Flags) (baseKeys : UInt64) (outside : Outside) (keys : List UInt64)
    (writer : Writer) : Prop where
  filling : Filling flags baseKeys outside keys writer
  finished : writer.finishedOps.sum + writer.rest.length = keys.length

/-- One turn of the outer loop uses up keys. -/
theorem Turning.writeTurn (turning : Turning flags baseKeys outside keys writer)
    (turn : writer.writeTurn flags baseKeys tid outside = .again after) :
    Turning flags baseKeys outside keys after ∧ after.rest.length < writer.rest.length := by
  unfold Writer.writeTurn at turn
  split at turn
  next => cases turn
  next more =>
    obtain ⟨filled, dropped, unfinished, taken⟩ := turning.filling.fillBatch flags.batch.toNat 0
    generalize writer.fillBatch flags baseKeys outside flags.batch.toNat 0 = result
      at turn filled dropped unfinished taken
    obtain ⟨j, full⟩ := result
    cases turn
    have asides : Aside (Message.Sound outside)
        { full with finishedOps := full.finishedOps ++ [j] }
        ((full.finishedBatchOp flags outside j).maybePrintRocksDBStats tid outside) :=
      (aside_finishedBatchOp j full).trans (aside_maybePrintRocksDBStats _)
    have called : Filling flags baseKeys outside keys
        { full with finishedOps := full.finishedOps ++ [j] } :=
      ⟨⟨filled.written.split, filled.written.statuses, filled.written.counted,
        filled.written.sound, filled.written.fault⟩, filled.room, filled.full, filled.ends,
        filled.length⟩
    refine ⟨⟨called.aside asides, ?_⟩, ?_⟩
    · rw [asides.rest, asides.finishedOps, List.sum_append, List.sum_singleton, unfinished,
        Nat.add_assoc, taken, Nat.zero_add]
      exact turning.finished
    · -- the batch size is positive, so at least one key is taken
      have positive := Nat.zero_lt_of_lt turning.filling.room
      have some := List.length_pos_of_ne_nil more
      rw [asides.rest, dropped, List.length_drop]
      omega

end Writer

/-! ## The whole run -/

/-- How often a worker with `count` keys calls `db1->Write`. -/
def writeCalls (flags : Flags) (count : ℕ) : ℕ :=
  count / flags.batch.toNat + if count % flags.batch.toNat = 0 then 0 else 1

/-- How many keys it has written after each call. -/
def writeCounts (flags : Flags) (count : ℕ) : List ℕ :=
  ((List.range (count / flags.batch.toNat)).map fun call => flags.batch.toNat * (call + 1))
    ++ if count % flags.batch.toNat = 0 then [] else [count]

/-- All that is known of the trace of a worker with these keys. -/
structure WorkerTrace (flags : Flags) (baseKeys : UInt64) (outside : Outside) (keys : List UInt64)
    (trace : List Event) : Prop where
  batches : trace.flatMap Event.batch = keys
  sound : outside.AllOk (writeCalls flags keys.length) →
    trace.flatMap Event.submitted = keys ∧
    .print (.total keys.length) ∈ trace ∧
    (∀ message, .print message ∈ trace → message.Sound outside ∨ message = .total keys.length) ∧
    trace.filterMap Event.completedKeys
      = (due (writeCounts flags keys.length)).map (totalKeys baseKeys)
  fault : ¬ outside.AllOk (writeCalls flags keys.length) →
    (trace.flatMap Event.submitted).length < keys.length ∧
    ∃ message, .print message ∈ trace ∧ message.IsError

/-- The calls of `db1->Write` and what is counted of them, when the worker returns. -/
structure WorkerCalls (flags : Flags) (outside : Outside) (keys : List UInt64) (writer : Writer) :
    Prop where
  statuses : (writer.trace.filterMap Event.call).map Prod.snd
    = (List.range writer.writes).map outside.write
  some : ∀ call ∈ writer.trace.filterMap Event.call, call.1 ≠ []
  full : ∀ call ∈ (writer.trace.filterMap Event.call).dropLast, call.1.length = flags.batch.toNat
  counted : writer.successCount = (writer.trace.flatMap Event.submitted).length
  finished : writer.finishedOps.sum = keys.length

namespace Writer

variable {keys : List UInt64} {writer : Writer}

/-- Behind the last write nothing is left over. -/
theorem Filling.finalFlush (filling : Filling flags baseKeys outside keys writer)
    (through : writer.rest = []) :
    Written baseKeys outside keys (writer.finalFlush baseKeys outside) ∧
      (writer.finalFlush baseKeys outside).wb = [] ∧
      (writer.finalFlush baseKeys outside).rest = [] ∧
      (writer.finalFlush baseKeys outside).writes = writeCalls flags keys.length ∧
      writeEnds 0 (writer.finalFlush baseKeys outside).trace = writeCounts flags keys.length := by
  have room := filling.room
  have positive := Nat.zero_lt_of_lt room
  have count : keys.length = writer.wb.length + flags.batch.toNat * writer.writes := by
    rw [← filling.written.split, through, List.append_nil, List.length_append, filling.length,
      Nat.add_comm]
  have calls : keys.length / flags.batch.toNat = writer.writes := by
    rw [count, Nat.add_mul_div_left _ _ positive, Nat.div_eq_of_lt room, Nat.zero_add]
  have rest : keys.length % flags.batch.toNat = writer.wb.length := by
    rw [count, Nat.add_mul_mod_self_left, Nat.mod_eq_of_lt room]
  unfold writeCalls writeCounts
  rw [calls, rest]
  -- an empty batch is not written
  by_cases none : writer.wb = []
  · have flushed : writer.finalFlush baseKeys outside = writer := by
      rw [Writer.finalFlush, if_pos none]
    rw [flushed, none]
    exact ⟨filling.written, rfl, through, rfl, by simpa using filling.ends⟩
  · have some : writer.wb.length ≠ 0 := fun zero => none (List.length_eq_zero_iff.mp zero)
    have submits : Submits baseKeys outside writer (writer.finalFlush baseKeys outside) :=
      finalFlush_submits none
    obtain ⟨messages, trace, _⟩ := submits.trace
    rw [if_neg some, if_neg some]
    refine ⟨filling.written.submit none submits, submits.wb, submits.rest.trans through,
      submits.writes, ?_⟩
    rw [trace, writeEnds_append, writeEnds, writeEnds_prints, filling.ends, Nat.zero_add,
      filling.length, count, Nat.add_comm]

theorem Turning.finalFlush_calls (turning : Turning flags baseKeys outside keys writer)
    (through : writer.rest = []) :
    WorkerCalls flags outside keys (writer.finalFlush baseKeys outside) := by
  have written := (turning.filling.finalFlush through).1
  have positive := Nat.zero_lt_of_lt turning.filling.room
  have finished : writer.finishedOps.sum = keys.length := by
    rw [← turning.finished, through, List.length_nil, Nat.add_zero]
  have full := turning.filling.full
  have some : ∀ call ∈ writer.trace.filterMap Event.call, call.1 ≠ [] := by
    intro call member
    exact List.ne_nil_of_length_pos (full call member ▸ positive)
  -- all calls of the loop are full, only a last one need not be
  by_cases none : writer.wb = []
  · have flushed : writer.finalFlush baseKeys outside = writer := by
      rw [Writer.finalFlush, if_pos none]
    rw [flushed] at written ⊢
    exact ⟨written.statuses, some, fun call member => full call (List.mem_of_mem_dropLast member),
      written.counted, finished⟩
  · have submits : Submits baseKeys outside writer (writer.finalFlush baseKeys outside) :=
      finalFlush_submits none
    obtain ⟨messages, trace, _⟩ := submits.trace
    have calls : (writer.finalFlush baseKeys outside).trace.filterMap Event.call
        = writer.trace.filterMap Event.call ++ [(writer.wb, outside.write writer.writes)] := by
      rw [trace, List.filterMap_append, List.filterMap_cons, call_prints]
      rfl
    refine ⟨written.statuses, ?_, ?_, written.counted, ?_⟩
    · rw [calls]
      intro call member
      cases List.mem_append.mp member with
      | inl earlier => exact some call earlier
      | inr last => rw [List.mem_singleton.mp last]; exact none
    · rw [calls, List.dropLast_concat]
      exact full
    · rw [submits.finishedOps]
      exact finished

/-- The last lines of a worker. -/
theorem finish_trace (writer : Writer) :
    (writer.finish outside).writes = writer.writes ∧
    (writer.finish outside).successCount = writer.successCount ∧
    (writer.finish outside).finishedOps = writer.finishedOps ∧
    ∃ asides : List Message, (writer.finish outside).trace
        = writer.trace ++ .print (.total writer.successCount) :: asides.map Event.print ∧
      (∀ message ∈ asides, message.Sound outside) ∧
      asides.filterMap Message.completedKeys = [] := by
  have bar := @aside_printProgressBar outside (writer.print (.total writer.successCount))
  have line : Aside (Message.Sound outside)
      ((writer.print (.total writer.successCount)).printProgressBar outside)
      (writer.finish outside) :=
    aside_print trivial rfl _
  have both := bar.trans line
  obtain ⟨asides, trace, sound, silent⟩ := both.trace
  exact ⟨both.writes, both.successCount, both.finishedOps, asides, by simp [trace, print], sound,
    silent⟩

/-- From the state behind the last write to the whole trace. -/
theorem Written.finish {flushed : Writer} (written : Written baseKeys outside keys flushed)
    (wb : flushed.wb = []) (rest : flushed.rest = [])
    (calls : flushed.writes = writeCalls flags keys.length)
    (ends : writeEnds 0 flushed.trace = writeCounts flags keys.length) :
    WorkerTrace flags baseKeys outside keys (flushed.finish outside).trace := by
  obtain ⟨_, _, _, asides, trace, sound, silent⟩ := @finish_trace outside flushed
  have batches : flushed.trace.flatMap Event.batch = keys := by
    rw [← written.split, wb, rest, List.append_nil, List.append_nil]
  have submitted : (flushed.finish outside).trace.flatMap Event.submitted
      = flushed.trace.flatMap Event.submitted := by
    simp [trace]
  constructor
  case batches => simp [trace, batches]
  case sound =>
    rw [← calls]
    intro ok
    obtain ⟨same, soundBefore, progress⟩ := written.sound ok
    rw [batches] at same
    have counted : flushed.successCount = keys.length := by rw [written.counted, same]
    rw [submitted]
    refine ⟨same, ?_, ?_, ?_⟩
    · rw [trace, counted]
      exact List.mem_append_right _ List.mem_cons_self
    · rw [trace, counted]
      intro message member
      cases List.mem_append.mp member with
      | inl before => exact .inl (soundBefore message before)
      | inr here =>
        cases List.mem_cons.mp here with
        | inl total => cases total; exact .inr rfl
        | inr printed => exact .inl (sound message (mem_prints.mp printed))
    · rw [trace, List.filterMap_append, progress, ends, List.filterMap_cons,
        completedKeys_prints, silent]
      exact List.append_nil _
  -- the lines behind the last write take no error back
  case fault =>
    rw [← calls, submitted]
    intro failed
    obtain ⟨lost, message, member, isError⟩ := written.fault failed
    rw [batches] at lost
    refine ⟨lost, message, ?_, isError⟩
    rw [trace]
    exact List.mem_append_left _ member

theorem finish_calls {flushed : Writer}
    (calls : WorkerCalls flags outside keys flushed) :
    WorkerCalls flags outside keys (flushed.finish outside) := by
  obtain ⟨writes, successCount, finishedOps, asides, trace, _⟩ :=
    @finish_trace outside flushed
  have same : (flushed.finish outside).trace.filterMap Event.call
      = flushed.trace.filterMap Event.call := by
    rw [trace, List.filterMap_append, List.filterMap_cons, call_prints]
    exact List.append_nil _
  constructor
  case statuses =>
    rw [same, writes]
    exact calls.statuses
  case some =>
    rw [same]
    exact calls.some
  case full =>
    rw [same]
    exact calls.full
  case counted =>
    rw [successCount, calls.counted, trace]
    simp
  case finished =>
    rw [finishedOps]
    exact calls.finished

end Writer

section Total

variable (flags : Flags) (baseKeys : UInt64) (tid : ℕ) (outside : Outside)

/-- With a batch size of at least one the loop uses up the keys. -/
theorem writeLoop_run (positive : 0 < flags.batch.toNat) (keys : List UInt64) :
    ∃ writer, run (Writer.writeTurn flags baseKeys tid outside) (keys.length + 1)
        (Writer.start flags outside keys) = some writer ∧
      Writer.Turning flags baseKeys outside keys writer ∧ writer.rest = [] := by
  apply run_total (Writer.writeTurn flags baseKeys tid outside)
    (fun writer => Writer.Turning flags baseKeys outside keys writer)
    (fun writer => writer.rest.length)
  case keeps => exact fun writer next turning turn => turning.writeTurn turn
  case leaves =>
    intro writer result turning turn
    unfold Writer.writeTurn at turn
    split at turn
    next through =>
      cases turn
      exact ⟨turning, through⟩
    next => cases turn
  case holds => exact ⟨Writer.filling_start positive keys, Nat.zero_add _⟩
  case enough => exact Nat.lt_succ_self keys.length

/-- With a batch size of at least one every worker comes to its end. -/
theorem doSimpleRandomWrite_total (positive : 0 < flags.batch.toNat) (keys : List UInt64) :
    ∃ writer, doSimpleRandomWrite flags baseKeys tid outside keys = some writer ∧
      WorkerTrace flags baseKeys outside keys writer.trace ∧
      WorkerCalls flags outside keys writer := by
  obtain ⟨writer, returns, turning, through⟩ :=
    writeLoop_run flags baseKeys tid outside positive keys
  obtain ⟨written, wb, rest, calls, ends⟩ := turning.filling.finalFlush through
  exact ⟨_, congrArg (Option.map _) returns, written.finish wb rest calls ends,
    Writer.finish_calls (turning.finalFlush_calls through)⟩

/-- The calls of `db1->Write` in their order. -/
def Writer.calls (writer : Writer) : List (List UInt64 × Status) :=
  writer.trace.filterMap Event.call

theorem flatten_calls (trace : List Event) :
    ((trace.filterMap Event.call).map Prod.fst).flatten = trace.flatMap Event.batch := by
  induction trace with
  | nil => rfl
  | cons event trace inductionHypothesis =>
    cases event with
    | write batch status => simp [inductionHypothesis]
    | print message => exact inductionHypothesis

theorem submitted_length (trace : List Event) :
    (trace.flatMap Event.submitted).length
      = (((trace.filterMap Event.call).filter fun call => call.2.ok).map
          fun call => call.1.length).sum := by
  induction trace with
  | nil => rfl
  | cons event trace inductionHypothesis =>
    cases event with
    | write batch status =>
      cases ok : status.ok <;> simp [ok, inductionHypothesis]
    | print message => exact inductionHypothesis

/-- Whatever the writes return, every key is handed over once and in order. -/
theorem doSimpleRandomWrite_batches (positive : 0 < flags.batch.toNat) (keys : List UInt64) :
    ∃ writer, doSimpleRandomWrite flags baseKeys tid outside keys = some writer ∧
      (writer.calls.map Prod.fst).flatten = keys ∧
      writer.calls.map Prod.snd = (List.range writer.calls.length).map outside.write ∧
      (∀ call ∈ writer.calls, call.1 ≠ []) ∧
      (∀ call ∈ writer.calls.dropLast, call.1.length = flags.batch.toNat) ∧
      writer.successCount
        = ((writer.calls.filter fun call => call.2.ok).map fun call => call.1.length).sum ∧
      writer.finishedOps.sum = keys.length := by
  obtain ⟨writer, returns, trace, calls⟩ :=
    doSimpleRandomWrite_total flags baseKeys tid outside positive keys
  have many : writer.calls.length = writer.writes := by
    simpa [Writer.calls] using congrArg List.length calls.statuses
  refine ⟨writer, returns, ?_, ?_, calls.some, calls.full, ?_, calls.finished⟩
  · rw [Writer.calls, flatten_calls, trace.batches]
  · rw [many]
    exact calls.statuses
  · rw [calls.counted, submitted_length]
    rfl

end Total

/-- All writes succeed, time stands still, and RocksDB has no statistics. -/
def Outside.calm : Outside where
  write _ := ⟨true, "OK".toList⟩
  clock _ := 0
  timeOfDay _ := (0, 0)
  disk _ := none
  rocksdbStats _ := none
  tickers _ := none

/-- Three keys in batches of two: the second batch is a single key. -/
theorem doSimpleRandomWrite_batches_three :
    ∃ writer, doSimpleRandomWrite { batch := 2 } 0 0 .calm [5, 6, 7] = some writer ∧
      (writer.calls.map Prod.fst).flatten = [5, 6, 7] := by
  obtain ⟨writer, returns, order, _⟩ :=
    doSimpleRandomWrite_batches { batch := 2 } 0 0 .calm (by decide) [5, 6, 7]
  exact ⟨writer, returns, order⟩

end FdpRocks.Benchmark
