import FdpRocks.Benchmark.KeyOrder
import FdpRocks.Benchmark.Progress
import FdpRocks.Benchmark.WriteAmplification
import FdpRocks.Library.Loop
import FdpRocks.Library.Transition

/-! # `DoSimpleRandomWrite`

One worker's run over its key vector, as the list of its calls to
`db1->Write` and of the texts that it prints.  Everything it learns from
outside (statuses, clocks, disk usage, RocksDB's own statistics) is the
parameter `Outside`.  Values are left out: nothing reads them back.
-/

namespace FdpRocks.Benchmark

open FdpRocks.Library.Loop FdpRocks.Library.Numerals FdpRocks.Library.Transition

/-! ## Outside -/

/-- `rocksdb::Status`, with its `ToString ()`. -/
structure Status where
  ok : Bool
  text : List Char

/-- The members of `struct statvfs` that `GetDiskUsage` reads. -/
structure DiskInfo where
  blocks : ℕ
  available : ℕ
  fragment : ℕ

/-- The answers a worker gets: by its `Write` calls, and by all its other calls. -/
structure Outside where
  write : ℕ → Status
  clock : ℕ → UInt64
  timeOfDay : ℕ → ℕ × ℕ
  disk : ℕ → Option DiskInfo
  rocksdbStats : ℕ → Option (List Char)
  tickers : ℕ → Option Tickers

/-- `GetTimestamp`, of seconds and microseconds. -/
def getTimestamp (time : ℕ × ℕ) : List Char :=
  decimal time.1 ++ ".".toList ++ zeroPadded 6 time.2

def getDiskUsage : Option DiskInfo → List Char
  | none => "N/A".toList
  | some info =>
    let total : ℚ := info.blocks * info.fragment / (1024 * 1024 * 1024)
    let available : ℚ := info.available * info.fragment / (1024 * 1024 * 1024)
    fixedPoint 1 (total - available) ++ "GiB/".toList ++ fixedPoint 1 total ++ "GiB".toList

/-! ## Messages -/

/-- The texts a worker prints, one for each call of `fprintf`; all of
    `PrintRocksDBStats` is one. -/
inductive Message where
  | writeError (successCount : ℕ) (status : List Char)
  | writesCompleted (successCount batchCount : ℕ)
  | writeProgress (time : ℕ × ℕ) (completedKeys : ℕ) (disk : Option DiskInfo)
  | writeFailed (successCount : ℕ) (status : List Char) (batchCount : ℕ)
  | stuck (successCount : ℕ) (status : Status) (batchCount wbCount : ℕ)
  | finalWriteError (successCount : ℕ) (status : List Char) (batchCount : ℕ)
  | finalFlush (successCount batchCount : ℕ) (ok : Bool)
  | total (successCount : ℕ)
  | opsCompleted (done : ℕ)
  | progressBar (bar : Bar)
  | newline
  | rocksdbStats (stats : Option (List Char)) (tickers : Option Tickers)
  /-- What the rest of the process prints. -/
  | other (text : List Char)

def thread (tid : ℕ) : List Char := "Thread ".toList ++ decimal tid

def Message.text (tid : ℕ) : Message → List Char
  | writeError successCount status =>
    thread tid ++ ": Write ERROR at count ".toList ++ decimal successCount ++ ": ".toList ++ status
      ++ "\n".toList
  | writesCompleted successCount batchCount =>
    thread tid ++ ": ".toList ++ decimal successCount ++ " writes completed (batch_count=".toList
      ++ decimal batchCount ++ ")\n".toList
  | writeProgress time completedKeys disk =>
    "[write-progress] timestamp=".toList ++ getTimestamp time ++ " completed_keys=".toList
      ++ decimal completedKeys ++ " disk_usage=".toList ++ getDiskUsage disk ++ "\n".toList
  | writeFailed successCount status batchCount =>
    thread tid ++ ": Write FAILED at success_count=".toList ++ decimal successCount ++ ": ".toList
      ++ status ++ " (batch_count=".toList ++ decimal batchCount ++ ")\n".toList
  | stuck successCount status batchCount wbCount =>
    thread tid ++ ": WARNING - success_count stuck at ".toList ++ decimal successCount
      ++ " for 5+ seconds! Last Write status=".toList
      ++ (if status.ok then "OK".toList else status.text) ++ ", batch_count=".toList
      ++ decimal batchCount ++ ", current wb.Count()=".toList ++ decimal wbCount ++ "\n".toList
  | finalWriteError successCount status batchCount =>
    thread tid ++ ": Final Write ERROR at count ".toList ++ decimal successCount ++ ": ".toList
      ++ status ++ " (batch_count=".toList ++ decimal batchCount ++ ")\n".toList
  | finalFlush successCount batchCount ok =>
    thread tid ++ ": ".toList ++ decimal successCount
      ++ " writes completed (final flush, batch_count=".toList ++ decimal batchCount
      ++ ", status=".toList ++ (if ok then "OK".toList else "ERROR".toList) ++ ")\n".toList
  | total successCount =>
    thread tid ++ ": Total ".toList ++ decimal successCount ++ " writes completed\n".toList
  | opsCompleted done =>
    thread tid ++ ": ".toList ++ decimal done ++ " ops completed\r".toList
  | progressBar bar => thread tid ++ bar.text
  | newline => "\n".toList
  | rocksdbStats stats tickers =>
    (match stats with
      | none => []
      | some text => "\n========== RocksDB Statistics ==========\n".toList
          ++ (text ++ "=========================================\n\n".toList))
      ++ (match tickers with
        | none => []
        | some tickers => printApplicationWriteAmplification tickers)
  | other text => text

inductive Event where
  /-- A call of `db1->Write` and what it returned. -/
  | write (batch : List UInt64) (status : Status)
  | print (message : Message)

/-! ## The worker -/

/-- The variables of `DoSimpleRandomWrite`; `rest` is `keys` from `ind` on. -/
structure Writer where
  rest : List UInt64
  wb : List UInt64
  successCount : ℕ
  lastSuccessCount : ℕ
  lastCheckTime : UInt64
  progress : Progress
  /-- Calls of `db1->Write` so far, and calls of anything else outside. -/
  writes : ℕ
  reads : ℕ
  /-- What `FinishedBatchOp` was called with. -/
  finishedOps : List ℕ
  trace : List Event

def printInterval : ℕ := 10000

/-- Progress is reported at this count. -/
def IsDue (successCount : ℕ) : Prop := successCount % printInterval = 0 ∧ 0 < successCount

instance (successCount : ℕ) : Decidable (IsDue successCount) := inferInstanceAs (Decidable (_ ∧ _))

variable (flags : Flags) (baseKeys : UInt64) (tid : ℕ) (outside : Outside)

namespace Writer

def print (message : Message) (writer : Writer) : Writer :=
  { writer with trace := writer.trace ++ [.print message] }

/-- `NowMicros` has been called. -/
def tick (writer : Writer) : Writer := { writer with reads := writer.reads + 1 }

def printProgressBar (writer : Writer) : Writer :=
  if writer.progress.totalOps = 0 then writer.print (.opsCompleted writer.progress.done)
  else writer.tick.print (.progressBar (writer.progress.bar (outside.clock writer.reads)))

/-- `turns` turns of the loop over `next_10k_boundary_`. -/
def crossBoundaries : ℕ → Writer → Writer
  | 0, writer => writer
  | turns + 1, writer =>
    crossBoundaries turns
      { writer with progress := writer.progress.cross (outside.clock writer.reads) }.tick

/-- `done_ += batch` and the loop behind it. -/
def countBatch (batch : ℕ) (writer : Writer) : Writer :=
  let counted :=
    { writer with progress := { writer.progress with done := writer.progress.done + batch } }
  counted.crossBoundaries outside counted.progress.crossings

def reportByCount (writer : Writer) : Writer :=
  if writer.progress.done ≥ writer.progress.nextReport then
    { writer with progress := writer.progress.raiseNextReport }.printProgressBar outside
  else writer

def reportByTime (writer : Writer) : Writer :=
  if flags.reportInterval = 0 then writer
  else if (outside.clock writer.reads).toNat > writer.progress.nextReportTime then
    let nextReportTime := writer.progress.nextReportTime + flags.reportInterval.toNat * 1000000
    { writer.tick with progress := { writer.progress with nextReportTime } }.printProgressBar outside
  else writer.tick

/-- `FinishedBatchOp`; its caller ignores what it returns. -/
def finishedBatchOp (batch : ℕ) (writer : Writer) : Writer :=
  let called := { writer with finishedOps := writer.finishedOps ++ [batch] }
  ((called.countBatch outside batch).reportByCount outside).reportByTime flags outside

/-- `ShouldPrintRocksDBStats` and then `PrintRocksDBStats`, of worker 0 only. -/
def maybePrintRocksDBStats (writer : Writer) : Writer :=
  if tid = 0 then
    let now := outside.clock writer.reads
    if now - writer.progress.lastRocksdbStatsTime ≥ 30000000 then
      let reading := { writer.tick with
        progress := { writer.progress with lastRocksdbStatsTime := now } }
      { reading with reads := reading.reads + 2 }.print
        (.rocksdbStats (outside.rocksdbStats reading.reads) (outside.tickers (reading.reads + 1)))
    else writer.tick
  else writer

/-- `db1->Write`, with the batch cleared behind it. -/
def write (writer : Writer) : Writer :=
  { writer with
    wb := []
    writes := writer.writes + 1
    trace := writer.trace ++ [.write writer.wb (outside.write writer.writes)] }

/-- The two lines of a progress report. -/
def reportProgress (line : Message) (writer : Writer) : Writer :=
  ({ writer with reads := writer.reads + 2 }.print line).print
    (.writeProgress (outside.timeOfDay writer.reads)
      ((baseKeys.toNat + writer.successCount) % 2 ^ 64) (outside.disk (writer.reads + 1)))

/-- The check of `success_count` every five seconds; the batch is empty by then. -/
def checkStuck (status : Status) (batchCount : ℕ) (writer : Writer) : Writer :=
  let now := outside.clock writer.reads
  if now - writer.lastCheckTime > 5000000 then
    let checked :=
      if writer.successCount = writer.lastSuccessCount ∧ 0 < writer.successCount then
        writer.tick.print (.stuck writer.successCount status batchCount writer.wb.length)
      else writer.tick
    { checked with lastSuccessCount := writer.successCount, lastCheckTime := now }
  else writer.tick

/-- What happens once the batch is full. -/
def commit (writer : Writer) : Writer :=
  let status := outside.write writer.writes
  let batchCount := writer.wb.length
  let written := writer.write outside
  if status.ok then
    let counted := { written with successCount := written.successCount + batchCount }
    let reported :=
      if IsDue counted.successCount then
        counted.reportProgress baseKeys outside
          (.writesCompleted counted.successCount batchCount)
      else counted
    reported.checkStuck outside status batchCount
  else
    let told := (written.print (.writeError written.successCount status.text)).print
      (.writeFailed written.successCount status.text batchCount)
    told.checkStuck outside status batchCount

/-- `wb.Put`, and the write if it filled the batch. -/
def put (key : UInt64) (writer : Writer) : Writer :=
  let added := { writer with wb := writer.wb ++ [key] }
  if added.wb.length = flags.batch.toNat then added.commit baseKeys outside else added

/-- The `for` loop with `budget` turns left, and `j` when it ends. -/
def fillBatch : ℕ → ℕ → Writer → ℕ × Writer
  | 0, j, writer => (j, writer)
  | budget + 1, j, writer =>
    match writer.rest with
    | [] => (j, writer)
    | key :: rest => fillBatch budget (j + 1) ({ writer with rest }.put flags baseKeys outside key)

/-- One turn of the `while` loop. -/
def writeTurn (writer : Writer) : Turn Writer Writer :=
  if writer.rest = [] then .done writer
  else
    let (j, filled) := writer.fillBatch flags baseKeys outside flags.batch.toNat 0
    .again ((filled.finishedBatchOp flags outside j).maybePrintRocksDBStats tid outside)

/-- The write of a last batch that is not full.  Unlike `commit`, it reports
    progress whatever the status. -/
def finalFlush (writer : Writer) : Writer :=
  if writer.wb = [] then writer
  else
    let status := outside.write writer.writes
    let batchCount := writer.wb.length
    let written := writer.write outside
    let counted :=
      if status.ok then { written with successCount := written.successCount + batchCount }
      else written.print (.finalWriteError written.successCount status.text batchCount)
    if IsDue counted.successCount then
      counted.reportProgress baseKeys outside
        (.finalFlush counted.successCount batchCount status.ok)
    else counted

/-- The lines behind the loop. -/
def finish (writer : Writer) : Writer :=
  ((writer.print (.total writer.successCount)).printProgressBar outside).print .newline

/-- Before the loop: `stats.Start ()` and `last_check_time` read the clock. -/
def start (keys : List UInt64) : Writer where
  rest := keys
  wb := []
  successCount := 0
  lastSuccessCount := 0
  lastCheckTime := outside.clock 1
  progress := .begin flags.reportInterval (outside.clock 0) keys.length
  writes := 0
  reads := 2
  finishedOps := []
  trace := []

end Writer

/-- The variables when the worker returns; with a batch size of zero the loop
    never ends. -/
def doSimpleRandomWrite (keys : List UInt64) : Option Writer :=
  (run (Writer.writeTurn flags baseKeys tid outside) (keys.length + 1)
    (Writer.start flags outside keys)).map fun writer =>
      (writer.finalFlush baseKeys outside).finish outside

end FdpRocks.Benchmark
